import FpgaEthash.Devcore.HashOrder
import FpgaEthash.Devcore.HexCodec
import FpgaEthash.Devcore.TargetFromDiff
import FpgaEthash.Stratum.LatestJob

/-!
# The share target of a job

In the modes `STRATUM` and `ETHPROXY` the pool sends the boundary of a job as a text.  A
text of fewer than 66 characters is filled up: `0x`, as many zeros as are missing, and the
text from its third character on.  That is the target of the pool if the first two
characters were its `0x`.  If the pool does not write one, they are its leading digits, and
they are lost; a text of a single digit has no third character, and the job is not read.

`padShareTarget_prefixed` and `padShareTarget_bare` say what is left of the digits, and
`boundary_eq_value_iff` what that means for the package of a message.
-/

namespace FpgaEthash
namespace Stratum

open Devcore Ethcore HexDigits Jsoncpp Pool Throwing Talk

variable {μ : Type}

/-! ## The text -/

/-- A target that has its `0x` is filled up. -/
theorem padShareTarget_prefixed {digits : StdString} (hlen : digits.length ≤ 64) :
    padShareTarget ('0' :: 'x' :: digits) =
      .ok ('0' :: 'x' :: List.replicate (64 - digits.length) '0' ++ digits) := by
  have hlength : ('0' :: 'x' :: digits).length = digits.length + 2 := rfl
  have hmissing : 66 - (digits.length + 2) = 64 - digits.length := by omega
  unfold padShareTarget
  rw [hlength, StdString.substr_of_le (by omega), hmissing]
  split_ifs with hshort
  · rfl
  · rw [show 64 - digits.length = 0 by omega]
    rfl

/-- A target that has no `0x` loses two digits. -/
theorem padShareTarget_bare {digits : StdString} (htwo : 2 ≤ digits.length)
    (hlen : digits.length ≤ 64) :
    padShareTarget digits =
      .ok ('0' :: 'x' :: List.replicate (66 - digits.length) '0' ++ digits.drop 2) := by
  unfold padShareTarget
  rw [if_pos (by omega), StdString.substr_of_le htwo]
  rfl

/-- A target of one digit has nothing to lose. -/
theorem padShareTarget_single {digits : StdString} (hone : digits.length = 1) :
    padShareTarget digits = .error .outOfRange := by
  unfold padShareTarget StdString.substr
  rw [hone]
  rfl

/-- The boundary that a text stands for, if it has 64 digits after all. -/
theorem exists_boundary {k : ℕ} {digits : StdString} (hlen : k + digits.length = 64)
    (hdigits : ∀ c ∈ digits, IsHexDigit c) :
    ∃ boundary : H256,
      FixedHash.ofString 32 ('0' :: 'x' :: List.replicate k '0' ++ digits) = .ok boundary ∧
        boundary.toArith.toNat = value digits := by
  have hzero : IsHexDigit '0' := by decide
  have hfilled : ∀ c ∈ List.replicate k '0' ++ digits, IsHexDigit c := by
    rw [List.forall_mem_append]
    exact ⟨fun c hc => List.eq_of_mem_replicate hc ▸ hzero, hdigits⟩
  have hlength : (List.replicate k '0' ++ digits).length = 2 * 32 := by
    rw [List.length_append, List.length_replicate, hlen]
  obtain ⟨boundary, hread, hvalue⟩ := FixedHash.exists_ofString hlength hfilled
  refine ⟨boundary, hread, ?_⟩
  rw [FixedHash.toNat_toArith, hvalue, value_append, value_replicate_zero, Nat.zero_mul,
    Nat.zero_add]

/-- Two digits may be dropped if they are zeros, and only then. -/
theorem value_drop_two_iff {digits : StdString} (htwo : 2 ≤ digits.length)
    (hdigits : ∀ c ∈ digits, IsHexDigit c) :
    value (digits.drop 2) = value digits ↔ digits.take 2 = ['0', '0'] := by
  have hsplit : value digits =
      value (digits.take 2) * 16 ^ (digits.drop 2).length + value (digits.drop 2) := by
    rw [← value_append, List.take_append_drop]
  have hpow : 0 < 16 ^ (digits.drop 2).length := Nat.pow_pos (by decide)
  have hfirst := value_eq_zero_iff (s := digits.take 2)
    fun c hc => hdigits c (List.mem_of_mem_take hc)
  rw [List.length_take_of_le htwo] at hfirst
  rw [hsplit, eq_comm, Nat.add_eq_right, Nat.mul_eq_zero, or_iff_left hpow.ne']
  exact hfirst

/-! ## The message -/

/-- A client that is ready for a job with a share target. -/
structure AwaitsTarget (s : Exchange μ) : Prop where
  mode : s.mode = some .stratum ∨ s.mode = some .ethproxy
  session : ∃ session, s.session = some session ∧ session.subscribed = true
  newjobprocessed : s.newjobprocessed = false

theorem AwaitsTarget.mode_ne {s : Exchange μ} (hs : AwaitsTarget s) :
    s.mode ≠ some .ethereumstratum ∧ s.mode ≠ some .ethereumstratum2 := by
  obtain h | h := hs.mode
  · rw [h]
    decide
  · rw [h]
    decide

/-- The parameters of a job that carries a share target and is well formed but for it. -/
structure CarriesTarget (lib : Library) (mode : Option StratumMode) (prm : Value × ℕ)
    (sShareTarget : StdString) : Prop where
  array : (prm.1.isArray && !prm.1.empty) = true
  job : ∃ job, prmText lib prm.1 0 = .ok job
  texts : ∃ texts, jobTexts lib prm.1 prm.2 = .ok texts ∧ texts.sShareTarget = sShareTarget ∧
    (∃ seed : H256, FixedHash.ofString 32 texts.sSeedHash = .ok seed) ∧
    ∃ header : H256, FixedHash.ofString 32 texts.sHeaderHash = .ok header
  block : ∃ block, blockAt lib mode prm.1 (prm.2 + 3) = some block

section Message

variable (lib : Library) (now : TimePoint) {s : Exchange μ} {obj : Value.Members}
  {target : StdString}

/-- A job whose target can be read. -/
theorem processJob_of_target (hs : AwaitsTarget s)
    (hjob : CarriesTarget lib s.mode (jobParams s.mode obj) target) {sShareTarget : StdString}
    {boundary : H256} (hpad : padShareTarget target = .ok sShareTarget)
    (hboundary : FixedHash.ofString 32 sShareTarget = .ok boundary) :
    ∃ s', processJob lib now obj s = .ok () s' ∧ s'.current.boundary = boundary := by
  obtain ⟨session, hsession, hsub⟩ := hs.session
  obtain ⟨job, hid⟩ := hjob.job
  obtain ⟨texts, htexts, rfl, ⟨seed, hseed⟩, header, hheader⟩ := hjob.texts
  obtain ⟨block, hblock⟩ := hjob.block
  have hn : notice? lib s.mode obj =
      some { job, block, header, seed := some seed, boundary := some boundary } := by
    rw [notice?, if_neg hs.mode_ne.2, if_pos hjob.array, if_neg hs.mode_ne.1, notice0?, hid,
      htexts, hblock]
    simp only [Except.toOption, Option.bind_eq_bind, Option.bind_some]
    rw [hpad, hseed, hheader]
    simp only [Option.bind_some]
    rw [hboundary]
    rfl
  refine ⟨_, processJob_of_notice lib now hsession hs.mode_ne.2 hsub hs.newjobprocessed hn, ?_⟩
  rw [Exchange.take, Notice.package, if_neg hs.mode_ne.2, if_neg hs.mode_ne.1]
  rfl

/-- A job whose target cannot even be filled up. -/
theorem processJob_of_no_target (hs : AwaitsTarget s)
    (hjob : CarriesTarget lib s.mode (jobParams s.mode obj) target) {e : StdException}
    (hpad : padShareTarget target = .error e) :
    ∃ s', processJob lib now obj s = .error (.std e) s' := by
  obtain ⟨session, hsession, hsub⟩ := hs.session
  obtain ⟨job, hid⟩ := hjob.job
  obtain ⟨texts, htexts, rfl, -⟩ := hjob.texts
  obtain ⟨block, hblock⟩ := hjob.block
  have hhashes : ∀ current, jobHashes texts current = .error e current := by
    intro current
    rw [jobHashes, hpad]
    rfl
  rw [processJob_eq_onNotify lib now hs.mode_ne.2, onNotify_of_session lib now obj hsession, hsub,
    hs.newjobprocessed, if_neg (by decide), if_pos hjob.array]
  simp only [readJob, readJob0, if_neg hs.mode_ne.1, ofJson, ofExcept_bind_ok hid, modify_bind,
    ofExcept_bind_ok htexts]
  rw [bind_of_ok (readBlock_of_some lib _ rfl hblock),
    bind_of_error (onCurrent_of_error _ (hhashes _))]
  exact ⟨_, rfl⟩

/-- **The boundary of a job is the target that the pool wrote** exactly if it was written
with a `0x`, or starts with two zeros. -/
theorem boundary_eq_value_iff (h : Handlers μ) {m : Value} {digits : StdString}
    (hs : AwaitsTarget s) (hm : jobMessage? lib s m = some obj)
    (hjob : CarriesTarget lib s.mode (jobParams s.mode obj) target)
    (htarget : IsHexText target digits) (hlen : 1 ≤ digits.length ∧ digits.length ≤ 64) :
    (∃ s', processResponse lib h now m s = .ok () s' ∧
        s'.current.boundary.toArith.toNat = value digits) ↔
      target = '0' :: 'x' :: digits ∨ digits.take 2 = ['0', '0'] := by
  rw [processResponse_of_job lib h now hm]
  obtain ⟨rfl | rfl, hdigits⟩ := htarget
  · -- without `0x`: two digits are lost, if there are two
    have hbare : target ≠ '0' :: 'x' :: target := by
      intro heq
      have hcount := congrArg List.length heq
      rw [List.length_cons, List.length_cons] at hcount
      omega
    rw [or_iff_right hbare]
    by_cases htwo : 2 ≤ target.length
    · have hfilled : 66 - target.length + (target.drop 2).length = 64 := by
        rw [List.length_drop]
        omega
      obtain ⟨boundary, hread, hvalue⟩ := exists_boundary hfilled
        fun c hc => hdigits c (List.mem_of_mem_drop hc)
      obtain ⟨s', hrun, hs'⟩ := processJob_of_target lib now hs hjob
        (padShareTarget_bare htwo hlen.2) hread
      rw [← value_drop_two_iff htwo hdigits, ← hvalue, ← hs', hrun]
      constructor
      · rintro ⟨s'', heq, hboundary⟩
        obtain ⟨-, rfl⟩ := EStateM.Result.ok.inj heq
        exact hboundary
      · exact fun hboundary => ⟨s', rfl, hboundary⟩
    · obtain ⟨s', hrun⟩ := processJob_of_no_target lib now hs hjob
        (padShareTarget_single (by omega))
      rw [hrun]
      constructor
      · rintro ⟨s'', heq, -⟩
        exact nomatch heq
      · intro htake
        have hcount := congrArg List.length htake
        rw [List.length_take, List.length_cons, List.length_singleton] at hcount
        omega
  · -- with `0x`: the digits are filled up
    have hfilled : 64 - digits.length + digits.length = 64 := by omega
    obtain ⟨boundary, hread, hvalue⟩ := exists_boundary hfilled hdigits
    obtain ⟨s', hrun, hs'⟩ := processJob_of_target lib now hs hjob
      (padShareTarget_prefixed hlen.2) hread
    refine iff_of_true ⟨s', hrun, ?_⟩ (Or.inl rfl)
    rw [hs', hvalue]

end Message

/-- A job with this share target, as a plain stratum pool sends it. -/
def targetJob (target : StdString) : Value.Members :=
  let hash := '0' :: 'x' :: List.replicate 64 '1'
  [("id".toList, .int 0), ("method".toList, .string "mining.notify".toList),
    ("params".toList,
      .array [.string "a".toList, .string hash, .string hash, .string target])]

theorem awaitsTarget_stratumReceiver : AwaitsTarget stratumReceiver.exchange :=
  ⟨Or.inl rfl, ⟨_, rfl, rfl⟩, rfl⟩

theorem jobMessage?_targetJob (lib : Library) (target : StdString) :
    jobMessage? lib stratumReceiver.exchange (.object (targetJob target)) =
      some (targetJob target) := rfl

theorem carriesTarget_targetJob (lib : Library) (target : StdString) :
    CarriesTarget lib stratumReceiver.exchange.mode
      (jobParams stratumReceiver.exchange.mode (targetJob target)) target := by
  have hone : IsHexDigit '1' := by decide
  have hlength : (List.replicate 64 '1').length = 2 * 32 := List.length_replicate
  obtain ⟨hash, hread, -⟩ := FixedHash.exists_ofString hlength
    fun c hc => List.eq_of_mem_replicate hc ▸ hone
  exact ⟨rfl, ⟨_, rfl⟩, ⟨_, rfl, rfl, ⟨hash, hread⟩, hash, hread⟩, _, rfl⟩

/-- A short target with its `0x`. -/
theorem boundary_of_short_target :
    ∃ s', processResponse (readerOf []) (PoolManager.handlers fun _ => -1) 0
        (.object (targetJob "0xffff".toList)) stratumReceiver.exchange = .ok () s' ∧
      s'.current.boundary.toArith.toNat = value "ffff".toList := by
  have hdigit : IsHexDigit 'f' := by decide
  have htarget : IsHexText "0xffff".toList (List.replicate 4 'f') :=
    ⟨Or.inr rfl, fun c hc => List.eq_of_mem_replicate hc ▸ hdigit⟩
  exact (boundary_eq_value_iff (readerOf []) 0 (PoolManager.handlers fun _ => -1)
    awaitsTarget_stratumReceiver (jobMessage?_targetJob _ _) (carriesTarget_targetJob _ _)
    htarget (by decide)).mpr (Or.inl rfl)

/-- The largest target without a `0x` becomes one of 62 digits, and a target of one digit is
thrown away. -/
theorem bare_target_misread :
    let client := stratumReceiver.exchange
    let process := fun target => processResponse (readerOf []) (PoolManager.handlers fun _ => -1) 0
      (.object (targetJob target))
    AwaitsTarget client ∧
      (∀ target, CarriesTarget (readerOf []) client.mode
        (jobParams client.mode (targetJob target)) target) ∧
      value (List.replicate 64 'f') = 16 ^ 64 - 1 ∧
      (leaves (process (List.replicate 64 'f')) client).current.boundary.toArith.toNat =
        16 ^ 62 - 1 ∧
      thrown (process ['f']) client = some (.std .outOfRange) := by
  intro client process
  refine ⟨awaitsTarget_stratumReceiver, carriesTarget_targetJob _, ?_⟩
  decide +kernel

end Stratum
end FpgaEthash
