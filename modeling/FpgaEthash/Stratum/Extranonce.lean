import FpgaEthash.Ethcore.NoncePartition
import FpgaEthash.Stratum.Client

/-!
# The extranonce, from the pool and back

A pool in the modes EthereumStratum/1.0.0 and 2.0.0 gives out an extranonce, the
first `L` digits of every nonce, and expects the other `16 - L` digits back.  Three
parts of the miner have to agree on where the cut is.

* `processExtranonce` pads the text with zeros on the right to sixteen digits and
  reads it: `processExtranonce_of_isHexDigit`.
* `Farm::setWork` keeps the nonces of all miners below the cut:
  `Farm.ushiftRight_of_mem_calls`.
* `submitSolution` writes sixteen digits and drops the first `L`:
  `residualNonce_eq_hexForm`.

`extranonce_end_to_end` puts them together: the pool, appending what it is sent to
what it gave out, has the sixteen digits of the nonce that was hashed.
-/

namespace FpgaEthash
namespace Stratum

open Devcore Ethcore HexDigits Runs

/-! ## Reading the extranonce -/

theorem sixteen_pow {l : ℕ} (hl : l ≤ 16) : 16 ^ (16 - l) = 2 ^ (64 - l * 4) := by
  rw [show 64 - l * 4 = 4 * (16 - l) by omega, pow_mul]
  rfl

/-- The number that an extranonce stands for, in front of zeros. -/
theorem value_resize {x : StdString} (hlen : x.length ≤ 16) :
    value (x.resize 16 '0') = value x * 2 ^ (64 - x.length * 4) := by
  rw [StdString.resize_of_length_le hlen, value_append, value_replicate_zero, Nat.add_zero,
    List.length_replicate, sixteen_pow hlen]

/-- **`processExtranonce` on digits.** -/
theorem processExtranonce_of_isHexDigit {x : StdString} (hx : ∀ c ∈ x, IsHexDigit c)
    (hlen : x.length ≤ 16) (session : Session) :
    processExtranonce x session = .ok ()
      { session with
        extraNonceSizeBytes := BitVec.ofNat 32 x.length
        extraNonce := BitVec.ofNat 64 (value x * 2 ^ (64 - x.length * 4)) } := by
  have hdigits : ∀ c ∈ x.resize 16 '0', IsHexDigit c := by
    intro c hc
    rw [StdString.resize_of_length_le hlen] at hc
    rcases List.mem_append.mp hc with hmem | hzero
    · exact hx c hmem
    · rw [List.eq_of_mem_replicate hzero]
      decide
  have hne : x.resize 16 '0' ≠ [] := by
    rw [← List.length_pos_iff, StdString.length_resize]
    decide
  have hread := stoull_of_isHexDigit hdigits hne (le_of_eq (StdString.length_resize ..))
  rw [value_resize hlen] at hread
  unfold processExtranonce
  rw [hread]
  rfl

/-! ## Packages -/

/-- The package is a job of the session, in one of the modes with an extranonce. -/
def JobOf (session : Session) (next : WorkPackage) : StratumMode → Prop
  | .ethereumstratum => ∃ sSeedHash sHeaderHash current,
      jobEthereumStratum session sSeedHash sHeaderHash current = .ok () next
  | .ethereumstratum2 => ∃ sHeader current,
      jobEthereumStratum2 session sHeader current = .ok () next
  | _ => False

/-- In both modes the job starts at the extranonce of the session. -/
theorem JobOf.fields {session : Session} {next : WorkPackage} {mode : StratumMode}
    (h : JobOf session next mode) :
    next.startNonce = session.extraNonce ∧
      next.exSizeBytes = session.extraNonceSizeBytes.setWidth 16 := by
  cases mode with
  | stratum => exact h.elim
  | ethproxy => exact h.elim
  | ethereumstratum =>
    obtain ⟨sSeedHash, sHeaderHash, current, h⟩ := h
    exact jobEthereumStratum_ok h
  | ethereumstratum2 =>
    obtain ⟨sHeader, current, h⟩ := h
    exact jobEthereumStratum2_ok h

theorem JobOf.mode {session : Session} {next : WorkPackage} {mode : StratumMode}
    (h : JobOf session next mode) : mode = .ethereumstratum ∨ mode = .ethereumstratum2 := by
  cases mode with
  | stratum => exact h.elim
  | ethproxy => exact h.elim
  | ethereumstratum => exact Or.inl rfl
  | ethereumstratum2 => exact Or.inr rfl

/-! ## Writing the rest of the nonce -/

/-- The digits that are written are lower case already. -/
theorem map_toLower_hexForm (k n : ℕ) : (hexForm k n).map Char.toLower = hexForm k n := by
  induction k generalizing n with
  | zero => rfl
  | succ k ih =>
    have hdigit : ∀ d < 16, (Nat.digitChar d).toLower = Nat.digitChar d := by decide
    rw [hexForm, List.map_append, ih, List.map_singleton, hdigit _ (Nat.mod_lt _ (by decide))]

/-- The field of a submission holds the low digits of the nonce. -/
theorem residualNonce_eq_hexForm {solution : Solution} {l : ℕ} (hl : l ≤ 16)
    (hsize : solution.work.exSizeBytes.toNat = l) :
    residualNonce solution = .ok (hexForm (16 - l) solution.nonce.toNat) := by
  have hsplit := hexForm_add l (16 - l) solution.nonce.toNat
  rw [show l + (16 - l) = 16 by omega] at hsplit
  rw [residualNonce, toHex_eq_hexForm, hsize,
    StdString.substr_of_le (by rw [length_hexForm]; exact hl),
    hsplit, List.drop_left' (length_hexForm l _)]

/-- If the digits above the cut are those of `x`, then `x` and the low digits of the
nonce are the digits of the nonce. -/
theorem map_toLower_append_hexForm {x : StdString} (hx : ∀ c ∈ x, IsHexDigit c)
    (hlen : x.length ≤ 16) {n : ℕ} (htop : n / 2 ^ (64 - x.length * 4) = value x) :
    (x ++ hexForm (16 - x.length) n).map Char.toLower = hexForm 16 n := by
  have hsplit := hexForm_add x.length (16 - x.length) n
  rw [show x.length + (16 - x.length) = 16 by omega, sixteen_pow hlen, htop,
    hexForm_value hx] at hsplit
  rw [List.map_append, map_toLower_hexForm, hsplit]

/-! ## End to end -/

/-- **The nonces of the farm keep the extranonce**, whatever the pool manager makes of
the epoch of the job. -/
theorem toNat_div_of_mem_calls {lib : EthashLibrary} {f : Farm} {x : StdString}
    {next : WorkPackage} {draw v : BitVec 64} {fuel : ℕ} {i : BitVec 32} {p : WorkPackage}
    (hpos : 1 ≤ x.length) (hlen : x.length ≤ 15) (hn : 1 ≤ f.miners.length)
    (hfit : f.miners.length ≤ 2 ^ (64 - 4 * x.length))
    (hstart : next.startNonce = BitVec.ofNat 64 (value x * 2 ^ (64 - x.length * 4)))
    (hsize : next.exSizeBytes.toNat = x.length)
    (hp : (i, p) ∈ f.setWorkCalls lib next draw fuel)
    (hv : v ∈ (f.setWorkBegin lib next draw).1.nonces p) :
    v.toNat / 2 ^ (64 - x.length * 4) = value x := by
  have hpow : 2 ^ (64 - x.length * 4) * 2 ^ (4 * x.length) = 2 ^ 64 := by
    rw [← pow_add]
    congr 1
    omega
  have hvalue : value x < 2 ^ (4 * x.length) := by
    rw [pow_mul]
    exact value_lt x
  have hlt : value x * 2 ^ (64 - x.length * 4) < 2 ^ 64 := by
    rw [← hpow, Nat.mul_comm (2 ^ (64 - x.length * 4))]
    exact Nat.mul_lt_mul_of_pos_right hvalue (Nat.two_pow_pos _)
  have hstartNat : next.startNonce.toNat = value x * 2 ^ (64 - x.length * 4) := by
    rw [hstart, BitVec.toNat_ofNat, Nat.mod_eq_of_lt hlt]
  have hfits : Fits f.miners.length next.exSizeBytes.toNat := by
    unfold Fits
    rw [hsize, ← hpow, Nat.mul_comm x.length 4]
    exact Nat.mul_le_mul_right _ hfit
  have he : 0 < next.exSizeBytes := by
    rw [BitVec.lt_def, hsize]
    exact hpos
  have hzero : next.startNonce.toNat % 2 ^ (64 - next.exSizeBytes.toNat * 4) = 0 := by
    rw [hstartNat, hsize, Nat.mul_mod_left]
  have htop := congrArg BitVec.toNat
    (Farm.ushiftRight_of_mem_calls hn hfits he hzero hp hv)
  rw [BitVec.toNat_ushiftRight, BitVec.toNat_ushiftRight, Nat.shiftRight_eq_div_pow,
    Nat.shiftRight_eq_div_pow, hsize, hstartNat,
    Nat.mul_div_cancel _ (Nat.two_pow_pos _)] at htop
  exact htop

/-- **The extranonce, end to end.**  Let `x` be one to fifteen hexadecimal digits.
`processExtranonce` accepts it, and then for every job of the session, every farm
whose miners fit below `x`, every miner and every nonce `v` of its segment: a client
in one of the two modes that submits `v` sends a field of `16 - L` digits, and `x`
followed by the field is the sixteen digits of `v` up to letter case. -/
theorem extranonce_end_to_end (lib : EthashLibrary) (f : Farm) (session : Session)
    (x : StdString) (hx : ∀ c ∈ x, IsHexDigit c) (hpos : 1 ≤ x.length)
    (hlen : x.length ≤ 15) (hn : 1 ≤ f.miners.length)
    (hfit : f.miners.length ≤ 2 ^ (64 - 4 * x.length)) :
    ∃ session', processExtranonce x session = .ok () session' ∧
      ∀ (client : Client) (next : WorkPackage) (epoch : ℤ) (draw : BitVec 64) (fuel : ℕ)
        (i : BitVec 32) (p : WorkPackage) (solution : Solution) (now : TimePoint),
        JobOf session' next client.conn.stratumMode →
        (i, p) ∈ f.setWorkCalls lib { next with epoch } draw fuel →
        solution.nonce ∈ (f.setWorkBegin lib { next with epoch } draw).1.nonces p →
        solution.work.exSizeBytes = p.exSizeBytes →
        (∃ s, client.session = some s ∧ s.authorized = true) →
        ∃ client' request field, submitSolution solution now client = .ok () client' ∧
          client'.sent = client.sent ++ [request] ∧
          request.nonceParam client.conn.stratumMode = some field ∧
          field.length = 16 - x.length ∧
          (x ++ field).map Char.toLower = hexForm 16 solution.nonce.toNat := by
  refine ⟨_, processExtranonce_of_isHexDigit hx (by omega) session, ?_⟩
  intro client next epoch draw fuel i p solution now hjob hp hv hwork hauth
  obtain ⟨s, hsession, hauth⟩ := hauth
  obtain ⟨hstart, hsize⟩ := hjob.fields
  have hstart' : ({ next with epoch } : WorkPackage).startNonce =
      BitVec.ofNat 64 (value x * 2 ^ (64 - x.length * 4)) := hstart
  have hsizeNat : ({ next with epoch } : WorkPackage).exSizeBytes.toNat = x.length := by
    change next.exSizeBytes.toNat = x.length
    rw [hsize, BitVec.toNat_setWidth, BitVec.toNat_ofNat]
    omega
  have hpsize : p.exSizeBytes = next.exSizeBytes := by
    obtain ⟨-, rfl⟩ := Farm.mem_calls_handOut hp
    rw [Farm.packageFor, Farm.setWorkBegin_currentWp]
  have htop : solution.nonce.toNat / 2 ^ (64 - x.length * 4) = value x :=
    toNat_div_of_mem_calls hpos hlen hn hfit hstart' hsizeNat hp hv
  have hfield : residualNonce solution = .ok (hexForm (16 - x.length) solution.nonce.toNat) :=
    residualNonce_eq_hexForm (by omega) (by rw [hwork, hpsize, hsizeNat])
  have hmode : client.conn.stratumMode = .ethereumstratum ∨
      client.conn.stratumMode = .ethereumstratum2 := hjob.mode
  obtain ⟨request, hrequest, hparam⟩ := solutionRequest_of_residualNonce s hmode hfield
  exact ⟨_, request, _, submitSolution_of_authorized now hsession hauth hrequest, rfl, hparam,
    length_hexForm .., map_toLower_append_hexForm hx (by omega) htop⟩

/-- An authorized client in the mode EthereumStratum/2.0.0. -/
def authorizedClient : Client where
  conn := { stratumMode := .ethereumstratum2 }
  session := some { authorized := true }
  pleas := ⟨0, 0, []⟩

/-- The text of a header. -/
def headerText : StdString := "0x".toList ++ List.replicate 64 '1'

/-- The extranonce `aB`, three miners, and the first nonce of the last of them. -/
theorem extranonce_end_to_end_threeMiners :
    ∃ session' next p client' request field,
      processExtranonce "aB".toList {} = .ok () session' ∧
      jobEthereumStratum2 session' headerText {} = .ok () next ∧
      (2, p) ∈ Farm.threeMiners.setWorkCalls default { next with epoch := 7 } 0 3 ∧
      submitSolution ⟨p.startNonce, FixedHash.zero 32, p, 2⟩ 0 authorizedClient =
        .ok () client' ∧
      client'.sent = [request] ∧ request.nonceParam .ethereumstratum2 = some field ∧
      field.length = 14 ∧
      ("aB".toList ++ field).map Char.toLower = hexForm 16 p.startNonce.toNat := by
  have hdigit : ∀ c ∈ "aB".toList, IsHexDigit c := by simp [IsHexDigit, digitValue]
  obtain ⟨session', hsession', hall⟩ := extranonce_end_to_end default Farm.threeMiners {}
    "aB".toList hdigit (by decide) (by decide) (by decide) (by decide)
  obtain ⟨next, hnext⟩ : ∃ next,
      jobEthereumStratum2 session' headerText {} = .ok () next := by
    injection hsession'.symm.trans
      (processExtranonce_of_isHexDigit (x := "aB".toList) hdigit (by decide) {}) with _ h
    rw [h]
    exact ⟨_, rfl⟩
  obtain ⟨p, hp⟩ := Farm.exists_mem_setWorkCalls default (f := Farm.threeMiners)
    { next with epoch := 7 } 0 (j := 2) (by decide)
  obtain ⟨client', request, field, hsubmit, hsent, hparam, hlength, hdigits⟩ :=
    hall authorizedClient next 7 0 3 2 p ⟨p.startNonce, FixedHash.zero 32, p, 2⟩ 0
      ⟨_, _, hnext⟩ hp (Segments.self_mem_segment _ (Nat.two_pow_pos _)) rfl ⟨_, rfl, rfl⟩
  exact ⟨session', next, p, client', request, field, hsession', hnext, hp, hsubmit, hsent,
    hparam, hlength, hdigits⟩

end Stratum
end FpgaEthash
