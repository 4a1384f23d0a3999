import FpgaEthash.Pool.Rig

/-!
# Where solutions get lost

Every solution that `submitProofAsync` has handled should be found again: in one of the
counters of the farm, or among the submissions that the pool has still to answer.

It is not so.  `Wasted` is a counter that nothing counts: the handler of `onSolutionFound`
writes a line to the log when there is no connection, and `submitSolution` writes another
when the client is not authorized.  A connection that ends takes its unanswered submissions
along.  A response that the client cannot read is an answer all the same, and the counters
have 32 bits.

`KeepsCount` says of one event that none of this happens, and `conserved_iff` that there is
nothing else: for every run, as long as the pool answers each submission at most once.
-/

namespace FpgaEthash
namespace Pool

open Devcore Ethcore Jsoncpp Stratum Throwing Runs

namespace Rig

/-! ## The balance -/

/-- The four counters together. -/
def total (a : SolutionAccountType) : ℕ :=
  a.failed.toNat + a.wasted.toNat + a.accepted.toNat + a.rejected.toNat

/-- Every solution that was handled is in a counter, or awaits a response. -/
def Conserved (s : Rig) : Prop :=
  s.handled = total s.works.telemetry.farm + s.awaiting.length

instance (s : Rig) : Decidable s.Conserved := inferInstanceAs (Decidable (_ = _))

theorem toNat_add_one_eq_iff (x : BitVec 32) :
    (x + 1).toNat = x.toNat + 1 ↔ x ≠ BitVec.allOnes 32 := by
  rw [ne_eq, ← BitVec.toNat_inj, BitVec.toNat_add, BitVec.toNat_allOnes]
  have hone : (1 : BitVec 32).toNat = 1 := rfl
  have hlt := x.isLt
  omega

/-- One more solution makes the counters one more, unless the counter is at its end. -/
theorem total_count_iff (a : SolutionAccountType) (kind : SolutionAccountingEnum) :
    total (a.count kind) = total a + 1 ↔ a.counter kind ≠ BitVec.allOnes 32 := by
  rw [← toNat_add_one_eq_iff]
  cases kind <;> simp only [total, SolutionAccountType.count, SolutionAccountType.counter] <;> omega

/-! ## What may go wrong at one event -/

/-- The counter is not at its end. -/
def Counts (s : Rig) (kind : SolutionAccountingEnum) : Prop :=
  s.works.telemetry.farm.counter kind ≠ BitVec.allOnes 32

instance (s : Rig) (kind : SolutionAccountingEnum) : Decidable (s.Counts kind) :=
  inferInstanceAs (Decidable (_ ≠ _))

/-- The message gets to a branch for responses to submissions, is read there, and counted. -/
def Accounted (lib : Library) (s : Rig) (m : Value) : Prop :=
  ∃ e ∈ solutionReply? lib s.exchange m,
    ∃ kind ∈ (verdict lib s.exchange.mode e).toOption, s.Counts kind

instance (lib : Library) (s : Rig) (m : Value) : Decidable (s.Accounted lib m) :=
  inferInstanceAs (Decidable (∃ e ∈ solutionReply? lib s.exchange m,
    ∃ kind ∈ (verdict lib s.exchange.mode e).toOption, s.Counts kind))

/-- **The event loses no solution.**

* A solution that misses is counted as failed; any other finds the client connected and
  authorized.
* A message that answers a submission is accounted for.
* No connection ends, and no client is replaced, with submissions unanswered. -/
def KeepsCount (lib : Library) (noEval : Bool) (eval : ℤ → H256 → BitVec 64 → Result) (s : Rig) :
    Event → Prop
  | .submitProofAsync _ => ∀ solution ∈ s.posted.head?,
      if Misses noEval eval solution then s.Counts .failed
      else s.isConnected = true ∧ s.exchange.isAuthorized = true
  | .response _ _ m => ∀ id ∈ answers? lib m, id ∈ s.awaiting → s.Accounted lib m
  | .connected _ | .disconnected _ | .rotateConnect _ _ => s.awaiting = []
  | _ => True

/-- The pool answers each submission at most once. -/
def AnswersOnce (lib : Library) (s : Rig) : Event → Prop
  | .response _ _ m => ∀ id ∈ answers? lib m,
      40 ≤ id → id ≤ s.exchange.solutionSubmittedMaxId → id ∈ s.awaiting
  | _ => True

-- an id is looked up in the option: there is an instance that goes through all of them
instance (lib : Library) (noEval : Bool) (eval : ℤ → H256 → BitVec 64 → Result) (s : Rig) :
    ∀ e, Decidable (s.KeepsCount lib noEval eval e)
  | .submitProofAsync _ => inferInstanceAs (Decidable (∀ solution ∈ s.posted.head?,
      if Misses noEval eval solution then s.Counts .failed
      else s.isConnected = true ∧ s.exchange.isAuthorized = true))
  | .response _ _ m => Option.decidableForallMem (p := fun id =>
    id ∈ s.awaiting → s.Accounted lib m) (answers? lib m)
  | .connected _ | .disconnected _ | .rotateConnect _ _ =>
    inferInstanceAs (Decidable (s.awaiting = []))
  | .farm _ | .submitProof _ | .disconnect => inferInstanceAs (Decidable True)

instance (lib : Library) (s : Rig) : ∀ e, Decidable (s.AnswersOnce lib e)
  | .response _ _ m => Option.decidableForallMem (p := fun id =>
    40 ≤ id → id ≤ s.exchange.solutionSubmittedMaxId → id ∈ s.awaiting) (answers? lib m)
  | .farm _ | .submitProof _ | .submitProofAsync _ | .connected _ | .disconnect
  | .disconnected _ | .rotateConnect _ _ => inferInstanceAs (Decidable True)

/-! ## One event -/

variable {s t : Rig}

theorem farm_account (minerIdx : ℕ) (accounting : SolutionAccountingEnum) (w : AccountedFarm) :
    (leaves (AccountedFarm.account minerIdx accounting) w).telemetry.farm =
      w.telemetry.farm.count accounting := by
  rw [← Telemetry.farm_accountSolution w.telemetry minerIdx accounting]
  unfold leaves AccountedFarm.account
  cases accountSolution minerIdx accounting w.telemetry <;> rfl

/-- A connection that ends, or a client that goes, takes the unanswered submissions along. -/
theorem conserved_of_awaiting_nil (h : Conserved s) (hhandled : t.handled = s.handled)
    (hfarm : t.works.telemetry.farm = s.works.telemetry.farm) (hawaiting : t.awaiting = []) :
    Conserved t ↔ s.awaiting = [] := by
  rw [Conserved] at h
  rw [Conserved, hhandled, hfarm, hawaiting, h, ← List.length_eq_zero_iff, List.length_nil]
  omega

/-- **A solution that is passed on** is sent, and awaits a response, exactly if the client is
connected and authorized. -/
theorem onSolutionFound_spec {now : TimePoint} {sol : Solution}
    (ht : s.onSolutionFound now sol = some t) :
    t.handled = s.handled ∧ t.works = s.works ∧
      t.awaiting.length = s.awaiting.length +
        if s.isConnected = true ∧ s.exchange.isAuthorized = true then 1 else 0 := by
  obtain ⟨hnot, rfl⟩ | ⟨hyes, pleas, sent, rfl⟩ := onSolutionFound_cases ht
  · rw [if_neg hnot]
    exact ⟨rfl, rfl, rfl⟩
  · rw [if_pos hyes]
    exact ⟨rfl, rfl, rfl⟩

theorem conserved_handleProof (h : Conserved s) {noEval : Bool}
    {eval : ℤ → H256 → BitVec 64 → Result} {now : TimePoint} {solution : Solution}
    (ht : s.handleProof noEval eval now solution = some t) :
    Conserved t ↔ if Misses noEval eval solution then s.Counts .failed
      else s.isConnected = true ∧ s.exchange.isAuthorized = true := by
  rw [Conserved] at h
  unfold handleProof at ht
  obtain ⟨hmisses, houtcome⟩ | ⟨hmisses, mixHash, houtcome⟩ :=
    submitProofAsync_cases noEval eval solution
  · rw [houtcome] at ht
    obtain rfl := Option.some.inj ht
    rw [if_pos hmisses, Counts, ← total_count_iff, Conserved]
    show s.handled + 1 = total (leaves (AccountedFarm.account solution.midx .failed)
      s.works).telemetry.farm + s.awaiting.length ↔ _
    rw [farm_account]
    omega
  · rw [houtcome] at ht
    obtain ⟨hhandled, hworks, hawaiting⟩ := onSolutionFound_spec ht
    rw [if_neg hmisses, Conserved, hhandled, hworks, hawaiting]
    show s.handled + 1 = total s.works.telemetry.farm + (s.awaiting.length +
      if s.isConnected = true ∧ s.exchange.isAuthorized = true then 1 else 0) ↔ _
    split_ifs with hready
    · exact iff_of_true (by omega) hready
    · exact iff_of_false (by omega) hready

/-- A message that is no response to a submission leaves the counters alone. -/
theorem farm_of_not_solutionReply {lib : Library} {m : Value} (now : TimePoint)
    (draw : BitVec 64) (hreply : solutionReply? lib s.exchange m = none) :
    (leaves (processResponse lib (AccountedFarm.handlers draw) now m)
      s.exchange).owner.telemetry.farm = s.works.telemetry.farm :=
  (leaves_other lib (AccountedFarm.handlers draw) now AccountedFarm.Grows.refl
    AccountedFarm.Grows.trans (AccountedFarm.grows_onConnected draw) hreply).2.farm

/-- The counters after a verdict. -/
def counted (a : SolutionAccountType) :
    Except Jsoncpp.Exception SolutionAccountingEnum → SolutionAccountType
  | .error _ => a
  | .ok kind => a.count kind

/-- A response to a submission counts as its verdict says. -/
theorem farm_of_solutionReply {lib : Library} {m : Value} {e : Essentials} (now : TimePoint)
    (draw : BitVec 64) (hreply : solutionReply? lib s.exchange m = some e) :
    (leaves (processResponse lib (AccountedFarm.handlers draw) now m)
      s.exchange).owner.telemetry.farm =
        counted s.works.telemetry.farm (verdict lib s.exchange.mode e) := by
  rw [leaves_solutionReply lib (AccountedFarm.handlers draw) now
    (AccountedFarm.handlers_accounts draw) hreply]
  cases verdict lib s.exchange.mode e with
  | error exception => rfl
  | ok kind => exact farm_account _ kind s.works

/-- **An answer to a submission** that awaits it. -/
theorem conserved_hear_of_mem (h : Conserved s) {lib : Library} {m : Value} {id : BitVec 32}
    (now : TimePoint) (draw : BitVec 64) (hid : answers? lib m = some id) (hmem : id ∈ s.awaiting) :
    Conserved (s.hear lib m
      (leaves (processResponse lib (AccountedFarm.handlers draw) now m) s.exchange)) ↔
      s.Accounted lib m := by
  have hlength := List.length_erase_of_mem hmem
  have hpos := List.length_pos_of_mem hmem
  rw [Conserved] at h
  have hhear : ∀ a : SolutionAccountType,
      (s.handled = total a + (s.awaiting.erase id).length ↔
        total a = total s.works.telemetry.farm + 1) := by
    intro a
    omega
  have hunanswered : unanswered lib m s.awaiting = s.awaiting.erase id := by
    rw [unanswered, hid]
  unfold Conserved hear works
  dsimp only
  rw [hunanswered, hhear]
  cases hreply : solutionReply? lib s.exchange m with
  | none =>
    rw [farm_of_not_solutionReply now draw hreply]
    refine iff_of_false (Nat.succ_ne_self _).symm ?_
    rintro ⟨e, he, -⟩
    rw [hreply] at he
    cases he
  | some e =>
    rw [farm_of_solutionReply now draw hreply, Accounted, hreply]
    cases hverdict : verdict lib s.exchange.mode e with
    | error exception =>
      refine iff_of_false (Nat.succ_ne_self _).symm ?_
      rintro ⟨e', he', kind, hkind, -⟩
      obtain rfl := Option.some.inj he'
      rw [hverdict] at hkind
      cases hkind
    | ok kind =>
      refine (total_count_iff _ kind).trans ⟨fun hcounts => ⟨e, rfl, kind, ?_, hcounts⟩, ?_⟩
      · rw [hverdict]
        rfl
      · rintro ⟨e', he', kind', hkind', hcounts⟩
        obtain rfl := Option.some.inj he'
        rw [hverdict] at hkind'
        obtain rfl := Option.some.inj hkind'
        exact hcounts

/-- A message that answers nothing that was asked. -/
theorem conserved_hear_of_not_mem (h : Conserved s) {lib : Library} {m : Value}
    (now : TimePoint) (draw : BitVec 64) (hpool : s.AnswersOnce lib (.response now draw m))
    (hnot : ∀ id ∈ answers? lib m, id ∉ s.awaiting) :
    Conserved (s.hear lib m
      (leaves (processResponse lib (AccountedFarm.handlers draw) now m) s.exchange)) := by
  have hreply : solutionReply? lib s.exchange m = none := by
    cases hreply : solutionReply? lib s.exchange m with
    | none => rfl
    | some e =>
      have hid := answers?_of_solutionReply lib hreply
      obtain ⟨-, -, -, hle, hmax⟩ := (solutionReply?_eq_some lib).mp hreply
      exact absurd (hpool e.id hid hle hmax) (hnot e.id hid)
  have hunanswered : unanswered lib m s.awaiting = s.awaiting := by
    unfold unanswered
    cases hid : answers? lib m with
    | none => rfl
    | some id => exact List.erase_of_not_mem (hnot id hid)
  unfold Conserved hear works
  dsimp only
  rw [hunanswered, farm_of_not_solutionReply now draw hreply]
  exact h

theorem conserved_processMessage (h : Conserved s) {lib : Library} {now : TimePoint}
    {draw : BitVec 64} {m : Value} (hpool : s.AnswersOnce lib (.response now draw m))
    (ht : s.processMessage lib now draw m = some t) :
    Conserved t ↔ ∀ id ∈ answers? lib m, id ∈ s.awaiting → s.Accounted lib m := by
  rw [processMessage_eq_some ht]
  by_cases hasked : ∃ id ∈ answers? lib m, id ∈ s.awaiting
  · obtain ⟨id, hid, hmem⟩ := hasked
    rw [conserved_hear_of_mem h now draw hid hmem]
    exact ⟨fun haccounted _ _ _ => haccounted, fun hall => hall id hid hmem⟩
  · have hnot : ∀ id ∈ answers? lib m, id ∉ s.awaiting := fun id hid hmem =>
      hasked ⟨id, hid, hmem⟩
    exact iff_of_true (conserved_hear_of_not_mem h now draw hpool hnot)
      fun id hid hmem => absurd hmem (hnot id hid)

/-- **The step lemma.** -/
theorem conserved_step {lib : Library} {ethash : EthashLibrary} {noEval : Bool}
    {eval : ℤ → H256 → BitVec 64 → Result} {e : Event} (h : Conserved s)
    (hpool : s.AnswersOnce lib e) (ht : s.step lib ethash noEval eval e = some t) :
    Conserved t ↔ s.KeepsCount lib noEval eval e := by
  cases e with
  | farm op =>
    obtain ⟨farm, hfarm, rfl⟩ := Option.map_eq_some_iff.mp ht
    exact iff_of_true h trivial
  | submitProof solution =>
    unfold step at ht
    dsimp only at ht
    split_ifs at ht
    obtain rfl := Option.some.inj ht
    exact iff_of_true h trivial
  | submitProofAsync now =>
    unfold step at ht
    dsimp only at ht
    rw [KeepsCount]
    cases hposted : s.posted with
    | nil =>
      rw [hposted] at ht
      cases ht
    | cons solution posted =>
      rw [hposted] at ht
      have hrest : Conserved { s with posted } := h
      refine (conserved_handleProof hrest ht).trans ⟨fun hkeeps p hp => ?_, fun hall => ?_⟩
      · obtain rfl := Option.some.inj hp
        exact hkeeps
      · exact hall solution rfl
  | response now draw m => exact conserved_processMessage h hpool ht
  | connected now =>
    obtain rfl := Option.some.inj ht
    exact conserved_of_awaiting_nil h rfl rfl rfl
  | disconnect =>
    obtain rfl := Option.some.inj ht
    exact iff_of_true h trivial
  | disconnected now | rotateConnect conn now =>
    obtain rfl := Option.some.inj ht
    exact conserved_of_awaiting_nil h rfl rfl rfl

/-! ## Every run -/

/-- **Solutions are conserved, exactly if no event loses one.**  For every rig, and every run
in which the pool answers each submission at most once. -/
theorem conserved_iff (lib : Library) (ethash : EthashLibrary) (noEval : Bool)
    (eval : ℤ → H256 → BitVec 64 → Result) (settings : FarmSettings)
    (devices : List DeviceSubscriptionTypeEnum) (minerRestart : Bool) (scrambler : BitVec 64)
    (conn : Uri) (now : TimePoint) (es : List Event)
    (hpool : StepsMeet (step lib ethash noEval eval) (AnswersOnce lib)
      (new (Farm.new settings devices minerRestart scrambler) conn now) es) :
    Along (step lib ethash noEval eval) Conserved
        (new (Farm.new settings devices minerRestart scrambler) conn now) es ↔
      StepsMeet (step lib ethash noEval eval) (KeepsCount lib noEval eval)
        (new (Farm.new settings devices minerRestart scrambler) conn now) es :=
  along_iff_stepsMeet_under (I := fun _ => True) (fun _ _ _ _ _ _ _ => trivial)
    (fun _ _ _ _ h hA ht => conserved_step h hA ht) es _ trivial rfl hpool

/-- A pool that accepts: one FPGA behind `stratum+tcp`, with a session, authorized, given a
job, and one solution.  Nothing is lost on the way. -/
theorem conserved_accepted :
    let job : WorkPackage := { header := FixedHash.ofBytes 32 [1], epoch := 0 }
    Along (step default default true fun _ _ _ => ⟨FixedHash.zero 32, FixedHash.zero 32⟩) Conserved
      (new (Farm.new {} [.fpga] true 0) { version := 0 } 0)
      [.connected 0,
        .response 0 0 (.object [("id".toList, .int 1), ("result".toList, .bool true)]),
        .response 0 0 (.object [("id".toList, .int 3), ("result".toList, .bool true)]),
        .farm (.setWork job 0), .submitProof ⟨0, FixedHash.zero 32, job, 0⟩, .submitProofAsync 0,
        .response 0 0 (.object [("id".toList, .int 40), ("result".toList, .bool true)])] :=
  (conserved_iff default default true _ {} [.fpga] true 0 { version := 0 } 0 _
    (by decide +kernel)).mpr (by decide +kernel)

/-- The same pool sends the job before it has answered `mining.authorize`.  The solution is
handled, and found nowhere after that. -/
theorem solution_lost_before_authorization :
    let job : WorkPackage := { header := FixedHash.ofBytes 32 [1], epoch := 0 }
    (run (step default default true fun _ _ _ => ⟨FixedHash.zero 32, FixedHash.zero 32⟩)
      (new (Farm.new {} [.fpga] true 0) { version := 0 } 0)
      [.connected 0,
        .response 0 0 (.object [("id".toList, .int 1), ("result".toList, .bool true)]),
        .farm (.setWork job 0), .submitProof ⟨0, FixedHash.zero 32, job, 0⟩,
        .submitProofAsync 0]).map
      (fun s => (s.handled, s.works.telemetry.farm, s.awaiting)) = some (1, {}, []) := by
  decide +kernel

end Rig
end Pool
end FpgaEthash
