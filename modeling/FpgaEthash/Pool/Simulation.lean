import FpgaEthash.Devcore.TargetFromDiff
import FpgaEthash.Pool.Manager
import FpgaEthash.Pool.Rig

/-!
# The simulation

With `-Z` or `-M` there is no pool.  `SimulateClient` takes its place: its thread makes up one
package for the block of the command line, and `submitSolution` evaluates what the farm sends and
calls the handlers of the manager at once.

`Simulation` is the client with the manager and the farm.  The miners, the thread of the client
and that of the I/O service come in any order.

* `accounts_exact`: in every run, each counter of each miner is the number of its solutions with
  that verdict, in the arithmetic of the counters.  No solution is lost while there is a
  connection, and none that has been evaluated by the farm is rejected.

The hash rates that the thread averages are left out.
-/

namespace FpgaEthash
namespace Pool

open Devcore Ethcore Runs Throwing

/-- What a simulation is given: the block of the command line, the connection
`simulation://localhost:0`, `noEval`, and the functions of the libraries. -/
structure Benchmark where
  block : BitVec 32
  conn : Uri
  noEval : Bool
  eval : ℤ → H256 → BitVec 64 → Result
  dbl : Doubles
  ethash : EthashLibrary
  findEpochNumber : H256 → ℤ

namespace Benchmark

/-- The package of `workLoop`, with the random seed and header.  What is thrown here ends the
loop, and `Worker` logs it. -/
def workPackage (b : Benchmark) (seed header : H256) : Option WorkPackage := do
  let target ← (getTargetFromDiff b.dbl 1 .add).toOption
  let boundary ← (FixedHash.ofString 32 target).toOption
  return { seed, header, block := b.block.toInt, boundary }

/-- The value of a solution. -/
def value (b : Benchmark) (s : Solution) : H256 := (b.eval s.work.epoch s.work.header s.nonce).value

/-- The value is not above the boundary, as integers. -/
def Meets (b : Benchmark) (s : Solution) : Prop :=
  (b.value s).toArith.toNat ≤ s.work.boundary.toArith.toNat

instance (b : Benchmark) (s : Solution) : Decidable (b.Meets s) :=
  inferInstanceAs (Decidable (_ ≤ _))

/-- `SimulateClient::submitSolution`. -/
def submitSolution (b : Benchmark) (solution : Solution) :
    EStateM StdException AccountedFarm Unit :=
  if (b.value solution).le solution.work.boundary then AccountedFarm.account solution.midx .accepted
  else AccountedFarm.account solution.midx .rejected

end Benchmark

/-- A solution that `submitProofAsync` has handled, and whether there was a connection. -/
structure Handled where
  solution : Solution
  connected : Bool
  deriving DecidableEq

/-- What is to be counted for it. -/
def Handled.verdict (b : Benchmark) (h : Handled) : Option SolutionAccountingEnum :=
  if b.Meets h.solution then if h.connected then some .accepted else none
  else if b.noEval then if h.connected then some .rejected else none
  else some .failed

/-- The farm, the manager and the client.  `hasConn` says that `m_conn` is set, `connected` that
`m_connected` and `m_session` are, and `launched` that the thread of the client has been started
and has not yet made up its package. -/
structure Simulation where
  works : AccountedFarm
  manager : PoolManager := {}
  hasConn : Bool := false
  connected : Bool := false
  launched : Bool := false
  posted : List Solution := []
  handled : List Handled := []

/-- What happens in a simulation. -/
inductive Simulation.Event where
  | farm (op : Farm.Operation)
  | rotateConnect
  | connect (draw : BitVec 64)
  | workLoop (seed header : H256) (draw : BitVec 64)
  | submitProof (solution : Solution)
  | submitProofAsync
  | disconnect (stopping : Bool)

namespace Simulation

variable (b : Benchmark)

/-- `connect`, with the handler of `onConnected`. -/
def connect (draw : BitVec 64) (s : Simulation) : Simulation :=
  { s with
    works := s.works.onConnected draw
    manager := s.manager.resetWork
    connected := true
    launched := true }

/-- What the handler of `onDisconnected` does to the farm. -/
def suspend (stopping : Bool) (farm : Farm) : Farm :=
  if stopping then if farm.isMining then farm.stop else farm else farm.pause

/-- `disconnect`, with the handler of `onDisconnected`. -/
def disconnect (stopping : Bool) (s : Simulation) : Simulation :=
  { s with
    works := s.works.withFarm (suspend stopping s.works.farm)
    manager := s.manager.dropWork
    hasConn := false
    connected := false }

/-- The handler of `onWorkReceived`, with the call of `setWork` at its end. -/
def receive (wp : WorkPackage) (draw : BitVec 64) (s : Simulation) : Option Simulation :=
  let handler := PoolManager.onWorkReceived b.findEpochNumber b.conn wp
  let manager := leaves handler s.manager
  if wp.isReal && (thrown handler s.manager).isNone then
    (s.works.farm.perform b.ethash (.setWork manager.currentWp draw)).map fun farm =>
      { s with manager, works := s.works.withFarm farm }
  else some { s with manager }

/-- The start of `workLoop`.  The handler asks `getConnection()` for the mode, unless the manager
has no epoch yet. -/
def workLoop (seed header : H256) (draw : BitVec 64) (s : Simulation) : Option Simulation :=
  let s := { s with launched := false }
  match b.workPackage seed header with
  | none => some s
  | some wp =>
    if wp.isReal ∧ s.manager.currentWp.epoch ≠ -1 ∧ s.hasConn = false then none
    else s.receive b wp draw

/-- `submitProofAsync`, with the handler of `onSolutionFound`. -/
def handleProof (solution : Solution) (s : Simulation) : Simulation :=
  let s : Simulation := { s with handled := s.handled ++ [⟨solution, s.connected⟩] }
  match Ethcore.submitProofAsync b.noEval b.eval solution with
  | .accounted minerIdx accounting =>
    { s with works := leaves (AccountedFarm.account minerIdx accounting) s.works }
  | .found sol =>
    if s.connected then { s with works := leaves (b.submitSolution sol) s.works } else s

/-- A miner of the farm has found something for a package that the farm was given. -/
def Mines (s : Simulation) (solution : Solution) : Prop :=
  s.works.farm.miners.any (·.index == solution.midx) = true ∧
    ∃ wp ∈ s.manager.farmWork, solution.work = { wp with startNonce := solution.work.startNonce }

instance (s : Simulation) (solution : Solution) : Decidable (s.Mines solution) :=
  inferInstanceAs (Decidable (_ ∧ _))

/-- One event.  A client that is replaced has made up its package, since its thread is joined. -/
def step (s : Simulation) : Event → Option Simulation
  | .farm (.setWork _ _) => none
  | .farm op =>
    (s.works.farm.perform b.ethash op).map fun farm => { s with works := s.works.withFarm farm }
  | .rotateConnect =>
    if s.connected = false ∧ s.launched = false then some { s with hasConn := true } else none
  | .connect draw => if s.hasConn ∧ s.connected = false then some (s.connect draw) else none
  | .workLoop seed header draw => if s.launched then s.workLoop b seed header draw else none
  | .submitProof solution =>
    if s.Mines solution then some { s with posted := s.posted ++ [solution] } else none
  | .submitProofAsync =>
    match s.posted with
    | [] => none
    | solution :: posted => some (({ s with posted } : Simulation).handleProof b solution)
  -- without a session this is a null pointer
  | .disconnect stopping => if s.connected then some (s.disconnect stopping) else none

/-- A simulation as `main` builds it. -/
def new (farm : Farm) : Simulation where
  works := { farm }

/-! ## What an event does -/

section Steps

variable {b} {s t : Simulation}

/-- The farm may have grown; the solutions are as they were. -/
structure Upkeep (s t : Simulation) : Prop where
  works : s.works.Grows t.works
  posted : t.posted = s.posted
  handled : t.handled = s.handled

theorem grows_suspend (stopping : Bool) (w : AccountedFarm) :
    w.Grows (w.withFarm (suspend stopping w.farm)) := by
  unfold suspend
  split_ifs
  · exact w.grows_perform default .stop rfl
  · exact w.grows_withFarm id (Nat.le_refl _)
  · exact w.grows_perform default .pause rfl

theorem upkeep_receive {wp : WorkPackage} {draw : BitVec 64} (h : s.receive b wp draw = some t) :
    Upkeep s t := by
  unfold receive at h
  dsimp only at h
  split_ifs at h
  · obtain ⟨farm, hfarm, rfl⟩ := Option.map_eq_some_iff.mp h
    exact ⟨s.works.grows_perform _ _ hfarm, rfl, rfl⟩
  · obtain rfl := Option.some.inj h
    exact ⟨.refl _, rfl, rfl⟩

theorem upkeep_workLoop {seed header : H256} {draw : BitVec 64}
    (h : s.workLoop b seed header draw = some t) : Upkeep s t := by
  unfold workLoop at h
  dsimp only at h
  cases hwp : b.workPackage seed header with
  | none =>
    rw [hwp] at h
    obtain rfl := Option.some.inj h
    exact ⟨.refl _, rfl, rfl⟩
  | some wp =>
    rw [hwp] at h
    dsimp only at h
    split_ifs at h
    have hupkeep := upkeep_receive h
    exact ⟨hupkeep.works, hupkeep.posted, hupkeep.handled⟩

/-- What an event can do to the solutions. -/
inductive StepCases (b : Benchmark) (s t : Simulation) : Prop
  | upkeep (hupkeep : Upkeep s t)
  | posted (solution : Solution) (hmines : s.Mines solution)
      (ht : t = { s with posted := s.posted ++ [solution] })
  | handled (solution : Solution) (posted : List Solution) (hs : s.posted = solution :: posted)
      (ht : t = ({ s with posted } : Simulation).handleProof b solution)

/-- **What an event does.** -/
theorem step_cases {e : Event} (h : s.step b e = some t) : StepCases b s t := by
  cases e with
  | farm op =>
    have hgrows : ∀ farm, s.works.farm.perform b.ethash op = some farm →
        Upkeep s { s with works := s.works.withFarm farm } := by
      intro farm hfarm
      exact ⟨s.works.grows_perform b.ethash op hfarm, rfl, rfl⟩
    cases op with
    | setWork newWp draw => cases h
    | start | stop | restart | pause | resume =>
      simp only [step] at h
      obtain ⟨farm, hfarm, rfl⟩ := Option.map_eq_some_iff.mp h
      exact .upkeep (hgrows farm hfarm)
  | rotateConnect =>
    obtain ⟨-, ⟨⟩⟩ := Option.ite_none_right_eq_some.mp h
    exact .upkeep ⟨.refl _, rfl, rfl⟩
  | connect draw =>
    obtain ⟨-, ⟨⟩⟩ := Option.ite_none_right_eq_some.mp h
    exact .upkeep ⟨s.works.grows_onConnected draw, rfl, rfl⟩
  | workLoop seed header draw =>
    exact .upkeep (upkeep_workLoop (Option.ite_none_right_eq_some.mp h).2)
  | submitProof solution =>
    obtain ⟨hmines, ⟨⟩⟩ := Option.ite_none_right_eq_some.mp h
    exact .posted solution hmines rfl
  | submitProofAsync =>
    simp only [step] at h
    cases hposted : s.posted with
    | nil =>
      rw [hposted] at h
      cases h
    | cons solution posted =>
      rw [hposted] at h
      exact .handled solution posted hposted (Option.some.inj h).symm
  | disconnect stopping =>
    obtain ⟨-, ⟨⟩⟩ := Option.ite_none_right_eq_some.mp h
    exact .upkeep ⟨grows_suspend stopping s.works, rfl, rfl⟩

/-! ## The verdicts -/

/-- The accounts after a verdict. -/
def settle (minerIdx : ℕ) (w : AccountedFarm) : Option SolutionAccountingEnum → AccountedFarm
  | none => w
  | some kind => leaves (AccountedFarm.account minerIdx kind) w

/-- The test of the client, on integers. -/
theorem submitSolution_eq (solution : Solution) :
    b.submitSolution solution = AccountedFarm.account solution.midx
      (if b.Meets solution then .accepted else .rejected) := by
  have hle : (b.value solution).le solution.work.boundary = true ↔ b.Meets solution :=
    FixedHash.le_iff ..
  unfold Benchmark.submitSolution
  by_cases hmeets : b.Meets solution
  · rw [if_pos (hle.mpr hmeets), if_pos hmeets]
  · rw [if_neg (mt hle.mp hmeets), if_neg hmeets]

/-- The test of the farm. -/
theorem misses_iff (solution : Solution) :
    Misses b.noEval b.eval solution ↔ b.noEval = false ∧ ¬ b.Meets solution := by
  unfold Misses Benchmark.Meets
  rw [FixedHash.gt_iff, not_le]
  rfl

/-- **The verdict is what is counted**, whether the farm finds it, or the client. -/
theorem works_handleProof (solution : Solution) :
    (s.handleProof b solution).works =
      settle solution.midx s.works (Handled.verdict b ⟨solution, s.connected⟩) := by
  unfold handleProof
  obtain ⟨hmiss, houtcome⟩ | ⟨hmiss, mixHash, houtcome⟩ :=
    submitProofAsync_cases b.noEval b.eval solution
  · obtain ⟨hnoEval, hmeets⟩ := (misses_iff solution).mp hmiss
    rw [houtcome]
    simp [Handled.verdict, hmeets, hnoEval, settle]
  · have hsame : b.Meets { solution with mixHash } ↔ b.Meets solution := Iff.rfl
    rw [misses_iff] at hmiss
    rw [houtcome]
    by_cases hmeets : b.Meets solution
    · cases s.connected <;> simp [Handled.verdict, hmeets, settle, submitSolution_eq, hsame]
    · have hnoEval : b.noEval = true := by simpa [hmeets] using hmiss
      cases s.connected <;>
        simp [Handled.verdict, hmeets, hnoEval, settle, submitSolution_eq, hsame]

theorem frame_handleProof (solution : Solution) :
    (s.handleProof b solution).handled = s.handled ++ [⟨solution, s.connected⟩] ∧
      (s.handleProof b solution).posted = s.posted := by
  unfold handleProof
  dsimp only
  split
  · exact ⟨rfl, rfl⟩
  · split_ifs <;> exact ⟨rfl, rfl⟩

/-! ## The accounts -/

/-- The account of a miner; without an entry, an empty one. -/
def accountOf (w : AccountedFarm) (i : ℕ) : SolutionAccountType := w.telemetry.miners[i]?.getD {}

theorem accountOf_grows {w w' : AccountedFarm} (h : w.Grows w') (i : ℕ) :
    accountOf w' i = accountOf w i := by
  obtain ⟨n, hn⟩ := h.miners
  unfold accountOf
  rw [hn, List.getElem?_append]
  split_ifs with hlt
  · rfl
  · rw [List.getElem?_eq_none (Nat.not_lt.mp hlt), List.getElem?_replicate]
    split_ifs <;> rfl

/-- A verdict is counted once for its miner. -/
theorem counter_accountOf_settle {w : AccountedFarm} {minerIdx : ℕ}
    (hlt : minerIdx < w.telemetry.miners.length) (o : Option SolutionAccountingEnum)
    (kind : SolutionAccountingEnum) (i : ℕ) :
    (accountOf (settle minerIdx w o) i).counter kind =
      (accountOf w i).counter kind + if minerIdx = i ∧ o = some kind then 1 else 0 := by
  cases o with
  | none => simp [settle]
  | some what =>
    simp only [settle, AccountedFarm.account_of_lt what hlt, accountOf, List.getElem?_modify,
      Option.some.injEq]
    by_cases hi : minerIdx = i
    · subst hi
      simp [List.getElem?_eq_getElem hlt, SolutionAccountType.counter_count]
    · simp [hi]

/-- And once for the farm. -/
theorem counter_farm_settle {w : AccountedFarm} {minerIdx : ℕ}
    (hlt : minerIdx < w.telemetry.miners.length) (o : Option SolutionAccountingEnum)
    (kind : SolutionAccountingEnum) :
    (settle minerIdx w o).telemetry.farm.counter kind =
      w.telemetry.farm.counter kind + if o = some kind then 1 else 0 := by
  cases o with
  | none => simp [settle]
  | some what =>
    simp only [settle, AccountedFarm.account_of_lt what hlt, Option.some.injEq]
    exact SolutionAccountType.counter_count ..

/-- What a verdict leaves alone. -/
theorem frame_settle {w : AccountedFarm} {minerIdx : ℕ}
    (hlt : minerIdx < w.telemetry.miners.length) (o : Option SolutionAccountingEnum) :
    (settle minerIdx w o).farm = w.farm ∧ (settle minerIdx w o).threw = w.threw ∧
      (settle minerIdx w o).telemetry.miners.length = w.telemetry.miners.length := by
  cases o with
  | none => exact ⟨rfl, rfl, rfl⟩
  | some what =>
    simp only [settle, AccountedFarm.account_of_lt what hlt]
    exact ⟨trivial, trivial, List.length_modify ..⟩

end Steps

/-- The counters are the numbers of the verdicts, and no account was missing. -/
structure Exact (s : Simulation) : Prop where
  threw : s.works.threw = false
  farm : ∀ kind, s.works.telemetry.farm.counter kind =
    BitVec.ofNat 32 (s.handled.countP fun h => h.verdict b = some kind)
  miners : ∀ kind i, (accountOf s.works i).counter kind =
    BitVec.ofNat 32 (s.handled.countP fun h => h.solution.midx = i ∧ h.verdict b = some kind)

/-- What every event keeps. -/
structure Sound (s : Simulation) : Prop where
  tied : s.works.Tied
  posted : ∀ solution ∈ s.posted, solution.midx < s.works.telemetry.miners.length
  books : Exact b s

section Invariant

variable {b} {s t : Simulation}

theorem Exact.upkeep (h : Exact b s) (hupkeep : Upkeep s t) : Exact b t where
  threw := hupkeep.works.threw.trans h.threw
  farm := by
    intro kind
    rw [hupkeep.works.farm, hupkeep.handled, h.farm]
  miners := by
    intro kind i
    rw [accountOf_grows hupkeep.works, hupkeep.handled, h.miners]

theorem Sound.upkeep (h : Sound b s) (hupkeep : Upkeep s t) : Sound b t where
  tied := hupkeep.works.tied h.tied
  posted := by
    intro solution hmem
    rw [hupkeep.posted] at hmem
    obtain ⟨n, hn⟩ := hupkeep.works.miners
    rw [hn, List.length_append]
    exact Nat.lt_add_right _ (h.posted solution hmem)
  books := h.books.upkeep hupkeep

theorem Sound.submitProof (h : Sound b s) {solution : Solution} (hmines : s.Mines solution) :
    Sound b { s with posted := s.posted ++ [solution] } := by
  refine ⟨h.tied, ?_, ⟨h.books.threw, h.books.farm, h.books.miners⟩⟩
  intro p hp
  obtain hp | hp := List.mem_append.mp hp
  · exact h.posted p hp
  · obtain rfl := List.mem_singleton.mp hp
    obtain ⟨miner, hmem, hindex⟩ := List.any_eq_true.mp hmines.1
    rw [← eq_of_beq hindex]
    exact Nat.lt_of_lt_of_eq (h.tied.indexed.index_lt hmem) h.tied.length.symm

/-- One more solution is handled. -/
theorem Exact.handleProof (h : Exact b s) {solution : Solution}
    (hlt : solution.midx < s.works.telemetry.miners.length) :
    Exact b (s.handleProof b solution) := by
  obtain ⟨hhandled, -⟩ := frame_handleProof (b := b) (s := s) solution
  have hworks := works_handleProof (b := b) (s := s) solution
  refine ⟨?_, ?_, ?_⟩
  · rw [hworks, (frame_settle hlt _).2.1]
    exact h.threw
  · intro kind
    rw [hworks, counter_farm_settle hlt, h.farm, hhandled, List.countP_append, BitVec.ofNat_add]
    congr 1
    split_ifs with hkind <;> simp [hkind]
  · intro kind i
    rw [hworks, counter_accountOf_settle hlt, h.miners, hhandled, List.countP_append,
      BitVec.ofNat_add]
    congr 1
    split_ifs with hkind <;> simp [hkind]

theorem Sound.handleProof (h : Sound b s) {solution : Solution}
    (hlt : solution.midx < s.works.telemetry.miners.length) :
    Sound b (s.handleProof b solution) := by
  obtain ⟨-, hposted⟩ := frame_handleProof (b := b) (s := s) solution
  obtain ⟨hfarm, -, hlength⟩ := frame_settle hlt (Handled.verdict b ⟨solution, s.connected⟩)
  rw [← works_handleProof] at hfarm hlength
  refine ⟨⟨?_, ?_⟩, ?_, h.books.handleProof hlt⟩
  · rw [hlength, hfarm]
    exact h.tied.length
  · rw [hfarm]
    exact h.tied.indexed
  · intro p hp
    rw [hposted] at hp
    rw [hlength]
    exact h.posted p hp

/-- **The step lemma.** -/
theorem Sound.step (h : Sound b s) {e : Event} (ht : s.step b e = some t) : Sound b t := by
  cases step_cases ht with
  | upkeep hupkeep => exact h.upkeep hupkeep
  | posted solution hmines ht => exact ht ▸ h.submitProof hmines
  | handled solution posted hs ht =>
    subst ht
    have hrest : Sound b { s with posted } := by
      refine ⟨h.tied, ?_, ⟨h.books.threw, h.books.farm, h.books.miners⟩⟩
      intro p hp
      exact h.posted p (hs ▸ List.mem_cons_of_mem solution hp)
    exact hrest.handleProof (h.posted solution (hs ▸ List.mem_cons_self))

/-- Where the farm evaluates, no verdict is a rejection. -/
theorem verdict_ne_rejected (hnoEval : b.noEval = false) (h : Handled) :
    h.verdict b ≠ some .rejected := by
  unfold Handled.verdict
  simp only [hnoEval, Bool.false_eq_true, if_false]
  split_ifs <;> simp

theorem Exact.not_rejected (h : Exact b s) (hnoEval : b.noEval = false) :
    s.works.telemetry.farm.rejected = 0 ∧ ∀ i, (accountOf s.works i).rejected = 0 := by
  have hnone := verdict_ne_rejected hnoEval
  constructor
  · refine (h.farm .rejected).trans ?_
    simp [hnone]
  · intro i
    refine (h.miners .rejected i).trans ?_
    simp [hnone]

end Invariant

theorem sound_new (settings : FarmSettings) (devices : List DeviceSubscriptionTypeEnum)
    (minerRestart : Bool) (scrambler : BitVec 64) :
    Sound b (new (Farm.new settings devices minerRestart scrambler)) where
  tied := ⟨rfl, Farm.indexed_new settings devices minerRestart scrambler⟩
  posted _ hmem := by cases hmem
  books := ⟨rfl, SolutionAccountType.counter_default,
    fun kind _ => SolutionAccountType.counter_default kind⟩

/-- **The accounts are exact**, in every run: each counter of the farm and of each miner is the
number of the solutions with that verdict.  If the farm evaluates, then nothing is rejected. -/
theorem accounts_exact (settings : FarmSettings) (devices : List DeviceSubscriptionTypeEnum)
    (minerRestart : Bool) (scrambler : BitVec 64) (es : List Event) :
    Along (step b) (fun s => Exact b s ∧ (b.noEval = false →
        s.works.telemetry.farm.rejected = 0 ∧ ∀ i, (accountOf s.works i).rejected = 0))
      (new (Farm.new settings devices minerRestart scrambler)) es :=
  (along_of_invariant (fun _ _ _ h ht => h.step ht) es _
    (sound_new b settings devices minerRestart scrambler)).mono
      fun _ h => ⟨h.books, h.books.not_rejected⟩

end Simulation
end Pool
end FpgaEthash
