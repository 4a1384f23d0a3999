import FpgaEthash.Computation.Runs
import Mathlib.Algebra.Group.Nat.Defs
import Mathlib.Data.Fintype.Defs
import Mathlib.Logic.Function.Basic

/-!
# Loading the DAG one miner after another

`Miner::initEpoch`, run by the threads of `n` miners at once.  The static members
`s_dagLoadMode`, `s_dagLoadIndex` and `s_minersCount` are shared; every test of the index
and every update of it is a step, and the steps of the miners come in any order.

In sequential mode a miner waits while `s_dagLoadIndex < m_index`.  In one round, in which
every miner calls once, the index is the number of miners that have loaded, and just one
miner has an index that is not above it and has not loaded yet (`Round`).

## The second round

The test does not ask for the miner's own turn.  Once the index has moved on, the first
miner passes again at once, while the next one is loading.  So two miners and two epochs
are enough for two loads at a time, and with fewer of either there is one.  Rounds that do
not overlap are in order, however many they are (`along_exclusive_of_lockstep`).
-/

namespace FpgaEthash
namespace Ethcore

open Runs

/-! ## The steps -/

/-- The static members of `Miner` that the load of the DAG goes by. -/
structure DagStatics where
  dagLoadMode : BitVec 32
  dagLoadIndex : BitVec 32
  minersCount : BitVec 32
  deriving DecidableEq, Repr

/-- `DAG_LOAD_MODE_SEQUENTIAL`. -/
def dagLoadModeSequential : BitVec 32 := 1

/-- `setDagLoadInfo`. -/
def setDagLoadInfo (mode devicecount : BitVec 32) : DagStatics := ⟨mode, 0, devicecount⟩

/-- Where the thread of a miner is. -/
inductive LoadPhase where
  /-- Outside of `initEpoch`. -/
  | idle
  /-- Before a test of `s_dagLoadIndex < m_index`. -/
  | waiting
  /-- Behind the loop, before `shouldStop()`. -/
  | entered
  /-- In `initEpoch_internal`. -/
  | loading
  /-- Before `s_dagLoadIndex = m_index + 1`. -/
  | loaded (result : Bool)
  /-- Before the test of `s_minersCount == s_dagLoadIndex`. -/
  | advanced (result : Bool)
  /-- Before `s_dagLoadIndex = 0`. -/
  | wrapping (result : Bool)
  /-- `initEpoch` returned false, and the thread has left its loop. -/
  | ended
  deriving DecidableEq, Repr

/-- What comes after `return result`. -/
def LoadPhase.afterReturn (result : Bool) : LoadPhase := if result then .idle else .ended

/-- The statics, the threads, and how often each miner has called `initEpoch`. -/
structure DagLoad (n : ℕ) where
  statics : DagStatics
  phase : Fin n → LoadPhase
  calls : Fin n → ℕ

/-- A step of one of the threads. -/
inductive LoadStep (n : ℕ) where
  | call (m : Fin n)
  | test (m : Fin n)
  | checkStop (m : Fin n) (stopping : Bool)
  | finish (m : Fin n) (result : Bool)
  | advance (m : Fin n)
  | wrapTest (m : Fin n)
  | reset (m : Fin n)
  deriving DecidableEq, Repr

/-- `m_index`. -/
def loadIndex {n : ℕ} (m : Fin n) : BitVec 32 := BitVec.ofNat 32 m

namespace DagLoad

variable {n : ℕ}

/-- The miners after `Farm::start`. -/
def start (n : ℕ) (mode : BitVec 32) : DagLoad n where
  statics := setDagLoadInfo mode (BitVec.ofNat 32 n)
  phase := fun _ => .idle
  calls := fun _ => 0

/-- The thread of `m` goes on to `phase`. -/
def move (s : DagLoad n) (m : Fin n) (phase : LoadPhase) : DagLoad n :=
  { s with phase := Function.update s.phase m phase }

/-- One more call of `initEpoch` by `m`. -/
def countCall (s : DagLoad n) (m : Fin n) : DagLoad n :=
  { s with calls := Function.update s.calls m (s.calls m + 1) }

/-- `s_dagLoadIndex = index`. -/
def setIndex (s : DagLoad n) (index : BitVec 32) : DagLoad n :=
  { s with statics := { s.statics with dagLoadIndex := index } }

/-- One step; `none` if the thread is somewhere else. -/
def step (s : DagLoad n) : LoadStep n → Option (DagLoad n)
  | .call m =>
    if s.phase m = .idle then
      some ((s.countCall m).move m
        (if s.statics.dagLoadMode = dagLoadModeSequential then .waiting else .loading))
    else none
  | .test m =>
    if s.phase m = .waiting then
      -- while (s_dagLoadIndex < m_index)
      some (if s.statics.dagLoadIndex < loadIndex m then s else s.move m .entered)
    else none
  | .checkStop m stopping =>
    if s.phase m = .entered then some (s.move m (if stopping then .ended else .loading))
    else none
  | .finish m result => if s.phase m = .loading then some (s.move m (.loaded result)) else none
  | .advance m =>
    match s.phase m with
    | .loaded result =>
      some (if s.statics.dagLoadMode = dagLoadModeSequential then
        (s.setIndex (loadIndex m + 1)).move m (.advanced result)
      else s.move m (.afterReturn result))
    | _ => none
  | .wrapTest m =>
    match s.phase m with
    | .advanced result =>
      -- the index is read again: it need not be the one that was written
      some (s.move m (if s.statics.minersCount = s.statics.dagLoadIndex then .wrapping result
        else .afterReturn result))
    | _ => none
  | .reset m =>
    match s.phase m with
    | .wrapping result => some ((s.setIndex 0).move m (.afterReturn result))
    | _ => none

/-- At most one miner is in `initEpoch_internal`. -/
def Exclusive (s : DagLoad n) : Prop :=
  ∀ m m', s.phase m = .loading → s.phase m' = .loading → m = m'

instance : DecidablePred (Exclusive (n := n)) := fun s =>
  inferInstanceAs (Decidable (∀ m m', s.phase m = .loading → s.phase m' = .loading → m = m'))

section Frame

variable (s : DagLoad n) (m : Fin n) (phase : LoadPhase) (index : BitVec 32)

@[simp] theorem move_phase_self : (s.move m phase).phase m = phase := Function.update_self ..

@[simp] theorem move_phase_of_ne {m m' : Fin n} (h : m' ≠ m) :
    (s.move m phase).phase m' = s.phase m' := Function.update_of_ne h ..

@[simp] theorem move_statics : (s.move m phase).statics = s.statics := rfl

@[simp] theorem move_calls : (s.move m phase).calls = s.calls := rfl

@[simp] theorem setIndex_phase : (s.setIndex index).phase = s.phase := rfl

@[simp] theorem setIndex_calls : (s.setIndex index).calls = s.calls := rfl

@[simp] theorem countCall_calls_self : (s.countCall m).calls m = s.calls m + 1 :=
  Function.update_self ..

@[simp] theorem countCall_calls_of_ne {m m' : Fin n} (h : m' ≠ m) :
    (s.countCall m).calls m' = s.calls m' := Function.update_of_ne h ..

@[simp] theorem countCall_phase : (s.countCall m).phase = s.phase := rfl

end Frame

/-! ## One round -/

/-- Where a miner may be in round `r`, when `p` miners have advanced the index in it. -/
def Fits (n r p m calls : ℕ) : LoadPhase → Prop
  | .idle => calls = r ∧ p ≤ m ∨ calls = r + 1 ∧ m < p
  | .waiting => calls = r + 1 ∧ p ≤ m
  | .entered => calls = r + 1 ∧ m = p
  | .loading => calls = r + 1 ∧ m = p
  | .loaded _ => calls = r + 1 ∧ m = p
  | .advanced _ => calls = r + 1 ∧ m < p
  | .wrapping _ => calls = r + 1 ∧ m < p ∧ p = n
  | .ended => calls = r + 1

/-- A miner inside `initEpoch` has made the call of this round. -/
theorem Fits.calls_eq {n r p m calls : ℕ} {phase : LoadPhase} (h : Fits n r p m calls phase)
    (hne : phase ≠ .idle) : calls = r + 1 := by
  cases phase with
  | idle => exact absurd rfl hne
  | ended => exact h
  | waiting | entered | loading => exact h.1
  | loaded _ | advanced _ | wrapping _ => exact h.1

/-- When the turn is handed on, nothing changes for a miner whose turn it was not. -/
theorem Fits.advance {n r p m calls : ℕ} {phase : LoadPhase} (h : Fits n r p m calls phase)
    (hne : m ≠ p) (hp : p < n) : Fits n r (p + 1) m calls phase := by
  cases phase with
  | ended => exact h
  | entered | loading | loaded _ => exact absurd h.2 hne
  | idle | waiting | advanced _ | wrapping _ =>
    simp only [Fits] at h ⊢
    omega

/-- **One round.**  The index is the number of miners that have advanced it, until it is
set back behind the last one. -/
structure Round (s : DagLoad n) (r p : ℕ) : Prop where
  sequential : s.statics.dagLoadMode = dagLoadModeSequential
  count : s.statics.minersCount = BitVec.ofNat 32 n
  le : p ≤ n
  fits : ∀ m : Fin n, Fits n r p m (s.calls m) (s.phase m)
  index : p < n → s.statics.dagLoadIndex = BitVec.ofNat 32 p
  last : p = n → s.statics.dagLoadIndex = BitVec.ofNat 32 n ∨ s.statics.dagLoadIndex = 0
  back : p = n → ∀ m : Fin n, m.val + 1 = n → s.phase m = .idle → s.statics.dagLoadIndex = 0

theorem round_start (n : ℕ) : Round (start n dagLoadModeSequential) 0 0 where
  sequential := rfl
  count := rfl
  le := Nat.zero_le n
  fits m := Or.inl ⟨rfl, Nat.zero_le _⟩
  index _ := rfl
  last h := Or.inl (by rw [← h]; rfl)
  back h m _ _ := absurd m.isLt (by omega)

theorem Round.fits_of_phase {s : DagLoad n} {r p : ℕ} (h : Round s r p) {m : Fin n}
    {phase : LoadPhase} (hphase : s.phase m = phase) : Fits n r p m (s.calls m) phase :=
  hphase ▸ h.fits m

/-- Only the miner whose turn it is loads. -/
theorem Round.exclusive {s : DagLoad n} {r p : ℕ} (h : Round s r p) : s.Exclusive := by
  intro m m' hm hm'
  exact Fin.ext ((h.fits_of_phase hm).2.trans (h.fits_of_phase hm').2.symm)

theorem exclusive_of_round (s : DagLoad n) (h : ∃ r p, Round s r p) : s.Exclusive := by
  obtain ⟨r, p, h⟩ := h
  exact h.exclusive

section Steps

variable {s : DagLoad n} {r p : ℕ} {m : Fin n}

/-- A thread goes on, and the index stays. -/
theorem Round.move (h : Round s r p) {phase : LoadPhase}
    (hfits : Fits n r p m (s.calls m) phase)
    (hback : p = n → m.val + 1 = n → phase = .idle → s.statics.dagLoadIndex = 0) :
    Round (s.move m phase) r p := by
  refine ⟨h.sequential, h.count, h.le, fun m' => ?_, h.index, h.last, fun hp m' hlast hidle => ?_⟩
  · by_cases heq : m' = m
    · subst heq
      rw [move_phase_self]
      exact hfits
    · rw [move_phase_of_ne s phase heq]
      exact h.fits m'
  · by_cases heq : m' = m
    · subst heq
      rw [move_phase_self] at hidle
      exact hback hp hlast hidle
    · rw [move_phase_of_ne s phase heq] at hidle
      exact h.back hp m' hlast hidle

theorem fits_afterReturn {result : Bool} {calls : ℕ} (hcalls : calls = r + 1) (hm : m.val < p) :
    Fits n r p m calls (.afterReturn result) := by
  cases result with
  | false => exact hcalls
  | true => exact Or.inr ⟨hcalls, hm⟩

/-- The miner whose turn it is hands the turn on. -/
theorem Round.advance (h : Round s r p) {result : Bool} (hphase : s.phase m = .loaded result) :
    Round ((s.setIndex (loadIndex m + 1)).move m (.advanced result)) r (p + 1) := by
  obtain ⟨hcalls, hmp⟩ := h.fits_of_phase hphase
  have hlt := m.isLt
  have hindex : loadIndex m + 1 = BitVec.ofNat 32 (p + 1) := by
    rw [loadIndex, hmp, BitVec.ofNat_add]
    rfl
  refine ⟨h.sequential, h.count, by omega, fun m' => ?_, fun _ => hindex, fun hp => Or.inl ?_,
    fun hp m' hlast hidle => ?_⟩
  · by_cases heq : m' = m
    · subst heq
      rw [move_phase_self]
      exact ⟨hcalls, by omega⟩
    · -- the others were before their turn, or behind it
      have hne : m'.val ≠ p := fun hv => heq (Fin.ext (hv.trans hmp.symm))
      have hfits := h.fits m'
      rw [move_phase_of_ne _ _ heq, move_calls, setIndex_calls, setIndex_phase]
      exact hfits.advance hne (by omega)
  · show loadIndex m + 1 = BitVec.ofNat 32 n
    rw [hindex, hp]
  · have heq : m' = m := Fin.ext (by omega)
    rw [heq, move_phase_self] at hidle
    cases hidle

/-- A miner that has not called in this round does, and waits. -/
theorem Round.call (h : Round s r p) (hcalls : s.calls m = r) (hm : p ≤ m.val) :
    Round ((s.countCall m).move m .waiting) r p := by
  refine ⟨h.sequential, h.count, h.le, fun m' => ?_, h.index, h.last, fun hp => ?_⟩
  · by_cases heq : m' = m
    · subst heq
      rw [move_phase_self, move_calls, countCall_calls_self, hcalls]
      exact ⟨rfl, hm⟩
    · rw [move_phase_of_ne _ _ heq, move_calls, countCall_calls_of_ne s heq, countCall_phase]
      exact h.fits m'
  · exact absurd m.isLt (by omega)

theorem Round.calls_le (h : Round s r p) (m : Fin n) : s.calls m ≤ r + 1 := by
  by_cases hidle : s.phase m = .idle
  · have hfits := h.fits_of_phase hidle
    simp only [Fits] at hfits
    omega
  · exact ((h.fits m).calls_eq hidle).le

/-- When every miner has returned from its call, the round is over, and the next one
begins where the first did. -/
theorem Round.next (h : Round s r p) (m : Fin n)
    (hall : ∀ m', s.calls m' = r + 1 ∧ s.phase m' = .idle) : Round s (r + 1) 0 := by
  have hpos : 0 < n := Nat.lt_of_le_of_lt (Nat.zero_le _) m.isLt
  have hlastMiner := h.fits ⟨n - 1, by omega⟩
  obtain ⟨hcalls, hidle⟩ := hall ⟨n - 1, by omega⟩
  rw [hidle, hcalls] at hlastMiner
  have hp : p = n := by
    have hle := h.le
    simp only [Fits] at hlastMiner
    omega
  have hzero := h.back hp ⟨n - 1, by omega⟩ (Nat.sub_add_cancel hpos) hidle
  refine ⟨h.sequential, h.count, Nat.zero_le n, fun m' => ?_, fun _ => hzero, fun h0 => ?_,
    fun h0 => ?_⟩
  · rw [(hall m').2]
    exact Or.inl ⟨(hall m').1, Nat.zero_le _⟩
  · omega
  · omega

/-- The index lets through no miner but the one whose turn it is. -/
theorem Round.index_lt_iff (h : Round s r p) (hn : n ≤ 2 ^ 32) (hm : p ≤ m.val) :
    s.statics.dagLoadIndex < loadIndex m ↔ p < m.val := by
  have hlt := m.isLt
  rw [h.index (by omega), loadIndex, BitVec.lt_def, BitVec.toNat_ofNat, BitVec.toNat_ofNat,
    Nat.mod_eq_of_lt (by omega), Nat.mod_eq_of_lt (by omega)]

/-- Before the last miner has advanced it, the index is not the number of miners. -/
theorem Round.eq_of_count (h : Round s r p) (hn : n ≤ 2 ^ 32) (hm : m.val < p)
    (hcount : s.statics.minersCount = s.statics.dagLoadIndex) : p = n := by
  by_contra hne
  have hle := h.le
  have hnat := congrArg BitVec.toNat hcount
  rw [h.count, h.index (by omega), BitVec.toNat_ofNat, BitVec.toNat_ofNat] at hnat
  omega

end Steps

/-! ## Round after round -/

/-- A miner calls when every miner has returned from as many calls as it has made. -/
def Lockstep (s : DagLoad n) : LoadStep n → Prop
  | .call m => ∀ m', s.calls m < s.calls m' ∨ s.calls m' = s.calls m ∧ s.phase m' = .idle
  | _ => True

section Run

variable {s s' : DagLoad n} {r p : ℕ}

/-- **The step lemma.** -/
theorem Round.step (h : Round s r p) (hn : n ≤ 2 ^ 32) {e : LoadStep n} (he : Lockstep s e)
    (hstep : s.step e = some s') : ∃ r p, Round s' r p := by
  cases e with
  | call m =>
    rw [DagLoad.step] at hstep
    split_ifs at hstep with hidle hmode
    · obtain rfl := Option.some.inj hstep
      rcases h.fits_of_phase hidle with ⟨hcalls, hm⟩ | ⟨hcalls, hm⟩
      · exact ⟨r, p, h.call hcalls hm⟩
      · -- it is ahead of nobody: the round is over
        have hnext := h.next m fun m' => by
          rcases he m' with hlt | ⟨hm', hidle'⟩
          · have hle := h.calls_le m'
            omega
          · exact ⟨hm'.trans hcalls, hidle'⟩
        exact ⟨r + 1, 0, hnext.call hcalls (Nat.zero_le _)⟩
    · exact absurd h.sequential hmode
  | test m =>
    rw [DagLoad.step] at hstep
    split_ifs at hstep with hwaiting hindex
    · obtain rfl := Option.some.inj hstep
      exact ⟨r, p, h⟩
    · obtain rfl := Option.some.inj hstep
      obtain ⟨hcalls, hm⟩ := h.fits_of_phase hwaiting
      have hturn : m.val = p := by
        rw [h.index_lt_iff hn hm] at hindex
        omega
      exact ⟨r, p, h.move ⟨hcalls, hturn⟩ fun _ _ hidle => by cases hidle⟩
  | checkStop m stopping =>
    rw [DagLoad.step] at hstep
    split_ifs at hstep with hentered hstop
    · obtain rfl := Option.some.inj hstep
      exact ⟨r, p, h.move (h.fits_of_phase hentered).1 fun _ _ hidle => by cases hidle⟩
    · obtain rfl := Option.some.inj hstep
      have hfits := h.fits_of_phase hentered
      exact ⟨r, p, h.move hfits fun _ _ hidle => by cases hidle⟩
  | finish m result =>
    obtain ⟨hloading, ⟨⟩⟩ := Option.ite_none_right_eq_some.mp hstep
    have hfits := h.fits_of_phase hloading
    exact ⟨r, p, h.move hfits fun _ _ hidle => by cases hidle⟩
  | advance m =>
    rw [DagLoad.step] at hstep
    split at hstep
    next result hloaded =>
      rw [if_pos h.sequential, Option.some_inj] at hstep
      rw [← hstep]
      exact ⟨r, p + 1, h.advance hloaded⟩
    next => cases hstep
  | wrapTest m =>
    rw [DagLoad.step] at hstep
    split at hstep
    next result hadvanced =>
      obtain rfl := Option.some.inj hstep
      obtain ⟨hcalls, hm⟩ := h.fits_of_phase hadvanced
      by_cases hcount : s.statics.minersCount = s.statics.dagLoadIndex
      · rw [if_pos hcount]
        exact ⟨r, p, h.move ⟨hcalls, hm, h.eq_of_count hn hm hcount⟩
          fun _ _ hidle => by cases hidle⟩
      · rw [if_neg hcount]
        -- somebody else has set the index back
        refine ⟨r, p, h.move (fits_afterReturn hcalls hm) fun hp _ _ => ?_⟩
        exact (h.last hp).resolve_left fun hlast => hcount (h.count.trans hlast.symm)
    next => cases hstep
  | reset m =>
    rw [DagLoad.step] at hstep
    split at hstep
    next result hwrapping =>
      obtain rfl := Option.some.inj hstep
      obtain ⟨hcalls, hm, hp⟩ := h.fits_of_phase hwrapping
      have hzero : Round (s.setIndex 0) r p :=
        ⟨h.sequential, h.count, h.le, h.fits, fun hlt => absurd hp (by omega),
          fun _ => Or.inr rfl, fun _ _ _ _ => rfl⟩
      exact ⟨r, p, hzero.move (fits_afterReturn hcalls hm) fun _ _ _ => rfl⟩
    next => cases hstep

/-- **Rounds that do not overlap.**  Up to `2 ^ 32` miners that call in lockstep load one
after another, over any number of epochs. -/
theorem along_exclusive_of_lockstep (hn : n ≤ 2 ^ 32) (es : List (LoadStep n))
    (hes : StepsMeet step Lockstep (start n dagLoadModeSequential) es) :
    Along step Exclusive (start n dagLoadModeSequential) es := by
  refine Along.mono exclusive_of_round ?_
  refine along_of_stepsMeet (fun s e s' hs he hstep => ?_) es _ ⟨0, 0, round_start n⟩ hes
  obtain ⟨r, p, h⟩ := hs
  exact h.step hn he hstep

end Run

/-! ## How many epochs -/

/-- No miner calls for more than `epochs` epochs. -/
def WithinEpochs (epochs : ℕ) (s : DagLoad n) : LoadStep n → Prop
  | .call m => s.calls m < epochs
  | _ => True

instance (epochs : ℕ) (s : DagLoad n) (e : LoadStep n) : Decidable (WithinEpochs epochs s e) := by
  cases e <;> unfold WithinEpochs <;> infer_instance

/-- A miner that has not called yet is outside. -/
theorem Round.idle_of_calls {s : DagLoad n} {r p : ℕ} (h : Round s r p) {m : Fin n}
    (hcalls : s.calls m = 0) : s.phase m = .idle := by
  by_contra hne
  have hinside := (h.fits m).calls_eq hne
  omega

/-- With one epoch there is nothing to be ahead of. -/
theorem Round.lockstep {s : DagLoad n} {r p : ℕ} (h : Round s r p) {e : LoadStep n}
    (he : WithinEpochs 1 s e) : Lockstep s e := by
  cases e with
  | call m =>
    intro m'
    have hzero : s.calls m = 0 := Nat.lt_one_iff.mp he
    rcases Nat.eq_zero_or_pos (s.calls m') with hcalls | hpos
    · exact Or.inr ⟨hcalls.trans hzero.symm, h.idle_of_calls hcalls⟩
    · exact Or.inl (hzero ▸ hpos)
  | test m | checkStop m stopping | finish m result | advance m | wrapTest m | reset m => trivial

/-- **One epoch.** -/
theorem along_exclusive_of_one (hn : n ≤ 2 ^ 32) (es : List (LoadStep n))
    (hes : StepsMeet step (WithinEpochs 1) (start n dagLoadModeSequential) es) :
    Along step Exclusive (start n dagLoadModeSequential) es := by
  refine Along.mono exclusive_of_round ?_
  refine along_of_stepsMeet (fun s e s' hs he hstep => ?_) es _ ⟨0, 0, round_start n⟩ hes
  obtain ⟨r, p, h⟩ := hs
  exact h.step hn (h.lockstep he) hstep

/-- Without an epoch nobody calls. -/
theorem along_exclusive_of_idle (es : List (LoadStep n))
    (hes : StepsMeet step (WithinEpochs 0) (start n dagLoadModeSequential) es) :
    Along step Exclusive (start n dagLoadModeSequential) es := by
  refine Along.mono (P := fun s => ∀ m, s.phase m = .idle) (fun s hs m _ hm _ => ?_) ?_
  · rw [hs m] at hm
    cases hm
  · refine along_of_stepsMeet (fun s e s' hs he hstep => ?_) es _ (fun _ => rfl) hes
    cases e with
    | call m => exact absurd he (Nat.not_lt_zero _)
    | test m | checkStop m _ | finish m _ | advance m | wrapTest m | reset m =>
      simp [step, hs m] at hstep

/-! ## Two loads at a time -/

section Overlap

variable {s : DagLoad n} {m : Fin n} {epochs : ℕ}

/-- A call of `m` up to its load. -/
def enterSteps (m : Fin n) : List (LoadStep n) := [.call m, .test m, .checkStop m false]

/-- The rest of the call, when the load succeeds and the miner is not the last. -/
def leaveSteps (m : Fin n) : List (LoadStep n) := [.finish m true, .advance m, .wrapTest m]

theorem move_move (s : DagLoad n) (m : Fin n) (a b : LoadPhase) :
    (s.move m a).move m b = s.move m b := by
  rw [move, move, Function.update_idem]
  rfl

theorem move_setIndex (s : DagLoad n) (m : Fin n) (a : LoadPhase) (index : BitVec 32) :
    (s.setIndex index).move m a = (s.move m a).setIndex index := rfl

theorem run_enterSteps (hmode : s.statics.dagLoadMode = dagLoadModeSequential)
    (hidle : s.phase m = .idle) (hindex : ¬ s.statics.dagLoadIndex < loadIndex m) :
    run step s (enterSteps m) = some ((s.countCall m).move m .loading) := by
  have hindex' : ¬ (s.countCall m).statics.dagLoadIndex < loadIndex m := hindex
  simp [enterSteps, run, step, hidle, hmode, hindex', move_move]

theorem stepsMeet_enterSteps (h : s.calls m < epochs) :
    StepsMeet step (WithinEpochs epochs) s (enterSteps m) := by
  intro s' _
  exact ⟨h, fun _ _ => ⟨trivial, fun _ _ => ⟨trivial, trivial⟩⟩⟩

theorem step_advance (hmode : s.statics.dagLoadMode = dagLoadModeSequential) {result : Bool}
    (hloaded : s.phase m = .loaded result) :
    s.step (.advance m) = some ((s.setIndex (loadIndex m + 1)).move m (.advanced result)) := by
  rw [step, hloaded]
  exact congrArg some (if_pos hmode)

theorem step_wrapTest {result : Bool} (hadvanced : s.phase m = .advanced result)
    (hcount : s.statics.minersCount ≠ s.statics.dagLoadIndex) :
    s.step (.wrapTest m) = some (s.move m (.afterReturn result)) := by
  rw [step, hadvanced]
  exact congrArg (fun phase => some (s.move m phase)) (if_neg hcount)

theorem run_leaveSteps (hmode : s.statics.dagLoadMode = dagLoadModeSequential)
    (hloading : s.phase m = .loading) (hcount : s.statics.minersCount ≠ loadIndex m + 1) :
    run step s (leaveSteps m) = some ((s.setIndex (loadIndex m + 1)).move m .idle) := by
  have hfinish : s.step (.finish m true) = some (s.move m (.loaded true)) := if_pos hloading
  have hadvance := step_advance (s := s.move m (.loaded true)) hmode (move_phase_self ..)
  rw [← move_setIndex, move_move] at hadvance
  have hwrap := step_wrapTest (s := (s.setIndex (loadIndex m + 1)).move m (.advanced true))
    (move_phase_self ..) hcount
  rw [move_move] at hwrap
  rw [leaveSteps, run_cons, hfinish, Option.bind_some, run_cons, hadvance, Option.bind_some,
    run_cons, hwrap]
  rfl

theorem stepsMeet_leaveSteps : StepsMeet step (WithinEpochs epochs) s (leaveSteps m) :=
  fun _ _ => ⟨trivial, fun _ _ => ⟨trivial, fun _ _ => ⟨trivial, trivial⟩⟩⟩

/-- Some run leads to two loads at a time. -/
def Overlaps (epochs : ℕ) (s : DagLoad n) : Prop :=
  ∃ es t, StepsMeet step (WithinEpochs epochs) s es ∧ run step s es = some t ∧ ¬ t.Exclusive

theorem Overlaps.of_run {t : DagLoad n} (h : Overlaps epochs t) {es : List (LoadStep n)}
    (hmeet : StepsMeet step (WithinEpochs epochs) s es) (hrun : run step s es = some t) :
    Overlaps epochs s := by
  obtain ⟨es', u, hmeet', hrun', hu⟩ := h
  exact ⟨es ++ es', u, hmeet.append hrun hmeet', (run_append step hrun es').trans hrun', hu⟩

/-- Two miners that are let through at the same index load at a time. -/
theorem exists_overlap_of_index (hmode : s.statics.dagLoadMode = dagLoadModeSequential)
    {m' : Fin n} (hne : m ≠ m') (hidle : s.phase m = .idle) (hidle' : s.phase m' = .idle)
    (hindex : ¬ s.statics.dagLoadIndex < loadIndex m)
    (hindex' : ¬ s.statics.dagLoadIndex < loadIndex m') (hcalls : s.calls m < epochs)
    (hcalls' : s.calls m' < epochs) :
    Overlaps epochs s := by
  have hfirst := run_enterSteps hmode hidle hindex
  have hidleNext : ((s.countCall m).move m .loading).phase m' = .idle := by
    rw [move_phase_of_ne _ _ hne.symm, countCall_phase, hidle']
  have hcallsNext : ((s.countCall m).move m .loading).calls m' < epochs := by
    rw [move_calls, countCall_calls_of_ne s hne.symm]
    exact hcalls'
  refine ⟨enterSteps m ++ enterSteps m', _,
    (stepsMeet_enterSteps hcalls).append hfirst (stepsMeet_enterSteps hcallsNext),
    (run_append step hfirst _).trans (run_enterSteps hmode hidleNext hindex'), fun hex => hne ?_⟩
  refine hex m m' ?_ (move_phase_self ..)
  rw [move_phase_of_ne _ _ hne, countCall_phase, move_phase_self]

/-- **Two miners, two epochs.**  The first loads and hands the turn on; then it is let
through together with the second. -/
theorem overlaps_of_two (hn : 1 < n) (hle : n ≤ 2 ^ 32) (hepochs : 1 < epochs) :
    Overlaps epochs (start n dagLoadModeSequential) := by
  have hfirst : 0 < n := by omega
  let m : Fin n := ⟨0, hfirst⟩
  let m' : Fin n := ⟨1, hn⟩
  have hne : m' ≠ m := fun heq => absurd (congrArg Fin.val heq) Nat.one_ne_zero
  let s := ((start n dagLoadModeSequential).countCall m).move m .loading
  have hcount : s.statics.minersCount ≠ loadIndex m + 1 := by
    intro heq
    have hone : n % 2 ^ 32 = 1 := by
      have hnat := congrArg BitVec.toNat heq
      rwa [show s.statics.minersCount = BitVec.ofNat 32 n from rfl, BitVec.toNat_ofNat] at hnat
    omega
  have henter : run step (start n dagLoadModeSequential) (enterSteps m) = some s :=
    run_enterSteps rfl rfl (Nat.lt_irrefl _)
  have hleave := run_leaveSteps (s := s) (m := m) rfl (move_phase_self ..) hcount
  have hcalls : s.calls m = 1 := countCall_calls_self _ m
  have hcalls' : s.calls m' = 0 := countCall_calls_of_ne _ hne
  have hidle' : s.phase m' = .idle := move_phase_of_ne _ _ hne
  refine Overlaps.of_run (Overlaps.of_run ?_ stepsMeet_leaveSteps hleave)
    (stepsMeet_enterSteps (show 0 < epochs by omega)) henter
  refine exists_overlap_of_index rfl hne ?_ (move_phase_self ..) (Nat.lt_irrefl _)
    (Nat.not_lt_zero _) ?_ ?_
  · rw [move_phase_of_ne _ _ hne, setIndex_phase, hidle']
  · rw [move_calls, setIndex_calls, hcalls']
    omega
  · rw [move_calls, setIndex_calls, hcalls]
    exact hepochs

/-- **Two miners with one index** are let through together in the first epoch. -/
theorem overlaps_of_lt (hn : 2 ^ 32 < n) (hepochs : 0 < epochs) :
    Overlaps epochs (start n dagLoadModeSequential) := by
  have hfirst : 0 < n := by omega
  have hne : (⟨0, hfirst⟩ : Fin n) ≠ ⟨2 ^ 32, hn⟩ := by
    intro heq
    exact absurd (show 0 = 2 ^ 32 from congrArg Fin.val heq) (by decide)
  have hsame : loadIndex (⟨2 ^ 32, hn⟩ : Fin n) = 0 := by
    show BitVec.ofNat 32 (2 ^ 32) = 0
    decide
  refine exists_overlap_of_index rfl hne rfl rfl (Nat.lt_irrefl _) ?_ hepochs hepochs
  rw [hsame]
  exact Nat.lt_irrefl _

end Overlap

/-- **When the sequential load is exclusive.**  With `n` miners that call for at most
`epochs` epochs each, at most one of them loads at any time of any interleaving exactly when
there is at most one miner, or no epoch, or one epoch and an index for every miner. -/
theorem along_exclusive_iff (n epochs : ℕ) :
    (∀ es, StepsMeet step (WithinEpochs epochs) (start n dagLoadModeSequential) es →
      Along step Exclusive (start n dagLoadModeSequential) es) ↔
      n ≤ 1 ∨ epochs = 0 ∨ epochs = 1 ∧ n ≤ 2 ^ 32 := by
  constructor
  · intro hall
    by_contra hnot
    have hoverlap : Overlaps epochs (start n dagLoadModeSequential) := by
      by_cases hle : n ≤ 2 ^ 32
      · exact overlaps_of_two (by omega) hle (by omega)
      · exact overlaps_of_lt (by omega) (by omega)
    obtain ⟨es, t, hmeet, hrun, ht⟩ := hoverlap
    exact ht ((hall es hmeet).of_run hrun)
  · rintro (hone | rfl | ⟨rfl, hn⟩) es hes
    · refine along_of_invariant (fun s e s' _ _ m m' _ _ => ?_) es _ fun m m' _ _ => ?_
      · exact Fin.ext (by omega)
      · exact Fin.ext (by omega)
    · exact along_exclusive_of_idle es hes
    · exact along_exclusive_of_one hn es hes

/-- **The first miner again.**  It has loaded for the first epoch, and is let through for
the second while the other one is loading for the first. -/
theorem not_exclusive_two_miners :
    ¬ Along step Exclusive (start 2 dagLoadModeSequential)
      [.call 0, .test 0, .checkStop 0 false, .finish 0 true, .advance 0, .wrapTest 0,
        .call 1, .test 1, .checkStop 1 false, .call 0, .test 0, .checkStop 0 false] := by
  decide

end DagLoad

end Ethcore
end FpgaEthash
