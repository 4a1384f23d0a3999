import FpgaEthash.Fpga.WorkLoop

/-!
# What becomes of the results

A turn reads the results of the last run and clears the count before it asks for work.
If there is none, since the miner has been paused in the meantime, or if `initEpoch` ends
the loop, the results that were read are gone.  If there is work they are reported, and
the only filter is `m_lastNonce`: a result is left out when its nonce is the one reported
last.  That nonce is kept over changes of the job, and it starts as zero, so the filter
also catches a first result that is new.

Each result that is read is written down with the number of times that it was passed to
`submitProof`, and whether an earlier submission for the same job had its nonce.
`resultsPassed_iff` is the exact condition.  Within one turn only the first result can be
lost to the filter (`tally_accounted_iff`): the nonce that a later one is compared with
was submitted for the same job, or left out for the same reason.
-/

namespace FpgaEthash
namespace Fpga

open Devcore Ethcore Runs

/-- The same job: packages that agree in everything but the start nonce, which the loop
moves on. -/
def SameJob (v w : WorkPackage) : Prop :=
  { v with startNonce := 0 } = ({ w with startNonce := 0 } : WorkPackage)

instance (v w : WorkPackage) : Decidable (SameJob v w) := inferInstanceAs (Decidable (_ = _))

/-- A result that the loop has read: its nonce, how often it was passed to `submitProof`,
and whether an earlier submission for the same job had the same nonce. -/
structure Reading where
  nonce : BitVec 64
  passed : ℕ
  repeated : Bool
  deriving DecidableEq, Repr

/-- It was passed exactly once, or it is a repetition. -/
def Reading.Accounted (r : Reading) : Prop := r.passed = 1 ∨ r.repeated = true

namespace State

/-- The nonce of a result. -/
def nonceOf (s : State) (slot : Slot) : BitVec 64 :=
  s.current.startNonce + slot.result.gid.setWidth 64

/-- A submission for the current job had this nonce. -/
def Submitted (s : State) (nonce : BitVec 64) : Prop :=
  ∃ sub ∈ s.submitted, sub.solution.nonce = nonce ∧ SameJob sub.solution.work s.current

instance (s : State) (nonce : BitVec 64) : Decidable (s.Submitted nonce) :=
  inferInstanceAs (Decidable (∃ sub ∈ s.submitted, _))

/-- The readings of a turn that reports. -/
def tally (index : ℕ) (s : State) : List Slot → List Reading
  | [] => []
  | slot :: slots =>
    ⟨s.nonceOf slot, (s.report index slot).submitted.length - s.submitted.length,
      s.Submitted (s.nonceOf slot)⟩ :: tally index (s.report index slot) slots

/-- The readings of a turn that does not get to report. -/
def untold (s : State) : List Slot → List Reading :=
  List.map fun slot => ⟨s.nonceOf slot, 0, s.Submitted (s.nonceOf slot)⟩

end State

/-- The loop, until it is left, and what became of the results that were read. -/
structure Account where
  loop : Option State
  readings : List Reading := []

namespace Account

/-- One turn.  Results are reported if there is work and the loop is not left. -/
def step (settings : FPGASettings) (index : ℕ) (a : Account) (t : Turn) : Option Account :=
  a.loop.map fun s =>
    { loop := s.iterate settings index t
      readings := a.readings ++
        if t.work.isReal && (s.iterate settings index t).isSome then s.tally index s.results
        else s.untold s.results }

/-- Every result that was read is accounted for. -/
def ResultsPassed (a : Account) : Prop := ∀ r ∈ a.readings, r.Accounted

end Account

namespace State

/-- The loop is left in this turn. -/
def Leaves (s : State) (t : Turn) : Prop :=
  s.current.header ≠ t.work.header ∧ s.current.epoch ≠ t.work.epoch ∧ t.initEpoch = .failed

/-- The turns that lose no result.  If there is no work, or the loop is left, all of them
are repetitions; and if the first one has the nonce reported last, it is a repetition. -/
def Spares (s : State) (t : Turn) : Prop :=
  (t.work.isReal = false ∨ s.Leaves t → ∀ slot ∈ s.results, s.Submitted (s.nonceOf slot)) ∧
    ∀ slot ∈ s.results.head?, s.nonceOf slot = s.lastNonce → s.Submitted s.lastNonce

/-- Where no result is reported, all of them have to be repetitions. -/
theorem spares_iff_of_unreported {s : State} {t : Turn}
    (h : t.work.isReal = false ∨ s.Leaves t) :
    s.Spares t ↔ ∀ slot ∈ s.results, s.Submitted (s.nonceOf slot) := by
  constructor
  · exact fun hspares => hspares.1 h
  · intro hall
    refine ⟨fun _ => hall, fun slot hslot heq => ?_⟩
    rw [← heq]
    exact hall slot (List.mem_of_mem_head? hslot)

/-! ## Reporting -/

theorem report_of_eq {index : ℕ} {s : State} {slot : Slot} (h : s.nonceOf slot = s.lastNonce) :
    s.report index slot = s := if_pos h

/-- A result that is not left out is submitted, and its nonce is the last one. -/
theorem report_of_ne {index : ℕ} {s : State} {slot : Slot} (h : s.nonceOf slot ≠ s.lastNonce) :
    s.report index slot =
      { s with
        lastNonce := s.nonceOf slot
        submitted := s.submitted ++
          [⟨⟨s.nonceOf slot, slot.result.mixHash, s.current, index⟩, slot⟩] } := if_neg h

/-- **Reporting accounts for every result** exactly when the first one is not left out, or
is a repetition. -/
theorem tally_accounted_iff (index : ℕ) (slots : List Slot) (s : State) :
    (∀ r ∈ s.tally index slots, r.Accounted) ↔
      ∀ slot ∈ slots.head?, s.nonceOf slot = s.lastNonce → s.Submitted s.lastNonce := by
  induction slots generalizing s with
  | nil => simp [tally]
  | cons slot slots ih =>
    rw [tally, List.forall_mem_cons, ih]
    simp only [List.head?_cons, Option.mem_some_iff, forall_eq']
    by_cases h : s.nonceOf slot = s.lastNonce
    · -- left out: it has to be a repetition, and then so is a next one with its nonce
      rw [report_of_eq h, Nat.sub_self, h]
      constructor
      · rintro ⟨hfirst, -⟩ -
        exact of_decide_eq_true (hfirst.resolve_left Nat.zero_ne_one)
      · intro hsub
        exact ⟨Or.inr (decide_eq_true (hsub rfl)), fun _ _ _ => hsub rfl⟩
    · -- submitted: a next one with its nonce is a repetition of it
      rw [report_of_ne h]
      refine iff_of_true ⟨Or.inl ?_, fun _ _ _ => ?_⟩ fun heq => absurd heq h
      · rw [List.length_append, List.length_singleton, Nat.add_sub_cancel_left]
      · exact ⟨_, List.mem_append_right _ List.mem_cons_self, rfl, rfl⟩

theorem untold_accounted_iff (s : State) (slots : List Slot) :
    (∀ r ∈ s.untold slots, r.Accounted) ↔ ∀ slot ∈ slots, s.Submitted (s.nonceOf slot) := by
  unfold untold Reading.Accounted
  rw [List.forall_mem_map]
  simp

/-! ## When a turn comes to its end -/

theorem queue_initEpoch {init : InitEpoch} {s s₀ : State} (hqueue : s.queue = true)
    (h : s.initEpoch init = some s₀) : s₀.queue = true := by
  cases init with
  | insufficientMemory =>
    obtain rfl := Option.some.inj h
    exact hqueue
  | dagBufferFailed | ready header =>
    obtain rfl := Option.some.inj h
    rfl
  | failed => cases h

theorem initEpoch_eq_none_iff {init : InitEpoch} {s : State} :
    s.initEpoch init = none ↔ init = .failed := by
  cases init <;> simp [initEpoch]

theorem switchJob_of_leaves (settings : FPGASettings) {s : State} {t : Turn} (h : s.Leaves t) :
    s.switchJob settings t.work t.initEpoch = none := by
  obtain ⟨hheader, hepoch, hinit⟩ := h
  rw [switchJob, if_neg hheader, if_neg hepoch, initEpoch_eq_none_iff.mpr hinit]
  rfl

/-- A turn that has a queue switches to its job and keeps it, unless the loop is left. -/
theorem exists_switchJob (settings : FPGASettings) {s : State} {t : Turn}
    (hqueue : s.queue = true) (hstays : ¬ s.Leaves t) :
    ∃ s₁, s.switchJob settings t.work t.initEpoch = some s₁ ∧ s₁.queue = true := by
  unfold switchJob
  split_ifs with hheader hepoch
  · exact ⟨s, rfl, hqueue⟩
  · exact exists_setJob settings t.work hqueue
  · cases hinit : s.initEpoch t.initEpoch with
    | none => exact absurd ⟨hheader, hepoch, initEpoch_eq_none_iff.mp hinit⟩ hstays
    | some s₀ => exact exists_setJob settings t.work (queue_initEpoch hqueue hinit)

/-- A turn with work and a queue comes to its end unless the loop is left. -/
theorem iterate_eq_none_iff {settings : FPGASettings} {index : ℕ} {s : State} {t : Turn}
    (hreal : t.work.isReal = true) (hqueue : s.queue = true) :
    s.iterate settings index t = none ↔ s.Leaves t := by
  obtain ⟨b, hclean, -⟩ := s.cleanResults_spec settings
  by_cases hleaves : s.Leaves t
  · refine iff_of_true ?_ hleaves
    have hnone := switchJob_of_leaves settings (s := { s with searchBuffer := b }) hleaves
    rw [iterate, if_pos hreal, hclean, hnone]
    rfl
  · refine iff_of_false ?_ hleaves
    obtain ⟨s₁, hs₁, hq₁⟩ := exists_switchJob settings
      (s := { s with searchBuffer := b }) hqueue hleaves
    rw [← hclean] at hs₁
    obtain ⟨s', hs', -⟩ := exists_iterate index hreal hs₁ hq₁
    rw [hs']
    exact Option.some_ne_none s'

end State

/-! ## Every run of the loop -/

namespace Account

variable {settings : FPGASettings} {index : ℕ}

/-- **One turn loses no result** exactly when it spares them. -/
theorem resultsPassed_step_iff {a a' : Account} {t : Turn} {s : State} (hs : a.loop = some s)
    (ha : a.ResultsPassed) (h : a.step settings index t = some a') :
    a'.ResultsPassed ↔ s.Spares t := by
  rw [step, hs, Option.map_some] at h
  obtain rfl := Option.some.inj h
  unfold ResultsPassed at ha ⊢
  dsimp only
  rw [List.forall_mem_append, and_iff_right ha]
  cases hreal : t.work.isReal with
  | false =>
    rw [Bool.false_and, if_neg Bool.false_ne_true, State.untold_accounted_iff,
      State.spares_iff_of_unreported (Or.inl hreal)]
  | true =>
    by_cases hqueue : s.queue = true
    · cases hturn : s.iterate settings index t with
      | some s' =>
        rw [Option.isSome_some, Bool.and_self, if_pos rfl, State.tally_accounted_iff]
        refine ⟨fun hfirst => ⟨?_, hfirst⟩, fun hspares => hspares.2⟩
        rintro (hvoid | hleaves)
        · rw [hreal] at hvoid
          cases hvoid
        · rw [(State.iterate_eq_none_iff hreal hqueue).mpr hleaves] at hturn
          cases hturn
      | none =>
        have hleaves := (State.iterate_eq_none_iff hreal hqueue).mp hturn
        rw [Option.isSome_none, Bool.and_false, if_neg Bool.false_ne_true,
          State.untold_accounted_iff, State.spares_iff_of_unreported (Or.inr hleaves)]
    · -- without a queue nothing is read
      have hnone : s.results = [] := if_neg hqueue
      have hempty : s.Spares t := by
        simp [State.Spares, hnone]
      refine iff_of_true ?_ hempty
      rw [hnone]
      simp [State.tally, State.untold]

/-- **Every result that is read is passed to `submitProof` exactly once**, or repeats an
earlier submission for its job, exactly when each turn spares its results: it has work
and does not leave the loop, and the first result does not have the nonce that was
reported last; repetitions excepted. -/
theorem resultsPassed_iff (settings : FPGASettings) (index : ℕ) (header : H256)
    (searchBuffer : SearchBuffer) (target : BitVec 64) (turns : List Turn) :
    Along (step settings index) ResultsPassed
        ⟨some (State.start header searchBuffer target), []⟩ turns ↔
      StepsMeet (step settings index) (fun a t => ∀ s ∈ a.loop, s.Spares t)
        ⟨some (State.start header searchBuffer target), []⟩ turns := by
  refine along_iff_stepsMeet (I := fun _ => True) (fun _ _ _ _ _ => trivial) ?_ turns _ trivial
    fun _ hr => absurd hr List.not_mem_nil
  intro a t a' _ ha h
  cases hloop : a.loop with
  | none =>
    rw [step, hloop] at h
    cases h
  | some s =>
    rw [resultsPassed_step_iff hloop ha h]
    simp

/-- A run finds a result, and the miner is paused before the next turn asks for work. -/
theorem result_lost_in_pause :
    let w : WorkPackage := { header := Vector.replicate 32 1, epoch := 0, startNonce := 16 }
    let found : SearchResult := ⟨5, Vector.replicate 8 0⟩
    let device : SearchBuffer := ⟨Vector.replicate 4 ⟨found, none⟩, 0, 0, 0⟩
    (run (step {} 0) ⟨some (State.start (FixedHash.zero 32) device 0), []⟩
      [⟨w, .ready (FixedHash.zero 32), [found]⟩, ⟨{}, .failed, []⟩]).map readings =
        some [⟨21, 0, false⟩] := by
  decide +kernel

end Account
end Fpga
end FpgaEthash
