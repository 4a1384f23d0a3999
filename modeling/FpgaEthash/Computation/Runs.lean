import Mathlib.Data.List.Basic

/-!
# Runs of a partial step function over a list of events

A component that reacts to events is a partial step function
`step : σ → ε → Option σ`: `step s e = none` says that the component never comes
back from event `e` in state `s`.  Two things are said about a run.

* `Along step P s es`: the predicate `P` holds in every state the run passes
  through, the first one included.
* `StepsMeet step Q s es`: every step the run completes is taken in a state, and
  on an event, that satisfy `Q`.

`along_of_invariant` is the induction rule.  `along_iff_stepsMeet` is its exact
form: when one step keeps `P` *precisely* if `Q` holds before it, then the whole
run keeps `P` precisely if all of its steps meet `Q`.  A defect that is described
at one step is thereby described for every run.
-/

namespace FpgaEthash
namespace Runs

variable {σ ε : Type*} (step : σ → ε → Option σ)

/-! ## Runs -/

/-- The state a run ends in, if each of its steps comes back. -/
def run : σ → List ε → Option σ
  | s, [] => some s
  | s, e :: es => (step s e).bind fun s' => run s' es

@[simp] theorem run_cons (s : σ) (e : ε) (es : List ε) :
    run step s (e :: es) = (step s e).bind fun s' => run step s' es := rfl

theorem run_cons_eq_some {s t : σ} {e : ε} {es : List ε} :
    run step s (e :: es) = some t ↔
      ∃ s', step s e = some s' ∧ run step s' es = some t := by
  rw [run_cons, Option.bind_eq_some_iff]

theorem run_append {s t : σ} {es : List ε} (h : run step s es = some t) (es' : List ε) :
    run step s (es ++ es') = run step t es' := by
  induction es generalizing s with
  | nil =>
    obtain rfl := Option.some.inj h
    rfl
  | cons e es ih =>
    obtain ⟨s', hs', hrest⟩ := (run_cons_eq_some step).mp h
    rw [List.cons_append, run_cons, hs', Option.bind_some, ih hrest]

/-! ## What holds along a run -/

/-- `P` holds in every state the run passes through. -/
def Along (P : σ → Prop) : σ → List ε → Prop
  | s, [] => P s
  | s, e :: es => P s ∧ ∀ s', step s e = some s' → Along P s' es

/-- Every step that the run completes satisfies `Q`. -/
def StepsMeet (Q : σ → ε → Prop) : σ → List ε → Prop
  | _, [] => True
  | s, e :: es => ∀ s', step s e = some s' → Q s e ∧ StepsMeet Q s' es

/-- Whether a decidable predicate holds along a run can be evaluated. -/
instance decidableAlong (P : σ → Prop) [DecidablePred P] :
    ∀ (s : σ) (es : List ε), Decidable (Along step P s es)
  | s, [] => inferInstanceAs (Decidable (P s))
  | s, e :: es =>
    match hs : step s e with
    | none => decidable_of_iff (P s) ⟨fun h => ⟨h, fun _ hs' => nomatch hs.symm.trans hs'⟩,
        fun h => h.1⟩
    | some t =>
      have := decidableAlong P t es
      decidable_of_iff (P s ∧ Along step P t es)
        ⟨fun h => ⟨h.1, fun _ hs' => Option.some.inj (hs.symm.trans hs') ▸ h.2⟩,
          fun h => ⟨h.1, h.2 t hs⟩⟩

/-- Whether the steps of a run meet a decidable condition can be evaluated. -/
instance decidableStepsMeet (Q : σ → ε → Prop) [∀ s e, Decidable (Q s e)] :
    ∀ (s : σ) (es : List ε), Decidable (StepsMeet step Q s es)
  | _, [] => inferInstanceAs (Decidable True)
  | s, e :: es =>
    match hs : step s e with
    | none => .isTrue fun _ hs' => nomatch hs.symm.trans hs'
    | some t =>
      have := decidableStepsMeet Q t es
      decidable_of_iff (Q s e ∧ StepsMeet step Q t es)
        ⟨fun h _ hs' => Option.some.inj (hs.symm.trans hs') ▸ h, fun h => h t hs⟩

variable {step}

theorem Along.head {P : σ → Prop} {s : σ} {es : List ε}
    (h : Along step P s es) : P s := by
  cases es with
  | nil => exact h
  | cons e es => exact h.1

/-- A weaker predicate holds along the run as well. -/
theorem Along.mono {P Q : σ → Prop} (hPQ : ∀ s, P s → Q s) {s : σ} {es : List ε}
    (h : Along step P s es) : Along step Q s es := by
  induction es generalizing s with
  | nil => exact hPQ s h
  | cons e es ih => exact ⟨hPQ s h.1, fun s' hs' => ih (h.2 s' hs')⟩

/-- What holds along a run holds where the run ends. -/
theorem Along.of_run {P : σ → Prop} {s t : σ} {es : List ε}
    (h : Along step P s es) (hrun : run step s es = some t) : P t := by
  induction es generalizing s with
  | nil =>
    obtain rfl := Option.some.inj hrun
    exact h
  | cons e es ih =>
    obtain ⟨s', hs', hrest⟩ := (run_cons_eq_some step).mp hrun
    exact ih (h.2 s' hs') hrest

/-- **The induction rule.**  A predicate that each step keeps holds along every
run that starts in it. -/
theorem along_of_invariant {P : σ → Prop}
    (hstep : ∀ s e s', P s → step s e = some s' → P s') :
    ∀ (es : List ε) (s : σ), P s → Along step P s es := by
  intro es
  induction es with
  | nil => exact fun s hs => hs
  | cons e es ih =>
    intro s hs
    exact ⟨hs, fun s' hs' => ih s' (hstep s e s' hs hs')⟩

/-- The induction rule for the runs whose steps all meet `Q`. -/
theorem along_of_stepsMeet {P : σ → Prop} {Q : σ → ε → Prop}
    (hstep : ∀ s e s', P s → Q s e → step s e = some s' → P s') :
    ∀ (es : List ε) (s : σ), P s → StepsMeet step Q s es → Along step P s es := by
  intro es
  induction es with
  | nil => exact fun s hs _ => hs
  | cons e es ih =>
    intro s hs hmeet
    refine ⟨hs, fun s' hs' => ?_⟩
    obtain ⟨hQ, hrest⟩ := hmeet s' hs'
    exact ih s' (hstep s e s' hs hQ hs') hrest

/-- If every step is met by `Q` in every state with `P`, a run that keeps `P`
meets `Q` throughout. -/
theorem stepsMeet_of_along {P : σ → Prop} {Q : σ → ε → Prop}
    (hQ : ∀ s e, P s → Q s e) :
    ∀ (es : List ε) (s : σ), Along step P s es → StepsMeet step Q s es := by
  intro es
  induction es with
  | nil => exact fun _ _ => trivial
  | cons e es ih =>
    intro s hs s' hs'
    exact ⟨hQ s e hs.1, ih s' (hs.2 s' hs')⟩

/-- One run after another. -/
theorem StepsMeet.append {Q : σ → ε → Prop} {s t : σ} {es es' : List ε}
    (h : StepsMeet step Q s es) (hrun : run step s es = some t) (h' : StepsMeet step Q t es') :
    StepsMeet step Q s (es ++ es') := by
  induction es generalizing s with
  | nil =>
    obtain rfl := Option.some.inj hrun
    exact h'
  | cons e es ih =>
    intro s' hs'
    obtain ⟨s'', hs'', hrest⟩ := (run_cons_eq_some step).mp hrun
    obtain rfl := Option.some.inj (hs'.symm.trans hs'')
    exact ⟨(h s' hs').1, ih (h s' hs').2 hrest⟩

/-- A condition on the events alone is met if every event of the run meets it. -/
theorem stepsMeet_of_forall_mem {Q : σ → ε → Prop} {es : List ε}
    (hQ : ∀ e ∈ es, ∀ s, Q s e) {s : σ} : StepsMeet step Q s es := by
  induction es generalizing s with
  | nil => trivial
  | cons e es ih =>
    intro s' _
    exact ⟨hQ e List.mem_cons_self s, ih fun e' he' => hQ e' (List.mem_cons_of_mem e he')⟩

/-- Two conditions that agree on every step that comes back agree on every run. -/
theorem stepsMeet_congr {Q Q' : σ → ε → Prop}
    (hQ : ∀ s e s', step s e = some s' → (Q s e ↔ Q' s e)) :
    ∀ (es : List ε) (s : σ), StepsMeet step Q s es ↔ StepsMeet step Q' s es := by
  intro es
  induction es with
  | nil => exact fun _ => Iff.rfl
  | cons e es ih => exact fun s => forall₂_congr fun s' hs' => and_congr (hQ s e s' hs') (ih s')

/-- **The exact induction rule, under an assumption on the steps.**  Let `I` be kept by every
step as long as `P` holds.  If a step that meets `A`, out of a state with `I` and `P`, leads to
a state with `P` exactly when `Q` holds before it, then a run whose steps all meet `A` keeps
`P` exactly when they all meet `Q`. -/
theorem along_iff_stepsMeet_under {I P : σ → Prop} {A Q : σ → ε → Prop}
    (hI : ∀ s e s', I s → P s → P s' → step s e = some s' → I s')
    (hP : ∀ s e s', I s → P s → A s e → step s e = some s' → (P s' ↔ Q s e)) :
    ∀ (es : List ε) (s : σ), I s → P s → StepsMeet step A s es →
      (Along step P s es ↔ StepsMeet step Q s es) := by
  intro es
  induction es with
  | nil => exact fun s _ hPs _ => ⟨fun _ => trivial, fun _ => hPs⟩
  | cons e es ih =>
    intro s hIs hPs hA
    constructor
    · rintro ⟨-, hrest⟩ s' hs'
      obtain ⟨hAs, hArest⟩ := hA s' hs'
      have hPs' : P s' := (hrest s' hs').head
      exact ⟨(hP s e s' hIs hPs hAs hs').mp hPs',
        (ih s' (hI s e s' hIs hPs hPs' hs') hPs' hArest).mp (hrest s' hs')⟩
    · intro h
      refine ⟨hPs, fun s' hs' => ?_⟩
      obtain ⟨hAs, hArest⟩ := hA s' hs'
      obtain ⟨hQ, hrest⟩ := h s' hs'
      have hPs' : P s' := (hP s e s' hIs hPs hAs hs').mpr hQ
      exact (ih s' (hI s e s' hIs hPs hPs' hs') hPs' hArest).mpr hrest

/-- **The exact induction rule.** -/
theorem along_iff_stepsMeet_while {I P : σ → Prop} {Q : σ → ε → Prop}
    (hI : ∀ s e s', I s → P s → P s' → step s e = some s' → I s')
    (hP : ∀ s e s', I s → P s → step s e = some s' → (P s' ↔ Q s e)) :
    ∀ (es : List ε) (s : σ), I s → P s →
      (Along step P s es ↔ StepsMeet step Q s es) :=
  fun es s hIs hPs => along_iff_stepsMeet_under (A := fun _ _ => True) hI
    (fun s e s' hIs hPs _ hs' => hP s e s' hIs hPs hs') es s hIs hPs
    (stepsMeet_of_forall_mem fun _ _ _ => trivial)

/-- The exact induction rule with an `I` that every step keeps. -/
theorem along_iff_stepsMeet {I P : σ → Prop} {Q : σ → ε → Prop}
    (hI : ∀ s e s', I s → step s e = some s' → I s')
    (hP : ∀ s e s', I s → P s → step s e = some s' → (P s' ↔ Q s e)) :
    ∀ (es : List ε) (s : σ), I s → P s →
      (Along step P s es ↔ StepsMeet step Q s es) :=
  along_iff_stepsMeet_while (fun s e s' hIs _ _ hs' => hI s e s' hIs hs') hP

end Runs
end FpgaEthash
