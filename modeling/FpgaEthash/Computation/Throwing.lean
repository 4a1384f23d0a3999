import FpgaEthash.Computation.Runs
import Mathlib.Tactic.Common

/-!
# Computations that throw and keep their state

A function that may be left by an exception, and whose assignments before that stay
made, is an `EStateM` computation.  A call is looked at from outside in two ways:
`leaves` is the state it leaves, whether it returns or throws, and `thrown` is what it
throws.

What a call may do at most is a `Frame`: a relation along which it moves the state, and
the exceptions that a state admits.  `WithinAt F x s` says that the call of `x` in state
`s` stays within the frame.  The rules follow the statements of a function, so that a
long one is gone through once, and whatever the frame implies holds of every call.

A call that ends in a state with one postcondition if it returns, and with another if it
throws, is said to do so by `Ends`, with a rule for each kind of statement.

A loop over a list is a run in the sense of `Runs`, whose steps are the turns.
-/

namespace FpgaEthash
namespace Throwing

variable {ε σ α β : Type}

/-! ## What a call leaves -/

/-- The state that a call leaves, whether it returns or throws. -/
def leaves (x : EStateM ε σ α) (s : σ) : σ :=
  match x s with
  | .ok _ t => t
  | .error _ t => t

/-- What a call throws. -/
def thrown (x : EStateM ε σ α) (s : σ) : Option ε :=
  match x s with
  | .ok _ _ => none
  | .error e _ => some e

/-- The result of a conversion, or its exception. -/
def ofExcept {ε' : Type} (f : ε' → ε) : Except ε' α → EStateM ε σ α
  | .ok a => pure a
  | .error e => throw (f e)

theorem toOption_eq_some {y : Except ε α} {a : α} : y.toOption = some a ↔ y = .ok a := by
  cases y with
  | error e => exact ⟨nofun, nofun⟩
  | ok b => exact ⟨fun h => congrArg _ (Option.some.inj h), fun h => congrArg _ (Except.ok.inj h)⟩

/-- **A sequence of conversions that succeeds**, taken apart. -/
theorem except_bind_eq_ok {y : Except ε α} {k : α → Except ε β} {b : β} :
    (y >>= k) = .ok b ↔ ∃ a, y = .ok a ∧ k a = .ok b := by
  cases y with
  | error e => exact ⟨nofun, nofun⟩
  | ok a => exact ⟨fun h => ⟨a, rfl, h⟩, fun ⟨_, ha, h⟩ => Except.ok.inj ha ▸ h⟩

/-- What is made of one result is there if the result is. -/
theorem exists_bind_pure_iff (y : Except ε α) (f : α → β) :
    (∃ b, (y >>= fun a => pure (f a)) = .ok b) ↔ ∃ a, y = .ok a := by
  constructor
  · rintro ⟨b, h⟩
    obtain ⟨a, ha, -⟩ := except_bind_eq_ok.mp h
    exact ⟨a, ha⟩
  · rintro ⟨a, rfl⟩
    exact ⟨f a, rfl⟩

/-- Two conversions that throw alike: one comes to `w` if the other comes to anything, and the
value they have in common is `w`. -/
theorem exists_ok_iff_of_map_eq {γ : Type} {x : Except ε α} {y : Except ε β} {f : α → γ} {v w : γ}
    (h : x.map f = y.map fun _ => v) :
    (∃ u, x = .ok u ∧ f u = w) ↔ (∃ p, y = .ok p) ∧ v = w := by
  cases x with
  | error e =>
    cases y with
    | error e' => simp
    | ok p => cases h
  | ok u =>
    cases y with
    | error e' => cases h
    | ok p =>
      have hv : f u = v := Except.ok.inj h
      simp [hv]

section Calls

variable {x : EStateM ε σ α} {k : α → EStateM ε σ β} {s t : σ} {a : α} {e : ε}

theorem leaves_of_ok (h : x s = .ok a t) : leaves x s = t := by
  rw [leaves, h]

theorem leaves_of_error (h : x s = .error e t) : leaves x s = t := by
  rw [leaves, h]

theorem thrown_of_ok (h : x s = .ok a t) : thrown x s = none := by
  rw [thrown, h]

theorem thrown_of_error (h : x s = .error e t) : thrown x s = some e := by
  rw [thrown, h]

theorem bind_of_ok (h : x s = .ok a t) : (x >>= k) s = k a t := by
  show EStateM.bind x k s = k a t
  rw [EStateM.bind, h]

theorem bind_of_error (h : x s = .error e t) : (x >>= k) s = .error e t := by
  show EStateM.bind x k s = .error e t
  rw [EStateM.bind, h]

/-- **A sequence that returns**, taken apart. -/
theorem bind_eq_ok {b : β} {u : σ} :
    (x >>= k) s = .ok b u ↔ ∃ a t, x s = .ok a t ∧ k a t = .ok b u := by
  cases hx : x s with
  | ok a t =>
    rw [bind_of_ok hx]
    refine ⟨fun h => ⟨a, t, rfl, h⟩, ?_⟩
    rintro ⟨a', t', hat, h⟩
    obtain ⟨rfl, rfl⟩ := EStateM.Result.ok.inj hat
    exact h
  | error e t =>
    rw [bind_of_error hx]
    exact ⟨nofun, nofun⟩

theorem ofExcept_eq_ok {ε' : Type} {f : ε' → ε} {y : Except ε' α} :
    ofExcept f y s = .ok a t ↔ y = .ok a ∧ s = t := by
  cases y with
  | ok b =>
    refine ⟨fun h => ?_, ?_⟩
    · obtain ⟨rfl, rfl⟩ := EStateM.Result.ok.inj h
      exact ⟨rfl, rfl⟩
    · rintro ⟨hab, rfl⟩
      exact Except.ok.inj hab ▸ rfl
  | error e' => exact ⟨nofun, nofun⟩

theorem ofExcept_bind_ok {ε' : Type} {f : ε' → ε} {y : Except ε' α} (h : y = .ok a) :
    (ofExcept f y >>= k) s = k a s := by
  rw [h]
  rfl

theorem get_bind {k : σ → EStateM ε σ β} : (get >>= k) s = k s s := rfl

theorem modify_bind {f : σ → σ} {k : PUnit → EStateM ε σ β} :
    (modify f >>= k) s = k ⟨⟩ (f s) := rfl

/-- A conversion that fails throws exceptions of its own: any other comes from what
follows it. -/
theorem thrown_ofExcept_bind_eq {ε' : Type} {f : ε' → ε} (hf : ∀ e', f e' ≠ e)
    {y : Except ε' α} :
    thrown (ofExcept f y >>= k) s = some e ↔ ∃ a, y = .ok a ∧ thrown (k a) s = some e := by
  cases y with
  | error e' => exact ⟨fun h => absurd (Option.some.inj h) (hf e'), nofun⟩
  | ok a => exact ⟨fun h => ⟨a, rfl, h⟩, fun ⟨b, hb, h⟩ => Except.ok.inj hb ▸ h⟩

/-- What follows does not throw it: then it comes from here. -/
theorem thrown_bind_eq (hk : ∀ a t, thrown (k a) t ≠ some e) :
    thrown (x >>= k) s = some e ↔ thrown x s = some e := by
  cases hx : x s with
  | ok a t =>
    rw [thrown_of_ok hx, thrown, bind_of_ok hx]
    exact ⟨fun h => absurd h (hk a t), nofun⟩
  | error e' t => rw [thrown_of_error hx, thrown_of_error (bind_of_error hx)]

end Calls

/-! ## Frames -/

/-- What calls may do at most.  A frame is closed under doing one thing after another. -/
structure Frame (σ ε : Type) where
  moves : σ → σ → Prop
  throws : σ → ε → Prop
  refl : ∀ s, moves s s
  trans : ∀ {s t u}, moves s t → moves t u → moves s u
  back : ∀ {s t e}, moves s t → throws t e → throws s e

/-- The call of `x` in state `s` stays within the frame. -/
def WithinAt (F : Frame σ ε) (x : EStateM ε σ α) (s : σ) : Prop :=
  F.moves s (leaves x s) ∧ ∀ e, thrown x s = some e → F.throws s e

section Frames

variable {F : Frame σ ε} {x : EStateM ε σ α} {k : α → EStateM ε σ β} {s : σ}

theorem withinAt_of_ok {a : α} {t : σ} (h : x s = .ok a t) (hst : F.moves s t) :
    WithinAt F x s := by
  refine ⟨leaves_of_ok h ▸ hst, fun e he => ?_⟩
  rw [thrown_of_ok h] at he
  exact nomatch he

theorem withinAt_of_error {e : ε} {t : σ} (h : x s = .error e t) (hst : F.moves s t)
    (he : F.throws s e) : WithinAt F x s := by
  refine ⟨leaves_of_error h ▸ hst, fun e' he' => ?_⟩
  rw [thrown_of_error h] at he'
  exact Option.some.inj he' ▸ he

theorem withinAt_pure (a : α) : WithinAt F (pure a) s := withinAt_of_ok rfl (F.refl s)

theorem withinAt_throw {e : ε} (he : F.throws s e) :
    WithinAt F (throw e : EStateM ε σ α) s :=
  withinAt_of_error rfl (F.refl s) he

theorem withinAt_modify {f : σ → σ} (h : F.moves s (f s)) :
    WithinAt F (modify f : EStateM ε σ PUnit) s :=
  withinAt_of_ok rfl h

/-- **One statement after another.** -/
theorem withinAt_bind (hx : WithinAt F x s) (hk : ∀ a t, WithinAt F (k a) t) :
    WithinAt F (x >>= k) s := by
  obtain ⟨hst, he⟩ := hx
  cases hs : x s with
  | ok a t =>
    rw [leaves_of_ok hs] at hst
    rw [WithinAt, leaves, thrown, bind_of_ok hs]
    exact ⟨F.trans hst (hk a t).1, fun e h => F.back hst ((hk a t).2 e h)⟩
  | error e t =>
    rw [leaves_of_error hs] at hst
    exact withinAt_of_error (bind_of_error hs) hst (he e (thrown_of_error hs))

/-- A function that looks at the state first. -/
theorem withinAt_get_bind {k : σ → EStateM ε σ β} (hk : WithinAt F (k s) s) :
    WithinAt F (get >>= k) s := hk

/-- After a statement that leaves the state alone the rest runs in the same state. -/
theorem withinAt_ofExcept_bind {ε' : Type} {f : ε' → ε} (hf : ∀ e, F.throws s (f e))
    {y : Except ε' α} (hk : ∀ a, y = .ok a → WithinAt F (k a) s) :
    WithinAt F (ofExcept f y >>= k) s := by
  cases y with
  | ok a => exact hk a rfl
  | error e => exact withinAt_of_error rfl (F.refl s) (hf e)

/-- After an assignment the rest runs in the new state. -/
theorem withinAt_modify_bind {f : σ → σ} {k : PUnit → EStateM ε σ β} (h : F.moves s (f s))
    (hk : WithinAt F (k ⟨⟩) (f s)) : WithinAt F (modify f >>= k) s :=
  ⟨F.trans h hk.1, fun e he => F.back h (hk.2 e he)⟩

end Frames

/-! ## Postconditions -/

/-- The call returns in a state with `Q`, or throws in a state with `R`. -/
def Ends (x : EStateM ε σ α) (s : σ) (Q : α → σ → Prop) (R : ε → σ → Prop) : Prop :=
  match x s with
  | .ok a t => Q a t
  | .error e t => R e t

section Postconditions

variable {x : EStateM ε σ α} {k : α → EStateM ε σ β} {s t : σ} {Q : α → σ → Prop}
  {Q' : β → σ → Prop} {R : ε → σ → Prop}

theorem ends_of_ok {a : α} (h : x s = .ok a t) : Ends x s Q R ↔ Q a t := by
  rw [Ends, h]

theorem ends_of_error {e : ε} (h : x s = .error e t) : Ends x s Q R ↔ R e t := by
  rw [Ends, h]

/-- The rule of sequencing. -/
theorem Ends.bind (hx : Ends x s Q R) (hk : ∀ a t, Q a t → Ends (k a) t Q' R) :
    Ends (x >>= k) s Q' R := by
  cases hs : x s with
  | ok a t =>
    rw [Ends, bind_of_ok hs]
    exact hk a t ((ends_of_ok hs).mp hx)
  | error e t => exact (ends_of_error (bind_of_error hs)).mpr ((ends_of_error hs).mp hx)

/-- The rule of assignment. -/
theorem ends_modify_bind {f : σ → σ} {k : PUnit → EStateM ε σ β}
    (hk : Ends (k ⟨⟩) (f s) Q' R) : Ends (modify f >>= k) s Q' R := hk

end Postconditions

/-! ## Loops -/

section Loops

open Runs

variable {x : α → EStateM ε σ PUnit}

/-- One turn of a loop, and the state it leaves. -/
def walk (x : α → EStateM ε σ PUnit) (s : σ) (a : α) : Option σ := some (leaves (x a) s)

/-- A loop comes to its end exactly when every turn does, in the state it finds. -/
theorem thrown_forM_eq_none_iff (as : List α) (s : σ) :
    thrown (as.forM x) s = none ↔
      StepsMeet (walk x) (fun s a => thrown (x a) s = none) s as := by
  induction as generalizing s with
  | nil => exact ⟨fun _ => trivial, fun _ => rfl⟩
  | cons a as ih =>
    have hforM : (a :: as).forM x = x a >>= fun _ => as.forM x := rfl
    rw [hforM]
    cases hx : x a s with
    | error e t =>
      rw [thrown_of_error (bind_of_error hx)]
      refine ⟨nofun, fun h => ?_⟩
      have hthrown : thrown (x a) s = none := (h _ rfl).1
      rw [thrown_of_error hx] at hthrown
      exact nomatch hthrown
    | ok u t =>
      rw [thrown, bind_of_ok hx]
      refine (ih t).trans ⟨fun h s' hs' => ⟨thrown_of_ok hx, ?_⟩, fun h => ?_⟩
      · rw [walk, leaves_of_ok hx] at hs'
        exact Option.some.inj hs' ▸ h
      · exact (h t (by rw [walk, leaves_of_ok hx])).2

/-- The state at the end of a loop that comes there. -/
theorem run_walk (as : List α) (s : σ) (h : thrown (as.forM x) s = none) :
    run (walk x) s as = some (leaves (as.forM x) s) := by
  induction as generalizing s with
  | nil => rfl
  | cons a as ih =>
    have hforM : (a :: as).forM x = x a >>= fun _ => as.forM x := rfl
    rw [hforM] at h ⊢
    cases hx : x a s with
    | error e t =>
      rw [thrown_of_error (bind_of_error hx)] at h
      exact nomatch h
    | ok u t =>
      rw [thrown, bind_of_ok hx] at h
      rw [run_cons, walk, leaves_of_ok hx, leaves, bind_of_ok hx]
      exact ih t h

/-- Every turn that is begun meets `Q`. -/
def TurnsMeet (x : α → EStateM ε σ PUnit) (Q : σ → α → Prop) : σ → List α → Prop
  | _, [] => True
  | s, a :: as => Q s a ∧ ∀ t, x a s = .ok ⟨⟩ t → TurnsMeet x Q t as

end Loops

end Throwing
end FpgaEthash
