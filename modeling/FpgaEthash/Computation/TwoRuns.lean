import FpgaEthash.Computation.Throwing

/-!
# Two calls that cannot be told apart

A view `v` of the state is the part of it that somebody looks at.  `shows v x s` is what
a call of `x` in state `s` shows of itself: its value or its exception, and the view of
the state it leaves.  `Alike v x` says that this depends on the view of the state alone,
so that the rest of the state has no influence on what is seen.

`Undone v bad x s` is about the exceptions that `bad` holds of: when the call in state `s`
is left by one of them, the view is what it was.  `Never bad x s` says that it is not left
by any.

`Lockstep R E` compares the outcomes of two different calls: both return, in states that
`R` relates, or both throw the same, in states that `E` relates.
-/

namespace FpgaEthash
namespace TwoRuns

open Throwing

variable {ε σ τ α β : Type} (v : σ → τ)

/-! ## What a call shows -/

/-- The value or the exception of a call, and the view of the state it leaves. -/
def shows (x : EStateM ε σ α) (s : σ) : Except ε α × τ :=
  match x s with
  | .ok a t => (.ok a, v t)
  | .error e t => (.error e, v t)

/-- What a call shows depends on the view of the state alone. -/
structure Alike (x : EStateM ε σ α) : Prop where
  shows_eq : ∀ s t, v s = v t → shows v x s = shows v x t

variable {v} {x : EStateM ε σ α} {k : α → EStateM ε σ β}

theorem shows_of_ok {s t : σ} {a : α} (h : x s = .ok a t) : shows v x s = (.ok a, v t) := by
  rw [shows, h]

theorem shows_of_error {s t : σ} {e : ε} (h : x s = .error e t) :
    shows v x s = (.error e, v t) := by
  rw [shows, h]

theorem Alike.thrown_eq (h : Alike v x) {s t : σ} (hst : v s = v t) :
    thrown x s = thrown x t := by
  have hshows := h.shows_eq s t hst
  unfold thrown
  cases hs : x s with
  | ok a s' =>
    cases ht : x t with
    | ok b t' => rfl
    | error e t' =>
      rw [shows_of_ok hs, shows_of_error ht] at hshows
      exact nomatch hshows
  | error e s' =>
    cases ht : x t with
    | ok b t' =>
      rw [shows_of_error hs, shows_of_ok ht] at hshows
      exact nomatch hshows
    | error e' t' =>
      rw [shows_of_error hs, shows_of_error ht] at hshows
      exact congrArg some (Except.error.inj (congrArg Prod.fst hshows))

theorem view_leaves (s : σ) : v (leaves x s) = (shows v x s).2 := by
  unfold leaves shows
  cases x s <;> rfl

theorem Alike.leaves_eq (h : Alike v x) {s t : σ} (hst : v s = v t) :
    v (leaves x s) = v (leaves x t) :=
  calc v (leaves x s) = (shows v x s).2 := view_leaves s
    _ = (shows v x t).2 := congrArg Prod.snd (h.shows_eq s t hst)
    _ = v (leaves x t) := (view_leaves t).symm

/-! ## Rules -/

theorem alike_pure (a : α) : Alike v (pure a : EStateM ε σ α) :=
  ⟨fun _ _ hst => congrArg (Prod.mk (Except.ok a)) hst⟩

theorem alike_throw (e : ε) : Alike v (throw e : EStateM ε σ α) :=
  ⟨fun _ _ hst => congrArg (Prod.mk (Except.error e)) hst⟩

theorem alike_modify {f : σ → σ} (hf : ∀ s t, v s = v t → v (f s) = v (f t)) :
    Alike v (modify f : EStateM ε σ PUnit) :=
  ⟨fun s t hst => congrArg (Prod.mk (Except.ok PUnit.unit)) (hf s t hst)⟩

theorem alike_ofExcept {ε' : Type} {f : ε' → ε} (y : Except ε' α) :
    Alike v (ofExcept f y : EStateM ε σ α) := by
  cases y with
  | ok a => exact alike_pure a
  | error e => exact alike_throw (f e)

/-- **One statement after another.** -/
theorem alike_bind (hx : Alike v x) (hk : ∀ a, Alike v (k a)) : Alike v (x >>= k) := by
  refine ⟨fun s t hst => ?_⟩
  have hshows := hx.shows_eq s t hst
  cases hs : x s with
  | ok a s' =>
    cases ht : x t with
    | ok b t' =>
      rw [shows_of_ok hs, shows_of_ok ht] at hshows
      obtain ⟨hab, hview⟩ := Prod.mk.inj hshows
      obtain rfl := Except.ok.inj hab
      rw [shows, shows, bind_of_ok hs, bind_of_ok ht]
      exact (hk a).shows_eq s' t' hview
    | error e t' =>
      rw [shows_of_ok hs, shows_of_error ht] at hshows
      exact nomatch (Prod.mk.inj hshows).1
  | error e s' =>
    cases ht : x t with
    | ok b t' =>
      rw [shows_of_error hs, shows_of_ok ht] at hshows
      exact nomatch (Prod.mk.inj hshows).1
    | error e' t' =>
      rw [shows_of_error hs, shows_of_error ht] at hshows
      obtain ⟨hee, hview⟩ := Prod.mk.inj hshows
      rw [shows_of_error (bind_of_error hs), shows_of_error (bind_of_error ht),
        Except.error.inj hee, hview]

/-- A function that looks at the state sees no more than the view. -/
theorem alike_get_bind {k : σ → EStateM ε σ β} (hk : ∀ s t, v s = v t → k s = k t)
    (halike : ∀ s, Alike v (k s)) : Alike v (get >>= k) := by
  refine ⟨fun s t hst => ?_⟩
  show shows v (k s) s = shows v (k t) t
  rw [hk s t hst]
  exact (halike t).shows_eq s t hst

/-! ## Exceptions that leave no trace -/

/-- The call is not left by an exception that `bad` holds of. -/
def Never (bad : ε → Prop) (x : EStateM ε σ α) (s : σ) : Prop :=
  ∀ e t, x s = .error e t → ¬ bad e

variable (v) in
/-- Where the call is left by such an exception, the view is what it was. -/
def Undone (bad : ε → Prop) (x : EStateM ε σ α) (s : σ) : Prop :=
  ∀ e t, x s = .error e t → bad e → v t = v s

variable {bad : ε → Prop} {s : σ}

theorem never_of_ok {a : α} {t : σ} (h : x s = .ok a t) : Never bad x s :=
  fun _ _ he => nomatch h.symm.trans he

theorem never_of_error {e : ε} {t : σ} (h : x s = .error e t) (he : ¬ bad e) : Never bad x s := by
  intro e' t' he'
  injection h.symm.trans he' with hee
  exact hee ▸ he

theorem never_bind (hx : Never bad x s) (hk : ∀ a t, x s = .ok a t → Never bad (k a) t) :
    Never bad (x >>= k) s := by
  cases hs : x s with
  | ok a t =>
    intro e u he
    rw [bind_of_ok hs] at he
    exact hk a t hs e u he
  | error e t => exact never_of_error (bind_of_error hs) (hx e t hs)

theorem never_pure (a : α) : Never bad (pure a : EStateM ε σ α) s := never_of_ok rfl

theorem never_modify (f : σ → σ) : Never bad (modify f : EStateM ε σ PUnit) s := never_of_ok rfl

/-- A conversion that succeeds. -/
theorem never_ofExcept_bind {ε' : Type} {f : ε' → ε} {y : Except ε' α} {a : α} (hy : y = .ok a)
    (hk : Never bad (k a) s) : Never bad (ofExcept f y >>= k) s := by
  rw [hy]
  exact hk

theorem Never.undone (h : Never bad x s) : Undone v bad x s :=
  fun e t he hbad => absurd hbad (h e t he)

/-- A function that looks at the state first. -/
theorem undone_get_bind {k : σ → EStateM ε σ β} (hk : Undone v bad (k s) s) :
    Undone v bad (get >>= k) s := hk

/-- After a statement that keeps the view. -/
theorem undone_bind (hx : Undone v bad x s)
    (hk : ∀ a t, x s = .ok a t → v t = v s ∧ Undone v bad (k a) t) :
    Undone v bad (x >>= k) s := by
  intro e u he hbad
  cases hs : x s with
  | ok a t =>
    rw [bind_of_ok hs] at he
    obtain ⟨hview, hundone⟩ := hk a t hs
    exact (hundone e u he hbad).trans hview
  | error e' t =>
    rw [bind_of_error hs] at he
    obtain ⟨rfl, rfl⟩ := EStateM.Result.error.inj he
    exact hx e' t hs hbad

/-- A conversion that fails has changed nothing. -/
theorem undone_ofExcept_bind {ε' : Type} {f : ε' → ε} {y : Except ε' α}
    (hk : ∀ a, y = .ok a → Undone v bad (k a) s) : Undone v bad (ofExcept f y >>= k) s := by
  cases y with
  | ok a => exact hk a rfl
  | error e =>
    intro e' t he' _
    injection he' with _ ht
    exact congrArg v ht.symm

/-- An assignment outside the view. -/
theorem undone_modify_bind {f : σ → σ} {k : PUnit → EStateM ε σ β} (hf : v (f s) = v s)
    (hk : Undone v bad (k ⟨⟩) (f s)) : Undone v bad (modify f >>= k) s :=
  fun e t he hbad => (hk e t he hbad).trans hf

/-! ## Two programs, step by step -/

/-- Two calls end alike: they return the same, or they throw the same. -/
inductive Lockstep {ρ : Type} (R E : σ → ρ → Prop) :
    EStateM.Result ε σ α → EStateM.Result ε ρ α → Prop
  | ok {a : α} {s : σ} {t : ρ} (h : R s t) : Lockstep R E (.ok a s) (.ok a t)
  | error {e : ε} {s : σ} {t : ρ} (h : E s t) : Lockstep R E (.error e s) (.error e t)

section Lockstep

variable {ρ : Type} {R R' E : σ → ρ → Prop} {y : EStateM ε ρ α} {l : α → EStateM ε ρ β} {t : ρ}

theorem Lockstep.thrown_eq (h : Lockstep R E (x s) (y t)) : thrown x s = thrown y t := by
  unfold thrown
  generalize x s = r at h ⊢
  generalize y t = r' at h ⊢
  cases h <;> rfl

/-- What both relations imply holds of the states left. -/
theorem Lockstep.leaves {P : σ → ρ → Prop} (h : Lockstep R E (x s) (y t))
    (hR : ∀ s t, R s t → P s t) (hE : ∀ s t, E s t → P s t) :
    P (leaves x s) (leaves y t) := by
  unfold Throwing.leaves
  generalize x s = r at h ⊢
  generalize y t = r' at h ⊢
  cases h with
  | ok h => exact hR _ _ h
  | error h => exact hE _ _ h

/-- **One statement after another.** -/
theorem lockstep_bind (hx : Lockstep R E (x s) (y t))
    (hk : ∀ a s' t', x s = .ok a s' → R s' t' → Lockstep R' E (k a s') (l a t')) :
    Lockstep R' E ((x >>= k) s) ((y >>= l) t) := by
  cases hs : x s with
  | ok a s' =>
    rw [hs] at hx
    cases ht : y t with
    | ok b t' =>
      rw [ht] at hx
      cases hx with
      | ok h =>
        rw [bind_of_ok hs, bind_of_ok ht]
        exact hk a s' t' hs h
    | error e t' => exact nomatch ht ▸ hx
  | error e s' =>
    rw [hs] at hx
    cases ht : y t with
    | ok b t' => exact nomatch ht ▸ hx
    | error e' t' =>
      rw [ht] at hx
      cases hx with
      | error h =>
        rw [bind_of_error hs, bind_of_error ht]
        exact .error h

/-- **Two loops over the same list**, turn by turn. -/
theorem lockstep_forM {Q : σ → α → Prop} {x : α → EStateM ε σ PUnit} {y : α → EStateM ε ρ PUnit}
    (hturn : ∀ a s t, R s t → Q s a → Lockstep R E (x a s) (y a t)) (as : List α) {s : σ} {t : ρ}
    (hst : R s t) (hQ : TurnsMeet x Q s as) : Lockstep R E (as.forM x s) (as.forM y t) := by
  induction as generalizing s t with
  | nil => exact .ok hst
  | cons a as ih =>
    exact lockstep_bind (hturn a s t hst hQ.1) fun _ s' _ hs' hst' => ih hst' (hQ.2 s' hs')

end Lockstep

end TwoRuns
end FpgaEthash
