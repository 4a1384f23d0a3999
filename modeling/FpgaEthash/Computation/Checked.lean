import Mathlib.Data.List.Basic

/-!
# Programs that can go wrong at a division or an array access

Machine code that divides by zero or leaves an array has no result.  `umod`, `load` and
`store` make these points explicit in `Except Fault`, and the rules below are for loops over
them: a loop comes back if each of its steps does (`exists_foldlM_ok`), and it may be
exchanged with one that takes the same steps (`foldlM_congr`).
-/

namespace FpgaEthash
namespace Checked

/-- What goes wrong. -/
inductive Fault
  | divisionByZero
  | outOfBounds
  deriving DecidableEq, Repr

universe u

variable {α σ : Type u} {ι : Type*} {w : ℕ}

/-- The remainder of machine words. -/
def umod (x y : BitVec w) : Except Fault (BitVec w) :=
  if y = 0 then .error .divisionByZero else .ok (x % y)

/-- A read from an array. -/
def load (a : Array α) (i : ℕ) : Except Fault α :=
  if h : i < a.size then .ok a[i] else .error .outOfBounds

/-- A write to an array. -/
def store (a : Array α) (i : ℕ) (x : α) : Except Fault (Array α) :=
  if h : i < a.size then .ok (a.set i x) else .error .outOfBounds

theorem umod_of_ne_zero (x : BitVec w) {y : BitVec w} (hy : y ≠ 0) : umod x y = .ok (x % y) :=
  if_neg hy

theorem umod_eq_ok {x y r : BitVec w} (h : umod x y = .ok r) : y ≠ 0 ∧ r = x % y := by
  by_cases hy : y = 0
  · rw [umod, if_pos hy] at h
    cases h
  · rw [umod_of_ne_zero x hy] at h
    exact ⟨hy, (Except.ok.inj h).symm⟩

theorem load_of_lt {a : Array α} {i : ℕ} (hi : i < a.size) : load a i = .ok a[i] := dif_pos hi

/-- A read comes back within the bounds, and only there. -/
theorem exists_load_iff {a : Array α} {i : ℕ} : (∃ x, load a i = .ok x) ↔ i < a.size := by
  constructor
  · rintro ⟨x, h⟩
    by_contra hi
    rw [load, dif_neg hi] at h
    cases h
  · exact fun hi => ⟨_, load_of_lt hi⟩

theorem store_of_lt {a : Array α} {i : ℕ} (hi : i < a.size) (x : α) :
    store a i x = .ok (a.set i x) := dif_pos hi

theorem load_of_getElem? {a : Array α} {i : ℕ} {x : α} (h : a[i]? = some x) :
    load a i = .ok x := by
  obtain ⟨hi, rfl⟩ := Array.getElem?_eq_some_iff.mp h
  exact load_of_lt hi

/-- Arrays of one size with the same reads are the same. -/
theorem eq_iff_load {a b : Array α} (h : a.size = b.size) :
    a = b ↔ ∀ i < a.size, load a i = load b i := by
  constructor
  · rintro rfl i -
    rfl
  · intro hload
    refine Array.ext h fun i hi hi' => ?_
    have hread := hload i hi
    rwa [load_of_lt hi, load_of_lt hi', Except.ok.injEq] at hread

theorem toNat_mod_lt (x : BitVec w) {y : BitVec w} (hy : y ≠ 0) : (x % y).toNat < y.toNat := by
  have hpos : 0 < y.toNat := Nat.pos_of_ne_zero fun h => hy (BitVec.toNat_inj.mp h)
  rw [BitVec.toNat_umod]
  exact Nat.mod_lt _ hpos

@[simp] theorem ok_bind (x : α) (f : α → Except Fault σ) : (Except.ok x >>= f) = f x := rfl

/-- **A loop whose steps come back comes back.** -/
theorem exists_foldlM_ok {f : σ → ι → Except Fault σ} (hf : ∀ s i, ∃ s', f s i = .ok s')
    (L : List ι) (s : σ) : ∃ s', L.foldlM f s = .ok s' := by
  induction L generalizing s with
  | nil => exact ⟨s, rfl⟩
  | cons i L ih =>
    obtain ⟨s₁, hs₁⟩ := hf s i
    obtain ⟨s₂, hs₂⟩ := ih s₁
    exact ⟨s₂, by rw [List.foldlM_cons, hs₁, ok_bind, hs₂]⟩

/-- **A loop of steps that are known to come back** is a loop without faults. -/
theorem foldlM_eq_ok {f : σ → ι → Except Fault σ} {g : σ → ι → σ}
    (hfg : ∀ s i, f s i = .ok (g s i)) (L : List ι) (s : σ) :
    L.foldlM f s = .ok (L.foldl g s) := by
  induction L generalizing s with
  | nil => rfl
  | cons i L ih => rw [List.foldlM_cons, hfg, ok_bind, ih, List.foldl_cons]

/-- **Loops with the same steps** are the same. -/
theorem foldlM_congr {f g : σ → ι → Except Fault σ} (hfg : ∀ s i, f s i = g s i)
    (L : List ι) (s : σ) : L.foldlM f s = L.foldlM g s := by
  induction L generalizing s with
  | nil => rfl
  | cons i L ih =>
    rw [List.foldlM_cons, List.foldlM_cons, hfg]
    congr 1
    funext s'
    exact ih s'

/-- **What every step keeps** holds at the end of a loop that comes back. -/
theorem of_foldlM_eq_ok {f : σ → ι → Except Fault σ} {P : σ → Prop}
    (hf : ∀ s i s', P s → f s i = .ok s' → P s') {L : List ι} {s s' : σ} (hs : P s)
    (h : L.foldlM f s = .ok s') : P s' := by
  induction L generalizing s with
  | nil => exact Except.ok.inj h ▸ hs
  | cons i L ih =>
    rw [List.foldlM_cons] at h
    cases hstep : f s i with
    | error fault =>
      rw [hstep] at h
      exact nomatch h
    | ok s₁ =>
      rw [hstep] at h
      exact ih (hf s i s₁ hs hstep) h

/-- **A loop that carries more** goes through the states of the loop that it extends. -/
theorem map_foldlM {τ : Type u} {f : σ → ι → Except Fault σ} {g : τ → ι → Except Fault τ}
    {π : τ → σ} (hfg : ∀ t i, (g t i).map π = f (π t) i) (L : List ι) (t : τ) :
    (L.foldlM g t).map π = L.foldlM f (π t) := by
  induction L generalizing t with
  | nil => rfl
  | cons i L ih =>
    rw [List.foldlM_cons, List.foldlM_cons, ← hfg]
    cases g t i with
    | error fault => rfl
    | ok t' => exact ih t'

end Checked
end FpgaEthash
