import Mathlib.Data.List.Nodup

/-!
# Values moved along a walk, in place

A loop carries one value along a list of places.  At each place it takes out what is
there, puts a function of the carried value in, and carries on with what it took out.
When no place is visited twice, every place ends up with what stood at the place
before it, and the first one with what the loop came with.  `origin` computes which
place that is without looking at the values, so that a walk over a fixed table is
compared with a permutation by evaluation (`get_foldl_move`).
-/

namespace FpgaEthash
namespace Walk

variable {α β : Type*} {n : ℕ} (g : β → α → α)

/-- One place of the walk. -/
def move (st : Vector α n × α) (p : Fin n × β) : Vector α n × α :=
  (st.1.set p.1 (g p.2 st.2), st.1.get p.1)

/-- What is at `k` in the end, from the values of the beginning. -/
def moved (s : Vector α n) : List (Fin n × β) → α → Fin n → α
  | [], _, k => s.get k
  | p :: w, t, k => if k = p.1 then g p.2 t else moved s w (s.get p.1) k

/-- The place that the value at `k` comes from, and the parameter it went through:
`none` if the walk leaves `k` alone, and no place for the value the loop came with. -/
def origin : List (Fin n × β) → Option (Fin n) → Fin n → Option (Option (Fin n) × β)
  | [], _, _ => none
  | p :: w, last, k => if k = p.1 then some (last, p.2) else origin w (some p.1) k

variable {g}

theorem get_set (s : Vector α n) (j k : Fin n) (a : α) :
    (s.set j a).get k = if k = j then a else s.get k := by
  show (s.set j.val a)[k.val] = if k = j then a else s[k.val]
  rw [Vector.getElem_set]
  by_cases hk : k = j
  · rw [if_pos hk, if_pos (congrArg Fin.val hk).symm]
  · rw [if_neg hk, if_neg fun h => hk (Fin.ext h.symm)]

theorem moved_of_notMem (s : Vector α n) {w : List (Fin n × β)} (t : α) {k : Fin n}
    (hk : k ∉ w.map Prod.fst) : moved g s w t k = s.get k := by
  induction w generalizing t with
  | nil => rfl
  | cons p w ih =>
    obtain ⟨hp, hw⟩ := not_or.mp (mt List.mem_cons.mpr hk)
    rw [moved, if_neg hp, ih _ hw]

/-- Only the places ahead matter. -/
theorem moved_congr {s s' : Vector α n} {w : List (Fin n × β)} (t : α) {k : Fin n}
    (hw : ∀ j ∈ w.map Prod.fst, s.get j = s'.get j) (hk : s.get k = s'.get k) :
    moved g s w t k = moved g s' w t k := by
  induction w generalizing t with
  | nil => exact hk
  | cons p w ih =>
    rw [moved, moved, hw p.1 List.mem_cons_self,
      ih _ fun j hj => hw j (List.mem_cons_of_mem p.1 hj)]

theorem get_foldl_move_eq_moved {w : List (Fin n × β)} (hw : (w.map Prod.fst).Nodup)
    (s : Vector α n) (t : α) (k : Fin n) :
    (w.foldl (move g) (s, t)).1.get k = moved g s w t k := by
  induction w generalizing s t with
  | nil => rfl
  | cons p w ih =>
    obtain ⟨hp, hnodup⟩ := List.nodup_cons.mp hw
    rw [List.foldl_cons, move, ih hnodup, moved]
    by_cases hk : k = p.1
    · rw [if_pos hk, moved_of_notMem _ _ (hk ▸ hp), get_set, if_pos hk]
    · rw [if_neg hk]
      refine moved_congr _ (fun j hj => ?_) ?_
      · have hj' : j ≠ p.1 := fun h => hp (h ▸ hj)
        rw [get_set, if_neg hj']
      · rw [get_set, if_neg hk]

theorem moved_eq_origin (s : Vector α n) (w : List (Fin n × β)) (t₀ : α)
    (last : Option (Fin n)) (k : Fin n) :
    moved g s w (last.elim t₀ s.get) k =
      (origin w last k).elim (s.get k) fun q => g q.2 (q.1.elim t₀ s.get) := by
  induction w generalizing last with
  | nil => rfl
  | cons p w ih =>
    rw [moved, origin]
    by_cases hk : k = p.1
    · rw [if_pos hk, if_pos hk]
      rfl
    · rw [if_neg hk, if_neg hk]
      exact ih (some p.1)

/-- **The walk moves every value one place on.** -/
theorem get_foldl_move {w : List (Fin n × β)} (hw : (w.map Prod.fst).Nodup)
    (s : Vector α n) (t : α) (k : Fin n) :
    (w.foldl (move g) (s, t)).1.get k =
      (origin w none k).elim (s.get k) fun q => g q.2 (q.1.elim t s.get) := by
  rw [get_foldl_move_eq_moved hw]
  exact moved_eq_origin s w t none k

end Walk
end FpgaEthash
