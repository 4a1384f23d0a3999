import Mathlib.Data.List.Induction

/-!
# Latches

A latch is switched on by some of the values that it is shown and switched off by others.
While it is off it looks only for the former, while it is on only for the latter.  If no
value is of both kinds, it is on exactly if it was switched on at some time and has not been
shown a value that switches it off since.
-/

namespace FpgaEthash
namespace Latch

variable {α : Type*} (set reset : α → Prop)

section Step

variable [DecidablePred set] [DecidablePred reset]

/-- The latch after one value. -/
def step (on : Bool) (a : α) : Bool := if on then decide (¬ reset a) else decide (set a)

/-- The latch after a list of values, if it was off before. -/
def after (as : List α) : Bool := as.foldl (step set reset) false

@[simp] theorem after_nil : after set reset ([] : List α) = false := rfl

theorem after_concat (as : List α) (a : α) :
    after set reset (as ++ [a]) = step set reset (after set reset as) a := by
  unfold after
  rw [List.foldl_append]
  rfl

end Step

/-- It was switched on, and not off since. -/
def Holds (as : List α) : Prop :=
  ∃ earlier a later, as = earlier ++ a :: later ∧ set a ∧ ∀ b ∈ later, ¬ reset b

theorem not_holds_nil : ¬ Holds set reset ([] : List α) := by
  rintro ⟨earlier, a, later, hnil, -⟩
  exact List.append_ne_nil_of_right_ne_nil _ (List.cons_ne_nil _ _) hnil.symm

theorem holds_concat_iff (as : List α) (a : α) :
    Holds set reset (as ++ [a]) ↔ set a ∨ Holds set reset as ∧ ¬ reset a := by
  constructor
  · rintro ⟨earlier, b, later, has, hset, hlater⟩
    rcases List.eq_nil_or_concat later with rfl | ⟨later, c, rfl⟩
    · obtain ⟨-, hab⟩ := List.append_inj' has rfl
      exact .inl (List.singleton_inj.mp hab ▸ hset)
    · rw [List.concat_eq_append, ← List.cons_append, ← List.append_assoc] at has
      obtain ⟨rfl, hac⟩ := List.append_inj' has rfl
      obtain rfl := List.singleton_inj.mp hac
      rw [List.concat_eq_append] at hlater
      exact .inr ⟨⟨earlier, b, later, rfl, hset,
        fun c hc => hlater c (List.mem_append_left _ hc)⟩,
        hlater a (List.mem_append_right _ (List.mem_singleton_self a))⟩
  · rintro (hset | ⟨⟨earlier, b, later, rfl, hset, hlater⟩, hreset⟩)
    · exact ⟨as, a, [], rfl, hset, fun _ hmem => absurd hmem List.not_mem_nil⟩
    · refine ⟨earlier, b, later ++ [a], by rw [List.append_assoc, List.cons_append], hset, ?_⟩
      intro c hc
      rcases List.mem_append.mp hc with hold | hlast
      · exact hlater c hold
      · rw [List.mem_singleton.mp hlast]
        exact hreset

/-- **The latch remembers.** -/
theorem after_iff [DecidablePred set] [DecidablePred reset]
    (hexclusive : ∀ a, set a → ¬ reset a) (as : List α) :
    after set reset as = true ↔ Holds set reset as := by
  induction as using List.reverseRecOn with
  | nil => exact iff_of_false Bool.false_ne_true (not_holds_nil set reset)
  | append_singleton as a ih =>
    rw [after_concat, holds_concat_iff, ← ih, step]
    split_ifs with hon
    · rw [decide_eq_true_iff]
      exact ⟨fun hreset => .inr ⟨hon, hreset⟩, fun h => h.elim (hexclusive a) And.right⟩
    · rw [decide_eq_true_iff]
      exact ⟨.inl, fun h => h.elim id fun h => absurd h.1 hon⟩

end Latch
end FpgaEthash
