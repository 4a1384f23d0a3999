import Mathlib.Data.List.Basic
import Mathlib.Algebra.Order.Group.Nat

/-!
# A list with a position in it

A round robin keeps a list and the position of the entry it is at.  A position that has
run off the end is brought back to the first entry (`wrap`); entries are erased before,
at and after the position.

* `wrap_succ`: one position further, and back to the first from the last.
* `succ_div_mod_of_lt`, `succ_div_mod_of_eq`: counting turns, of which `r` make a round.
* `getElem?_eraseIdx_wrap`: when the entry itself is erased, the position is at the entry
  that followed it, or at the first one if it was the last.
* `getElem?_eraseIdx_pred`: when another entry is erased, a position that is moved along
  with what follows the erased entry is at the same entry as before.
-/

namespace FpgaEthash
namespace Cursor

variable {α : Type*}

/-- A position past the end of a list of length `n` is brought back to the first entry. -/
def wrap (n i : ℕ) : ℕ := if n ≤ i then 0 else i

theorem wrap_of_lt {n i : ℕ} (h : i < n) : wrap n i = i := if_neg (Nat.not_le_of_lt h)

theorem wrap_lt {n : ℕ} (hn : 0 < n) (i : ℕ) : wrap n i < n := by
  unfold wrap
  split_ifs with h
  · exact hn
  · exact Nat.lt_of_not_le h

theorem wrap_succ {n i : ℕ} (h : i < n) : wrap n (i + 1) = (i + 1) % n := by
  unfold wrap
  split_ifs with hle
  · obtain rfl : n = i + 1 := by omega
    rw [Nat.mod_self]
  · rw [Nat.mod_eq_of_lt (by omega)]

/-- The next turn of the same round. -/
theorem succ_div_mod_of_lt {r j : ℕ} (h : j % r + 1 < r) :
    (j + 1) / r = j / r ∧ (j + 1) % r = j % r + 1 := by
  have hj : j + 1 = r * (j / r) + (j % r + 1) := by
    rw [← Nat.add_assoc, Nat.div_add_mod]
  constructor
  · conv_lhs => rw [hj]
    rw [Nat.mul_add_div (by omega), Nat.div_eq_of_lt h, Nat.add_zero]
  · conv_lhs => rw [hj]
    rw [Nat.mul_add_mod, Nat.mod_eq_of_lt h]

/-- The first turn of the next round. -/
theorem succ_div_mod_of_eq {r j : ℕ} (h : j % r + 1 = r) :
    (j + 1) / r = j / r + 1 ∧ (j + 1) % r = 0 := by
  have hj : j + 1 = r * (j / r + 1) := by
    have hdiv := Nat.div_add_mod j r
    rw [Nat.mul_succ]
    omega
  rw [hj, Nat.mul_div_cancel_left _ (by omega), Nat.mul_mod_right]
  exact ⟨rfl, rfl⟩

/-- **The entry itself is erased.** -/
theorem getElem?_eraseIdx_wrap {l : List α} {i : ℕ} (hi : i < l.length) (hl : 1 < l.length) :
    (l.eraseIdx i)[wrap (l.eraseIdx i).length i]? = l[(i + 1) % l.length]? := by
  rw [List.length_eraseIdx_of_lt hi, List.getElem?_eraseIdx]
  by_cases hlast : l.length ≤ i + 1
  · -- the last entry was erased
    have hlen : i + 1 = l.length := by omega
    have hwrap : wrap (l.length - 1) i = 0 := if_pos (by omega)
    rw [hwrap, hlen, Nat.mod_self, if_pos (by omega)]
  · rw [wrap_of_lt (by omega), if_neg (lt_irrefl i), Nat.mod_eq_of_lt (by omega)]

/-- **Another entry is erased.** -/
theorem getElem?_eraseIdx_pred {l : List α} {i j : ℕ} (hij : j ≠ i) :
    (l.eraseIdx j)[if j < i then i - 1 else i]? = l[i]? := by
  rw [List.getElem?_eraseIdx]
  split_ifs with h₁ h₂ h₂
  · omega
  · rw [Nat.sub_add_cancel (by omega)]
  · rfl
  · omega

theorem pred_lt_length_eraseIdx {l : List α} {i j : ℕ} (hi : i < l.length) (hj : j < l.length)
    (hij : j ≠ i) : (if j < i then i - 1 else i) < (l.eraseIdx j).length := by
  rw [List.length_eraseIdx_of_lt hj]
  split_ifs <;> omega

end Cursor
end FpgaEthash
