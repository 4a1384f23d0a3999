import Mathlib.Data.Nat.Notation
import Mathlib.Tactic.Common

/-!
# Words and their bytes

`byte x k` is byte `k` of a word of any width, the least significant first, and
`ofBytes n l` the word of `n` bits with the bytes `l`.

A word is determined by its bytes (`eq_of_byte_eq`), the bitwise operations act on
each byte alone (`byte_xor`, `byte_or`), and a byte that is shifted into place shows
up there and nowhere else (`byte_shiftLeft`).  Whatever a program does to a word in
these terms can be read off byte by byte.
-/

namespace FpgaEthash
namespace LittleEndian

variable {n : ℕ}

/-- Byte `k` of a word. -/
def byte (x : BitVec n) (k : ℕ) : BitVec 8 := (x >>> (8 * k)).setWidth 8

theorem getLsbD_byte (x : BitVec n) (k i : ℕ) :
    (byte x k).getLsbD i = (decide (i < 8) && x.getLsbD (8 * k + i)) := by
  rw [byte, BitVec.getLsbD_setWidth, BitVec.getLsbD_ushiftRight]

@[simp] theorem byte_xor (x y : BitVec n) (k : ℕ) : byte (x ^^^ y) k = byte x k ^^^ byte y k := by
  ext i hi
  simp [← BitVec.getLsbD_eq_getElem, getLsbD_byte, hi]

@[simp] theorem byte_or (x y : BitVec n) (k : ℕ) : byte (x ||| y) k = byte x k ||| byte y k := by
  ext i hi
  simp [← BitVec.getLsbD_eq_getElem, getLsbD_byte, hi]

@[simp] theorem byte_zero (k : ℕ) : byte (0 : BitVec n) k = 0 := by
  ext i hi
  simp [← BitVec.getLsbD_eq_getElem, getLsbD_byte]

/-- **A byte shifted into place** shows up there and nowhere else. -/
theorem byte_shiftLeft (b : BitVec 8) {j : ℕ} (hj : 8 * j + 8 ≤ n) (k : ℕ) :
    byte (b.setWidth n <<< (8 * j)) k = if k = j then b else 0 := by
  by_cases hkj : k = j
  · subst hkj
    rw [if_pos rfl]
    ext i hi
    rw [← BitVec.getLsbD_eq_getElem, ← BitVec.getLsbD_eq_getElem, getLsbD_byte,
      BitVec.getLsbD_shiftLeft, BitVec.getLsbD_setWidth]
    simp [hi, show 8 * k + i < n by omega, show i < n by omega]
  · rw [if_neg hkj]
    ext i hi
    rw [← BitVec.getLsbD_eq_getElem, ← BitVec.getLsbD_eq_getElem, getLsbD_byte,
      BitVec.getLsbD_shiftLeft, BitVec.getLsbD_setWidth]
    rcases Nat.lt_or_gt_of_ne hkj with hlt | hgt
    · simp [show 8 * k + i < 8 * j by omega]
    · simp [BitVec.getLsbD_of_ge b (8 * k + i - 8 * j) (by omega)]

/-- **A word is its bytes.** -/
theorem eq_of_byte_eq {x y : BitVec n} {m : ℕ} (hn : n ≤ 8 * m)
    (h : ∀ k < m, byte x k = byte y k) : x = y := by
  ext i hi
  have hbyte := congrArg (fun b : BitVec 8 => b.getLsbD (i % 8)) (h (i / 8) (by omega))
  simp only [getLsbD_byte, Nat.mod_lt i (show 0 < 8 by omega), decide_true, Bool.true_and,
    Nat.div_add_mod] at hbyte
  rw [← BitVec.getLsbD_eq_getElem, ← BitVec.getLsbD_eq_getElem, hbyte]

/-- The word with the bytes `l`; bytes past its width are dropped. -/
def ofBytes (n : ℕ) : List (BitVec 8) → BitVec n
  | [] => 0
  | b :: l => b.setWidth n ||| ofBytes n l <<< 8

/-- **The bytes of a word made of bytes.** -/
theorem byte_ofBytes (l : List (BitVec 8)) {k : ℕ} (hk : 8 * k + 8 ≤ n) :
    byte (ofBytes n l) k = l.getD k 0 := by
  induction l generalizing k with
  | nil => rw [ofBytes, byte_zero, List.getD_nil]
  | cons b l ih =>
    have hlow := byte_shiftLeft b (show 8 * 0 + 8 ≤ n by omega) k
    rw [Nat.mul_zero, BitVec.shiftLeft_zero] at hlow
    rw [ofBytes, byte_or, hlow]
    cases k with
    | zero =>
      have hhigh : byte (ofBytes n l <<< 8) 0 = 0 := by
        ext i hi
        rw [← BitVec.getLsbD_eq_getElem, getLsbD_byte, BitVec.getLsbD_shiftLeft]
        simp [hi]
      rw [hhigh, if_pos rfl, List.getD_cons_zero]
      exact BitVec.or_zero
    | succ k =>
      have hhigh : byte (ofBytes n l <<< 8) (k + 1) = byte (ofBytes n l) k := by
        ext i hi
        rw [← BitVec.getLsbD_eq_getElem, ← BitVec.getLsbD_eq_getElem, getLsbD_byte,
          getLsbD_byte, BitVec.getLsbD_shiftLeft]
        simp [show 8 * (k + 1) + i < n by omega, show ¬ 8 * (k + 1) + i < 8 by omega,
          show 8 * (k + 1) + i - 8 = 8 * k + i by omega]
      rw [hhigh, if_neg (Nat.succ_ne_zero k), ih (by omega), List.getD_cons_succ]
      exact BitVec.zero_or

end LittleEndian
end FpgaEthash
