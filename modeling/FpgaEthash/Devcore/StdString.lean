import FpgaEthash.Arithmetic.HexDigits
import Mathlib.Data.List.TakeWhile

/-!
# Strings of the standard library

A `std::string` is the list of its characters.  The members and conversions that
the pool protocols use are modelled with their exceptions.

`stoull` is `strtoull` and its checks: white space, a sign and a `0x` before the
digits are skipped, whatever follows the digits is ignored, no digits at all is
`invalid_argument`, and a value past the range is `out_of_range`.  On a string of
hexadecimal digits none of this shows (`stoull_of_isHexDigit`).
-/

namespace FpgaEthash
namespace Devcore

open HexDigits

/-- A `std::string`, as the list of its characters. -/
abbrev StdString := List Char

/-- The exceptions that the modelled functions throw. -/
inductive StdException where
  | invalidArgument
  | outOfRange
  | badHexCharacter
  deriving DecidableEq, Repr

namespace StdString

/-- `resize(n, c)`: cut, or fill up on the right. -/
def resize (s : StdString) (n : ℕ) (c : Char) : StdString :=
  s.take n ++ List.replicate (n - s.length) c

/-- `substr(pos)`. -/
def substr (s : StdString) (pos : ℕ) : Except StdException StdString :=
  if s.length < pos then .error .outOfRange else .ok (s.drop pos)

@[simp] theorem length_resize (s : StdString) (n : ℕ) (c : Char) :
    (s.resize n c).length = n := by
  rw [resize, List.length_append, List.length_take, List.length_replicate]
  omega

theorem resize_of_length_le {s : StdString} {n : ℕ} (h : s.length ≤ n) (c : Char) :
    s.resize n c = s ++ List.replicate (n - s.length) c := by
  rw [resize, List.take_of_length_le h]

theorem substr_of_le {s : StdString} {pos : ℕ} (h : pos ≤ s.length) :
    s.substr pos = .ok (s.drop pos) := by
  rw [substr, if_neg (by omega)]

end StdString

/-! ## `stoull` -/

/-- `isspace`, in the `C` locale. -/
def isSpace (c : Char) : Bool := c ∈ [' ', '\t', '\n', '\x0b', '\x0c', '\r']

/-- The sign, and what follows it; `true` for a minus. -/
def takeSign : StdString → Bool × StdString
  | '-' :: s => (true, s)
  | '+' :: s => (false, s)
  | s => (false, s)

/-- A `0x` or `0X` is skipped if a digit follows it. -/
def skipHexPrefix : StdString → StdString
  | '0' :: x :: d :: s =>
    if (x = 'x' ∨ x = 'X') ∧ IsHexDigit d then d :: s else '0' :: x :: d :: s
  | s => s

/-- The digits that `strtoull` finds in base sixteen. -/
def hexDigitsAt (s : StdString) : StdString :=
  (skipHexPrefix s).takeWhile fun c => decide (IsHexDigit c)

/-- `stoull(s, nullptr, 16)`. -/
def stoull (s : StdString) : Except StdException (BitVec 64) :=
  let signed := takeSign (s.dropWhile isSpace)
  let digits := hexDigitsAt signed.2
  if digits = [] then .error .invalidArgument
  else if 2 ^ 64 ≤ value digits then .error .outOfRange
  else .ok (if signed.1 then -BitVec.ofNat 64 (value digits) else BitVec.ofNat 64 (value digits))

/-- `stoi(s, nullptr, 16)`. -/
def stoi (s : StdString) : Except StdException ℤ :=
  let signed := takeSign (s.dropWhile isSpace)
  let digits := hexDigitsAt signed.2
  let number : ℤ := if signed.1 then -(value digits : ℤ) else value digits
  if digits = [] then .error .invalidArgument
  else if number < -2147483648 ∨ 2147483647 < number then .error .outOfRange
  else .ok number

theorem length_takeSign_le (s : StdString) : (takeSign s).2.length ≤ s.length := by
  unfold takeSign
  split <;> simp

theorem isHexDigit_iff_exists {c : Char} : IsHexDigit c ↔ ∃ d, digitValue c = some d := by
  rw [IsHexDigit, Option.isSome_iff_exists]

/-- A digit is no space, no sign and no `x`. -/
theorem ne_special_of_isHexDigit {c : Char} (h : IsHexDigit c) :
    isSpace c = false ∧ c ≠ '-' ∧ c ≠ '+' ∧ c ≠ 'x' ∧ c ≠ 'X' := by
  obtain ⟨d, hd⟩ := isHexDigit_iff_exists.mp h
  exact forall_digitValue
    (P := fun c _ => isSpace c = false ∧ c ≠ '-' ∧ c ≠ '+' ∧ c ≠ 'x' ∧ c ≠ 'X')
    (by decide) (by decide) (by decide) hd

section Digits

variable {s : StdString} (h : ∀ c ∈ s, IsHexDigit c)

include h

theorem dropWhile_isSpace_of_isHexDigit : s.dropWhile isSpace = s := by
  cases s with
  | nil => rfl
  | cons c s =>
    have hc := (ne_special_of_isHexDigit (h c List.mem_cons_self))
    rw [List.dropWhile_cons_of_neg (by rw [hc.1]; exact Bool.false_ne_true)]

theorem takeSign_of_isHexDigit : takeSign s = (false, s) := by
  unfold takeSign
  split
  · exact absurd rfl (ne_special_of_isHexDigit (h '-' List.mem_cons_self)).2.1
  · exact absurd rfl (ne_special_of_isHexDigit (h '+' List.mem_cons_self)).2.2.1
  · rfl

theorem skipHexPrefix_of_isHexDigit : skipHexPrefix s = s := by
  unfold skipHexPrefix
  split
  · next x d rest =>
      have hx := (ne_special_of_isHexDigit (h x (by simp))).2.2.2
      rw [if_neg]
      rintro ⟨rfl | rfl, -⟩
      · exact hx.1 rfl
      · exact hx.2 rfl
  · rfl

theorem hexDigitsAt_of_isHexDigit : hexDigitsAt s = s := by
  rw [hexDigitsAt, skipHexPrefix_of_isHexDigit h, List.takeWhile_eq_self_iff]
  exact fun c hc => decide_eq_true (h c hc)

/-- **`stoull` reads a numeral** of one to sixteen digits. -/
theorem stoull_of_isHexDigit (hne : s ≠ []) (hlen : s.length ≤ 16) :
    stoull s = .ok (BitVec.ofNat 64 (value s)) := by
  have hlt : value s < 2 ^ 64 :=
    calc value s < 16 ^ s.length := value_lt s
      _ ≤ 16 ^ 16 := Nat.pow_le_pow_right (by omega) hlen
      _ = 2 ^ 64 := by norm_num
  rw [stoull, dropWhile_isSpace_of_isHexDigit h, takeSign_of_isHexDigit h]
  dsimp only
  rw [hexDigitsAt_of_isHexDigit h, if_neg hne, if_neg (by omega), if_neg Bool.false_ne_true]

end Digits

end Devcore
end FpgaEthash
