import FpgaEthash.Arithmetic.HexDigits
import Mathlib.Algebra.Order.Field.Power
import Mathlib.Data.Rat.Floor
import Mathlib.Tactic.FieldSimp
import Mathlib.Tactic.Positivity

/-!
# Decimal numerals

`readIn` reads a text of digits to some base and stops at a character that is none of them.
A `Numeral` is a text as `printf` writes a number that is not negative: digits, perhaps a point
and more digits, perhaps an exponent.  `IsGeneral` is the rule of the conversion `%g` that
decides between the two notations.
-/

namespace FpgaEthash
namespace Decimals

open HexDigits

/-! ## Digits -/

/-- A digit to the given base. -/
def isDigitIn (radix : ℕ) (c : Char) : Bool := (digitValue c).any (· < radix)

/-- The number that digits stand for. -/
def valueIn (radix : ℕ) (s : List Char) : ℕ :=
  s.foldl (fun n c => radix * n + (digitValue c).getD 0) 0

/-- The number that digits stand for, if there is nothing else in the text. -/
def readIn (radix : ℕ) (s : List Char) : Option ℕ :=
  if s.all (isDigitIn radix) then some (valueIn radix s) else none

section Digits

variable {radix : ℕ} {s : List Char} {c : Char}

theorem readIn_of_forall (h : ∀ c ∈ s, isDigitIn radix c) :
    readIn radix s = some (valueIn radix s) :=
  if_pos (List.all_eq_true.mpr h)

theorem readIn_eq_none (hc : c ∈ s) (hdigit : isDigitIn radix c = false) :
    readIn radix s = none := by
  refine if_neg fun hall => ?_
  rw [List.all_eq_true.mp hall c hc] at hdigit
  exact Bool.noConfusion hdigit

theorem valueIn_concat (radix : ℕ) (s : List Char) (c : Char) :
    valueIn radix (s ++ [c]) = radix * valueIn radix s + (digitValue c).getD 0 := by
  rw [valueIn, List.foldl_append]
  rfl

theorem valueIn_zero_cons (radix : ℕ) (s : List Char) :
    valueIn radix ('0' :: s) = valueIn radix s := rfl

theorem valueIn_append (radix : ℕ) (s t : List Char) :
    valueIn radix (s ++ t) = valueIn radix s * radix ^ t.length + valueIn radix t := by
  induction t using List.reverseRecOn with
  | nil => simp [valueIn]
  | append_singleton t c ih =>
    rw [← List.append_assoc, valueIn_concat, valueIn_concat, ih, List.length_append,
      List.length_singleton, pow_succ]
    ring

/-- Leading zeros do not count. -/
theorem valueIn_dropWhile_zero (radix : ℕ) (s : List Char) :
    valueIn radix (s.dropWhile (· == '0')) = valueIn radix s := by
  induction s with
  | nil => rfl
  | cons c s ih =>
    rw [List.dropWhile_cons]
    split_ifs with hc
    · rw [ih, beq_iff_eq.mp hc, valueIn_zero_cons]
    · rfl

theorem valueIn_replicate_zero (radix k : ℕ) : valueIn radix (List.replicate k '0') = 0 := by
  induction k with
  | zero => rfl
  | succ k ih => rw [List.replicate_succ, valueIn_zero_cons, ih]

theorem getD_digitValue_lt_of_isDigitIn (h : isDigitIn radix c = true) :
    (digitValue c).getD 0 < radix := by
  unfold isDigitIn at h
  cases hvalue : digitValue c with
  | none =>
    rw [hvalue] at h
    exact Bool.noConfusion h
  | some d =>
    rw [hvalue] at h
    exact of_decide_eq_true h

theorem valueIn_lt (h : ∀ c ∈ s, isDigitIn radix c) : valueIn radix s < radix ^ s.length := by
  induction s using List.reverseRecOn with
  | nil => exact Nat.one_pos
  | append_singleton s c ih =>
    rw [List.forall_mem_append, List.forall_mem_singleton] at h
    have hc := getD_digitValue_lt_of_isDigitIn h.2
    have hs : valueIn radix s + 1 ≤ radix ^ s.length := ih h.1
    rw [valueIn_concat, List.length_append, List.length_singleton, pow_succ]
    calc radix * valueIn radix s + (digitValue c).getD 0
        < radix * valueIn radix s + radix := Nat.add_lt_add_left hc _
      _ = (valueIn radix s + 1) * radix := by ring
      _ ≤ radix ^ s.length * radix := Nat.mul_le_mul_right _ hs

end Digits

/-! ## Numerals -/

/-- A decimal numeral: the digits before the point and after it, and the exponent in the
scientific notation. -/
structure Numeral where
  whole : List Char
  fraction : List Char := []
  exponent : Option ℤ := none
  digits : (whole ++ fraction).all (isDigitIn 10) = true := by decide

namespace Numeral

/-- The exponent as it is written, with two digits at least. -/
def exponentText : Option ℤ → List Char
  | none => []
  | some e =>
    'e' :: (if e < 0 then '-' else '+') ::
      if e.natAbs < 10 then '0' :: Nat.toDigits 10 e.natAbs else Nat.toDigits 10 e.natAbs

/-- The numeral as it is written.  Without a fraction there is no point. -/
def text (n : Numeral) : List Char :=
  n.whole ++ (if n.fraction = [] then [] else '.' :: n.fraction) ++ exponentText n.exponent

/-- The number before the exponent is applied. -/
def mantissa (n : Numeral) : ℚ :=
  valueIn 10 n.whole + valueIn 10 n.fraction / 10 ^ n.fraction.length

/-- The rational that the numeral denotes. -/
def value (n : Numeral) : ℚ := n.mantissa * 10 ^ n.exponent.getD 0

/-- The numeral is one that the conversion `%g` writes: the scientific notation is for numbers
that are below `10 ^ (-4)` or have more digits than the precision, and starts with one digit
that is not zero. -/
structure IsGeneral (precision : ℕ) (n : Numeral) : Prop where
  plain_iff : n.exponent = none ↔ n.value = 0 ∨ 1 / 10000 ≤ n.value ∧ n.value < 10 ^ precision
  scientific : n.exponent ≠ none → ∃ c, n.whole = [c] ∧ c ≠ '0'
  significant : ((n.whole ++ n.fraction).dropWhile (· == '0')).length ≤ precision

section Lemmas

variable (n : Numeral)

theorem isDigitIn_of_mem_whole : ∀ c ∈ n.whole, isDigitIn 10 c = true := fun c hc =>
  List.all_eq_true.mp n.digits c (List.mem_append_left _ hc)

theorem isDigitIn_of_mem_fraction : ∀ c ∈ n.fraction, isDigitIn 10 c = true := fun c hc =>
  List.all_eq_true.mp n.digits c (List.mem_append_right _ hc)

theorem point_notMem_whole : '.' ∉ n.whole := fun h =>
  absurd (n.isDigitIn_of_mem_whole '.' h) (by decide)

theorem point_notMem_exponentText (e : Option ℤ) : '.' ∉ exponentText e := by
  cases e with
  | none => exact List.not_mem_nil
  | some e =>
    have hdigits : '.' ∉ Nat.toDigits 10 e.natAbs := fun h =>
      absurd (Nat.isDigit_of_mem_toDigits (by decide) (by decide) h) (by decide)
    intro h
    rw [exponentText, List.mem_cons, List.mem_cons] at h
    obtain h | h | h := h
    · exact absurd h (by decide)
    · split_ifs at h <;> exact absurd h (by decide)
    · split_ifs at h
      · rw [List.mem_cons] at h
        exact h.elim (by decide) hdigits
      · exact hdigits h

/-- Without a fraction there is no point in the text. -/
theorem point_notMem_text (hf : n.fraction = []) : '.' ∉ n.text := by
  rw [text, if_pos hf, List.append_nil, List.mem_append, not_or]
  exact ⟨n.point_notMem_whole, point_notMem_exponentText _⟩

/-- The text with a fraction, cut at the point. -/
theorem text_of_fraction (hf : n.fraction ≠ []) :
    n.text = n.whole ++ '.' :: (n.fraction ++ exponentText n.exponent) := by
  rw [text, if_neg hf, List.append_assoc, List.cons_append]

theorem idxOf_text (hf : n.fraction ≠ []) : n.text.idxOf '.' = n.whole.length := by
  rw [n.text_of_fraction hf, List.idxOf_append_of_notMem n.point_notMem_whole,
    List.idxOf_cons_self, Nat.add_zero]

theorem drop_text (hf : n.fraction ≠ []) :
    n.text.drop (n.whole.length + 1) = n.fraction ++ exponentText n.exponent := by
  rw [n.text_of_fraction hf, ← List.drop_drop, List.drop_left, List.drop_one,
    List.tail_cons]

theorem fraction_lt_one : (valueIn 10 n.fraction : ℚ) / 10 ^ n.fraction.length < 1 := by
  rw [div_lt_one (by positivity)]
  exact_mod_cast valueIn_lt n.isDigitIn_of_mem_fraction

/-- The digits before the point are the integer part. -/
theorem floor_mantissa : ⌊n.mantissa⌋ = valueIn 10 n.whole := by
  have hfraction : ⌊(valueIn 10 n.fraction : ℚ) / 10 ^ n.fraction.length⌋ = 0 :=
    Int.floor_eq_zero_iff.mpr ⟨by positivity, n.fraction_lt_one⟩
  rw [mantissa, Int.floor_natCast_add, hfraction, add_zero]

theorem value_nonneg : 0 ≤ n.value := by
  unfold value mantissa
  positivity

theorem value_of_plain (hn : n.exponent = none) : n.value = n.mantissa := by
  rw [value, hn, Option.getD_none, zpow_zero, mul_one]

/-- **The integer part and the fraction of a plain numeral**, each multiplied with `base` and
rounded down, add up. -/
theorem floor_mul_mantissa (base : ℕ) :
    ⌊(base : ℚ) * n.mantissa⌋ =
      base * valueIn 10 n.whole + base * valueIn 10 n.fraction / 10 ^ n.fraction.length := by
  have hsplit : (base : ℚ) * n.mantissa = ((base * valueIn 10 n.whole : ℕ) : ℚ) +
      ((base * valueIn 10 n.fraction : ℕ) : ℤ) / ((10 ^ n.fraction.length : ℕ) : ℚ) := by
    rw [mantissa]
    push_cast
    ring
  rw [hsplit, Int.floor_natCast_add, Rat.floor_intCast_div_natCast]
  push_cast
  rfl

end Lemmas

end Numeral

end Decimals
end FpgaEthash
