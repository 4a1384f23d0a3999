import FpgaEthash.Arithmetic.Decimals
import FpgaEthash.Computation.Throwing
import FpgaEthash.Devcore.CommonData

/-!
# The target of a difficulty

`getTargetFromDiff` multiplies the target of difficulty 1 with the reciprocal of the
difficulty.  The product is to be exact, so the reciprocal is taken apart: its integer part is
multiplied as it is, and its fraction is cut out of the printed text, as a number of digits over
a power of ten.

That is right for a text without an exponent (`targetProduct_of_plain`).  A reciprocal below
`10 ^ (-4)` is printed in the scientific notation.  Then the digits after the point have an `e`
behind them, and boost's reader throws (`targetProduct_of_scientific`); and if there is no point,
nothing but the integer part is multiplied, which is zero.

The arithmetic of `double` and its texts are given by `Doubles`.
-/

namespace FpgaEthash
namespace Devcore

open Decimals HexDigits Throwing

/-! ## Boost's integers -/

/-- What the functions of `cpp_int` throw `std::runtime_error` for. -/
inductive RuntimeError where
  | unexpectedCharacter
  | negativeHex
  deriving DecidableEq, Repr

/-- The digits of an integer.  A leading `0` stands for octal, and `0x` for hexadecimal. -/
def BigInteger.digits? : StdString → Option ℕ
  | '0' :: 'x' :: s => readIn 16 s
  | '0' :: 'X' :: s => readIn 16 s
  | '0' :: s => readIn 8 s
  | s => readIn 10 s

/-- `BigInteger(std::string)`.  An empty text is zero. -/
def BigInteger.ofString (s : StdString) : Except RuntimeError ℤ :=
  let isneg := s.head? = some '-'
  match BigInteger.digits? (if isneg then s.tail else s) with
  | none => .error .unexpectedCharacter
  | some n => .ok (if isneg then -n else n)

/-- A text that starts as a decimal number is read as one. -/
theorem BigInteger.ofString_of_decimal {s : StdString}
    (hhead : ∀ c ∈ s.head?, c ≠ '0' ∧ c ≠ '-') :
    BigInteger.ofString s =
      match readIn 10 s with
      | none => .error .unexpectedCharacter
      | some n => .ok n := by
  have hsign : ¬ s.head? = some '-' := fun h => (hhead '-' h).2 rfl
  have hdigits : BigInteger.digits? s = readIn 10 s := by
    cases s with
    | nil => rfl
    | cons c s =>
      have hc : c ≠ '0' := (hhead c rfl).1
      unfold BigInteger.digits?
      split
      all_goals
        first
        | rfl
        | exact absurd (List.cons.inj ‹_›).1 hc
  rw [BigInteger.ofString]
  simp only [if_neg hsign, hdigits]

/-! ## The function -/

/-- What the function takes from the arithmetic of `double`: `1 / diff`, and the text that
`boost::lexical_cast` writes. -/
structure Doubles where
  recip : ℚ → ℚ
  text : ℚ → StdString

/-- The target of difficulty 1. -/
abbrev targetBase : ℕ := 0x00000000ffff0000000000000000000000000000000000000000000000000000

/-- `BigInteger(double)`. -/
def truncate (x : ℚ) : ℤ := x.num.tdiv x.den

/-- The product with the fraction of a number, cut out of its text behind the point. -/
def decimalProduct (sdiff : StdString) (offset : ℕ) : Except RuntimeError ℤ := do
  let precision := sdiff.length - 1 - offset
  let decimals := (sdiff.drop (offset + 1)).dropWhile (· == '0')
  let decimalDivisor := StdString.resize ['1'] (precision + 1) '0'
  let multiplier ← BigInteger.ofString decimals
  let divisor ← BigInteger.ofString decimalDivisor
  return (targetBase * multiplier).tdiv divisor

/-- The target as a number. -/
def targetProduct (dbl : Doubles) (diff : ℚ) : Except RuntimeError ℤ :=
  if diff = 0 then
    .ok 0xffffffffffffffffffffffffffffffffffffffffffffffffffffffffffffffff
  else
    let product := targetBase * truncate (dbl.recip diff)
    let sdiff := dbl.text (dbl.recip diff)
    let offset := sdiff.idxOf '.'
    if offset < sdiff.length then do
      let decimalproduct ← decimalProduct sdiff offset
      return product + decimalproduct
    else .ok product

/-- The target as a text: 64 digits, in lower case. -/
def targetText (product : ℤ) (pre : HexPrefix) : Except RuntimeError StdString :=
  if product < 0 then .error .negativeHex
  else .ok ((pre.prepend (hexField 64 product.toNat)).map Char.toLower)

/-- `getTargetFromDiff`. -/
def getTargetFromDiff (dbl : Doubles) (diff : ℚ) (pre : HexPrefix) :
    Except RuntimeError StdString := do
  let product ← targetProduct dbl diff
  targetText product pre

/-! ## What is printed -/

/-- The numeral that is printed for the reciprocal of a difficulty.  Division rounds, but not
across a number that is a `double`; and printing does not change the integer part. -/
structure Prints (dbl : Doubles) (diff : ℚ) (n : Numeral) : Prop where
  general : n.IsGeneral 17
  text : dbl.text (dbl.recip diff) = n.text
  quotient : 1 / 10000 ≤ diff → 0 ≤ dbl.recip diff ∧ dbl.recip diff ≤ 10000
  floor : ⌊n.value⌋ = ⌊dbl.recip diff⌋

section Printed

variable {dbl : Doubles} {diff : ℚ} {n : Numeral}

theorem truncate_of_nonneg {x : ℚ} (hx : 0 ≤ x) : truncate x = ⌊x⌋ := by
  rw [truncate, Int.tdiv_eq_ediv_of_nonneg (Rat.num_nonneg.mpr hx)]
  exact (Rat.floor_def x).symm

theorem Prints.ne_zero (hdiff : 1 / 10000 ≤ diff) : diff ≠ 0 := by
  rintro rfl
  norm_num at hdiff

/-- The integer part that is multiplied is that of the numeral. -/
theorem Prints.truncate_eq (hn : Prints dbl diff n) (hdiff : 1 / 10000 ≤ diff) :
    truncate (dbl.recip diff) = ⌊n.value⌋ := by
  rw [truncate_of_nonneg (hn.quotient hdiff).1, hn.floor]

theorem Prints.value_lt (hn : Prints dbl diff n) (hdiff : 1 / 10000 ≤ diff) :
    n.value < 10001 := by
  have hfloor : ⌊n.value⌋ ≤ 10000 := by
    rw [hn.floor]
    refine Int.floor_le_iff.mpr ((hn.quotient hdiff).2.trans_lt ?_)
    norm_num
  have hlt := Int.lt_floor_add_one n.value
  have hcast : (⌊n.value⌋ : ℚ) ≤ 10000 := by exact_mod_cast hfloor
  linarith

/-- The scientific notation is only for reciprocals below `10 ^ (-4)`. -/
theorem Prints.value_lt_of_scientific (hn : Prints dbl diff n) (hdiff : 1 / 10000 ≤ diff)
    (hexp : n.exponent ≠ none) : n.value ≠ 0 ∧ n.value < 1 / 10000 := by
  rw [ne_eq, hn.general.plain_iff, not_or] at hexp
  refine ⟨hexp.1, not_le.mp fun hle => hexp.2 ⟨hle, ?_⟩⟩
  have hlt := hn.value_lt hdiff
  norm_num
  linarith

/-! ## The digits after the point -/

/-- The first character after the leading zeros is not a zero. -/
theorem ne_zero_of_mem_head?_dropWhile {s : StdString} {c : Char}
    (hc : c ∈ (s.dropWhile (· == '0')).head?) : c ≠ '0' := by
  induction s with
  | nil => cases hc
  | cons a s ih =>
    rw [List.dropWhile_cons] at hc
    split_ifs at hc with ha
    · exact ih hc
    · obtain rfl := Option.some.inj hc
      exact fun h => ha (beq_iff_eq.mpr h)

theorem ofString_decimals {s : StdString} (h : ∀ c ∈ s, isDigitIn 10 c = true) :
    BigInteger.ofString (s.dropWhile (· == '0')) = .ok (valueIn 10 s) := by
  have hdrop : ∀ c ∈ s.dropWhile (· == '0'), isDigitIn 10 c = true := fun c hc =>
    h c ((List.dropWhile_sublist _).mem hc)
  rw [BigInteger.ofString_of_decimal, readIn_of_forall hdrop, valueIn_dropWhile_zero]
  intro c hc
  refine ⟨ne_zero_of_mem_head?_dropWhile hc, ?_⟩
  rintro rfl
  exact absurd (hdrop '-' (List.mem_of_mem_head? hc)) (by decide)

theorem ofString_divisor (k : ℕ) :
    BigInteger.ofString (StdString.resize ['1'] (k + 1) '0') = .ok (10 ^ k) := by
  have htext : StdString.resize ['1'] (k + 1) '0' = ['1'] ++ List.replicate k '0' :=
    StdString.resize_of_length_le (Nat.le_add_left 1 k) '0'
  have hzero : isDigitIn 10 '0' = true := by decide
  have hdigits : ∀ c ∈ ['1'] ++ List.replicate k '0', isDigitIn 10 c = true := by
    rw [List.forall_mem_append, List.forall_mem_singleton]
    exact ⟨by decide, fun c hc => List.eq_of_mem_replicate hc ▸ hzero⟩
  have hvalue : valueIn 10 (['1'] ++ List.replicate k '0') = 10 ^ k := by
    rw [valueIn_append, valueIn_replicate_zero, List.length_replicate, Nat.add_zero]
    exact Nat.one_mul _
  rw [htext, BigInteger.ofString_of_decimal, readIn_of_forall hdigits, hvalue]
  · exact congrArg Except.ok (Nat.cast_pow 10 k)
  · intro c hc
    obtain rfl := Option.some.inj hc
    decide

/-- An exponent behind the digits is not read. -/
theorem ofString_scientific {s t : StdString} (h : ∀ c ∈ s, isDigitIn 10 c = true) :
    BigInteger.ofString ((s ++ 'e' :: t).dropWhile (· == '0')) = .error .unexpectedCharacter := by
  have htext : (s ++ 'e' :: t).dropWhile (· == '0') = s.dropWhile (· == '0') ++ 'e' :: t := by
    rw [List.dropWhile_append]
    split_ifs with hnil
    · rw [List.isEmpty_iff.mp hnil]
      rfl
    · rfl
  have hread : readIn 10 (s.dropWhile (· == '0') ++ 'e' :: t) = none :=
    readIn_eq_none (List.mem_append_right _ List.mem_cons_self) (by decide)
  rw [BigInteger.ofString_of_decimal, htext, hread]
  intro c hc
  refine ⟨ne_zero_of_mem_head?_dropWhile hc, ?_⟩
  rintro rfl
  -- the first character is a digit or the `e`
  rw [htext] at hc
  cases hs : s.dropWhile (· == '0') with
  | nil =>
    rw [hs] at hc
    exact absurd (Option.some.inj hc) (by decide)
  | cons a rest =>
    rw [hs] at hc
    obtain rfl := Option.some.inj hc
    have hmem : '-' ∈ s := (List.dropWhile_sublist _).mem (hs ▸ List.mem_cons_self)
    exact absurd (h '-' hmem) (by decide)

/-! ## The product -/

theorem targetProduct_of_no_point (hn : Prints dbl diff n) (hdiff : 1 / 10000 ≤ diff)
    (hf : n.fraction = []) : targetProduct dbl diff = .ok (targetBase * ⌊n.value⌋) := by
  have hpoint : ¬ n.text.idxOf '.' < n.text.length := by
    rw [List.idxOf_lt_length_iff]
    exact n.point_notMem_text hf
  rw [targetProduct, if_neg (Prints.ne_zero hdiff)]
  simp only [hn.text, if_neg hpoint, hn.truncate_eq hdiff]

theorem targetProduct_of_point (hn : Prints dbl diff n) (hdiff : 1 / 10000 ≤ diff)
    (hf : n.fraction ≠ []) :
    targetProduct dbl diff = do
      let decimalproduct ← decimalProduct n.text n.whole.length
      return targetBase * ⌊n.value⌋ + decimalproduct := by
  have hoffset := n.idxOf_text hf
  have hpoint : n.text.idxOf '.' < n.text.length := by
    rw [List.idxOf_lt_length_iff, n.text_of_fraction hf]
    exact List.mem_append_right _ List.mem_cons_self
  rw [targetProduct, if_neg (Prints.ne_zero hdiff)]
  simp only [hn.text, if_pos hpoint, hn.truncate_eq hdiff]
  rw [hoffset]

/-- **A text without an exponent gives the exact product**, rounded down. -/
theorem targetProduct_of_plain (hn : Prints dbl diff n) (hdiff : 1 / 10000 ≤ diff)
    (hexp : n.exponent = none) :
    targetProduct dbl diff = .ok ⌊(targetBase : ℚ) * n.value⌋ := by
  have hvalue := n.value_of_plain hexp
  by_cases hf : n.fraction = []
  · rw [targetProduct_of_no_point hn hdiff hf, hvalue, n.floor_mul_mantissa, n.floor_mantissa, hf]
    simp [valueIn]
  · have hdrop := n.drop_text hf
    rw [hexp, Numeral.exponentText, List.append_nil] at hdrop
    have hprecision : n.text.length - 1 - n.whole.length = n.fraction.length := by
      rw [n.text_of_fraction hf, hexp, Numeral.exponentText, List.append_nil, List.length_append,
        List.length_cons]
      omega
    have hdecimal : decimalProduct n.text n.whole.length =
        .ok (targetBase * valueIn 10 n.fraction / 10 ^ n.fraction.length) := by
      rw [decimalProduct, hdrop, hprecision, ofString_decimals n.isDigitIn_of_mem_fraction,
        ofString_divisor]
      exact congrArg Except.ok (Int.tdiv_eq_ediv_of_nonneg (by positivity))
    rw [targetProduct_of_point hn hdiff hf, hdecimal, hvalue, n.floor_mul_mantissa,
      n.floor_mantissa]
    rfl

/-- **A text with a point and an exponent is thrown back.** -/
theorem targetProduct_of_scientific (hn : Prints dbl diff n) (hdiff : 1 / 10000 ≤ diff)
    (hexp : n.exponent ≠ none) (hf : n.fraction ≠ []) :
    targetProduct dbl diff = .error .unexpectedCharacter := by
  obtain ⟨e, he⟩ := Option.ne_none_iff_exists'.mp hexp
  have hdrop := n.drop_text hf
  rw [he, Numeral.exponentText] at hdrop
  rw [targetProduct_of_point hn hdiff hf, decimalProduct, hdrop,
    ofString_scientific n.isDigitIn_of_mem_fraction]
  rfl

/-! ## The text of the target -/

/-- A product of at most 256 bits is written with 64 digits. -/
theorem getTargetFromDiff_of_product {p : ℕ} (hp : p < 16 ^ 64)
    (hproduct : targetProduct dbl diff = .ok p) :
    getTargetFromDiff dbl diff .add = .ok ('0' :: 'x' :: hexForm 64 p) := by
  have hdigits := isHexDigit_of_mem_hexForm 64 p
  have hlower : (hexForm 64 p).map Char.toLower = hexForm 64 p := by
    rw [← hexForm_value hdigits, length_hexForm, value_hexForm hp]
  rw [getTargetFromDiff, hproduct]
  show targetText p .add = _
  rw [targetText, if_neg (not_lt.mpr (Int.natCast_nonneg p)), Int.toNat_natCast,
    hexField_eq_hexForm (by decide) hp]
  exact congrArg (fun digits => Except.ok ('0' :: 'x' :: digits)) hlower

/-- The target is `0x` and 64 digits that stand for the product with `q`, rounded down. -/
def IsTarget (q : ℚ) (target : StdString) : Prop :=
  ∃ digits, target = '0' :: 'x' :: digits ∧ digits.length = 64 ∧
    (∀ c ∈ digits, IsHexDigit c) ∧ (HexDigits.value digits : ℤ) = ⌊(targetBase : ℚ) * q⌋

/-- The product with a numeral that is printed has at most 256 bits. -/
theorem Prints.exists_floor_eq (hn : Prints dbl diff n) (hdiff : 1 / 10000 ≤ diff) :
    ∃ p : ℕ, ⌊(targetBase : ℚ) * n.value⌋ = p ∧ p < 16 ^ 64 := by
  have hnonneg : 0 ≤ ⌊(targetBase : ℚ) * n.value⌋ :=
    Int.floor_nonneg.mpr (mul_nonneg (Nat.cast_nonneg _) n.value_nonneg)
  obtain ⟨p, hp⟩ := Int.eq_ofNat_of_zero_le hnonneg
  refine ⟨p, hp, ?_⟩
  have hle := Int.floor_le ((targetBase : ℚ) * n.value)
  rw [hp, Int.cast_natCast] at hle
  have hlt : (targetBase : ℚ) * n.value < (targetBase : ℚ) * 10001 :=
    mul_lt_mul_of_pos_left (hn.value_lt hdiff) (by norm_num)
  have hcast : (p : ℚ) < ((16 ^ 64 : ℕ) : ℚ) := by
    refine (hle.trans_lt hlt).trans_le ?_
    norm_num
  exact_mod_cast hcast

/-- **The target of a difficulty is right** exactly if its reciprocal is printed as zero or as
`0.0001` at least, or else as a single digit with an exponent that leaves nothing of the
product. -/
theorem getTargetFromDiff_isTarget_iff (hn : Prints dbl diff n) (hdiff : 1 / 10000 ≤ diff) :
    (∃ target, getTargetFromDiff dbl diff .add = .ok target ∧ IsTarget n.value target) ↔
      n.value = 0 ∨ 1 / 10000 ≤ n.value ∨ n.fraction = [] ∧ targetBase * n.value < 1 := by
  obtain ⟨p, hp, hlt⟩ := hn.exists_floor_eq hdiff
  have htarget : IsTarget n.value ('0' :: 'x' :: hexForm 64 p) :=
    ⟨_, rfl, length_hexForm 64 p, isHexDigit_of_mem_hexForm 64 p, by rw [value_hexForm hlt, hp]⟩
  by_cases hexp : n.exponent = none
  · -- plain notation
    have hproduct := targetProduct_of_plain hn hdiff hexp
    rw [hp] at hproduct
    refine iff_of_true ⟨_, getTargetFromDiff_of_product hlt hproduct, htarget⟩ ?_
    exact (hn.general.plain_iff.mp hexp).imp_right fun h => Or.inl h.1
  · -- scientific notation
    obtain ⟨hne, hsmall⟩ := hn.value_lt_of_scientific hdiff hexp
    rw [or_iff_right hne, or_iff_right (not_le.mpr hsmall)]
    by_cases hf : n.fraction = []
    · have hfloor : ⌊n.value⌋ = 0 :=
        Int.floor_eq_zero_iff.mpr ⟨n.value_nonneg, hsmall.trans (by norm_num)⟩
      have hproduct := targetProduct_of_no_point hn hdiff hf
      rw [hfloor, mul_zero] at hproduct
      rw [getTargetFromDiff_of_product (Nat.pow_pos (by decide)) hproduct, and_iff_right hf]
      constructor
      · rintro ⟨target, htext, digits, hdigits, -, -, hvalue⟩
        rw [← Except.ok.inj htext] at hdigits
        rw [← (List.cons.inj (List.cons.inj hdigits).2).2, value_hexForm (Nat.pow_pos (by decide))]
          at hvalue
        exact (Int.floor_eq_zero_iff.mp hvalue.symm).2
      · intro hone
        have hzero : ⌊(targetBase : ℚ) * n.value⌋ = 0 := Int.floor_eq_zero_iff.mpr
          ⟨mul_nonneg (Nat.cast_nonneg _) n.value_nonneg, hone⟩
        obtain rfl : p = 0 := by
          rw [hp] at hzero
          exact_mod_cast hzero
        exact ⟨_, rfl, htarget⟩
    · refine iff_of_false ?_ fun h => hf h.1
      rintro ⟨target, htext, -⟩
      rw [getTargetFromDiff, targetProduct_of_scientific hn hdiff hexp hf] at htext
      cases htext

end Printed

/-- A division with this result. -/
def Doubles.giving (x : ℚ) (n : Numeral) : Doubles := ⟨fun _ => x, fun _ => n.text⟩

theorem prints_giving {x : ℚ} {n : Numeral} (diff : ℚ) (hgeneral : n.IsGeneral 17)
    (hx : 0 ≤ x ∧ x ≤ 10000) (hfloor : ⌊n.value⌋ = ⌊x⌋) :
    Prints (Doubles.giving x n) diff n :=
  ⟨hgeneral, rfl, fun _ => hx, hfloor⟩

theorem prints_scientific {x : ℚ} {n : Numeral} (diff : ℚ) (hexp : n.exponent ≠ none)
    (hwhole : ∃ c, n.whole = [c] ∧ c ≠ '0')
    (hsignificant : ((n.whole ++ n.fraction).dropWhile (· == '0')).length ≤ 17)
    (hvalue : 0 < n.value ∧ n.value < 1 / 10000) (hx : 0 ≤ x ∧ x < 1) :
    Prints (Doubles.giving x n) diff n := by
  have hfloor : ⌊n.value⌋ = 0 :=
    Int.floor_eq_zero_iff.mpr ⟨hvalue.1.le, hvalue.2.trans (by norm_num)⟩
  refine prints_giving diff ⟨iff_of_false hexp ?_, fun _ => hwhole, hsignificant⟩
    ⟨hx.1, hx.2.le.trans (by norm_num)⟩ (hfloor.trans (Int.floor_eq_zero_iff.mpr hx).symm)
  rintro (hzero | ⟨hle, -⟩)
  · exact hvalue.1.ne' hzero
  · exact absurd hvalue.2 (not_lt.mpr hle)

/-- `0.25`, which is printed for the reciprocal of 4. -/
def quarter : Numeral where
  whole := ['0']
  fraction := ['2', '5']

theorem value_quarter : quarter.value = 1 / 4 := by
  have hwhole : valueIn 10 quarter.whole = 0 := by decide
  have hfraction : valueIn 10 quarter.fraction = 25 := by decide
  rw [quarter.value_of_plain rfl, Numeral.mantissa, hwhole, hfraction]
  norm_num [quarter]

theorem prints_quarter : Prints (Doubles.giving (1 / 4) quarter) 4 quarter := by
  refine prints_giving 4 ⟨?_, fun h => absurd rfl h, by decide⟩ (by norm_num)
    (congrArg Int.floor value_quarter)
  rw [value_quarter]
  exact iff_of_true rfl (by norm_num)

/-- The target of difficulty 4 is right. -/
theorem getTargetFromDiff_four :
    ∃ target, getTargetFromDiff (Doubles.giving (1 / 4) quarter) 4 .add = .ok target ∧
      IsTarget quarter.value target := by
  refine (getTargetFromDiff_isTarget_iff prints_quarter (by norm_num)).mpr (Or.inr (Or.inl ?_))
  rw [value_quarter]
  norm_num

/-- `1.0000000000000001e-05`, which is printed for the reciprocal of 100000. -/
def hundredThousandth : Numeral where
  whole := ['1']
  fraction := List.replicate 15 '0' ++ ['1']
  exponent := some (-5)

theorem value_hundredThousandth : hundredThousandth.value = (1 + 1 / 10 ^ 16) / 100000 := by
  have hwhole : valueIn 10 hundredThousandth.whole = 1 := by decide
  have hfraction : valueIn 10 hundredThousandth.fraction = 1 := by decide
  rw [Numeral.value, Numeral.mantissa, hwhole, hfraction]
  norm_num [hundredThousandth]

theorem prints_hundredThousandth :
    Prints (Doubles.giving (5902958103587057 / 2 ^ 69) hundredThousandth) 100000
      hundredThousandth := by
  refine prints_scientific _ (by decide) ⟨'1', rfl, by decide⟩ (by decide) ?_ (by norm_num)
  rw [value_hundredThousandth]
  norm_num

/-- `1e-08`, which is printed for the reciprocal of 100000000. -/
def hundredMillionth : Numeral where
  whole := ['1']
  exponent := some (-8)

theorem value_hundredMillionth : hundredMillionth.value = 1 / 100000000 := by
  have hwhole : valueIn 10 hundredMillionth.whole = 1 := by decide
  have hfraction : valueIn 10 hundredMillionth.fraction = 0 := by decide
  rw [Numeral.value, Numeral.mantissa, hwhole, hfraction]
  norm_num [hundredMillionth]

theorem prints_hundredMillionth :
    Prints (Doubles.giving (3022314549036573 / 2 ^ 78) hundredMillionth) 100000000
      hundredMillionth := by
  refine prints_scientific _ (by decide) ⟨'1', rfl, by decide⟩ (by decide) ?_ (by norm_num)
  rw [value_hundredMillionth]
  norm_num

/-- Two difficulties whose reciprocals are printed in the scientific notation: one has no
target, and one the target zero. -/
theorem scientific_target_lost :
    let thousand := Doubles.giving (5902958103587057 / 2 ^ 69) hundredThousandth
    let million := Doubles.giving (3022314549036573 / 2 ^ 78) hundredMillionth
    (Prints thousand 100000 hundredThousandth ∧
        getTargetFromDiff thousand 100000 .add = .error .unexpectedCharacter) ∧
      Prints million 100000000 hundredMillionth ∧
        getTargetFromDiff million 100000000 .add = .ok ('0' :: 'x' :: List.replicate 64 '0') ∧
        2 ^ 196 < ⌊(targetBase : ℚ) * hundredMillionth.value⌋ := by
  intro thousand million
  refine ⟨⟨prints_hundredThousandth, ?_⟩, prints_hundredMillionth, ?_, ?_⟩
  · decide +kernel
  · decide +kernel
  · rw [value_hundredMillionth]
    norm_num

end Devcore
end FpgaEthash
