import FpgaEthash.Devcore.StdString
import Mathlib.Data.Int.Notation

/-!
# Percent decoding

`url_decode` of `PoolURI.cpp`.  The two characters after a `'%'` are given to a stream, which
extracts a number in base sixteen.  The stream skips white space, takes a sign and a `0x`, and stops
at the first character that is no digit, so it reads more than two digits (`isSome_extractHex_iff`
says which pairs); the decoder goes on behind the pair in any case.

The scan takes the escapes from left to right, each with the two characters behind it.  A string is
decoded if all its escapes can be read, and decoded as it should be if all of them are two digits.
-/

namespace FpgaEthash
namespace Pool

open Devcore HexDigits

/-! ## The function -/

/-- The digits that a stream extracts in base sixteen.  After a `0x` it needs a digit. -/
def streamDigits : StdString → StdString
  | '0' :: x :: s =>
    if x = 'x' ∨ x = 'X' then s.takeWhile fun c => decide (IsHexDigit c)
    else ('0' :: x :: s).takeWhile fun c => decide (IsHexDigit c)
  | s => s.takeWhile fun c => decide (IsHexDigit c)

/-- `is >> std::hex >> value`, on a stream of the text. -/
def extractHex (s : StdString) : Option ℤ :=
  let signed := takeSign (s.dropWhile isSpace)
  let digits := streamDigits signed.2
  let number : ℤ := if signed.1 then -(value digits : ℤ) else value digits
  if digits = [] then none
  else if number < -2147483648 ∨ 2147483647 < number then none
  else some number

/-- `static_cast<char>(value)`. -/
def toChar (value : ℤ) : Char := Char.ofNat (value % 256).toNat

/-- The loop of `url_decode`: the value returned, and what is in `out` afterwards. -/
def urlDecodeFrom (out : StdString) : StdString → Bool × StdString
  | [] => (true, out)
  | '%' :: a :: b :: rest =>
    match extractHex [a, b] with
    | some value => urlDecodeFrom (out ++ [toChar value]) rest
    | none => (false, out)
  | '%' :: _ => (false, out)
  | '+' :: rest => urlDecodeFrom (out ++ [' ']) rest
  | c :: rest => urlDecodeFrom (out ++ [c]) rest

/-- `url_decode`. -/
def urlDecode (s : StdString) : Bool × StdString := urlDecodeFrom [] s

/-! ## The pairs that a stream can read -/

/-- A digit and anything but the beginning of a prefix; or white space or a sign, and a digit. -/
def Readable (a b : Char) : Prop :=
  (IsHexDigit a ∧ ¬ (a = '0' ∧ (b = 'x' ∨ b = 'X'))) ∨
    ((isSpace a = true ∨ a = '+' ∨ a = '-') ∧ IsHexDigit b)

theorem takeWhile_isHexDigit_ne_nil {c : Char} {s : StdString} :
    ((c :: s).takeWhile fun c => decide (IsHexDigit c)) ≠ [] ↔ IsHexDigit c := by
  rw [List.takeWhile_cons]
  by_cases hc : IsHexDigit c
  · simp [hc]
  · simp [hc]

theorem streamDigits_singleton_ne_nil {c : Char} : streamDigits [c] ≠ [] ↔ IsHexDigit c := by
  have hone : streamDigits [c] = [c].takeWhile fun c => decide (IsHexDigit c) := by
    unfold streamDigits
    split
    · next h => exact absurd (congrArg List.length h) (by simp)
    · rfl
  rw [hone, takeWhile_isHexDigit_ne_nil]

theorem streamDigits_pair_ne_nil {a b : Char} :
    streamDigits [a, b] ≠ [] ↔ IsHexDigit a ∧ ¬ (a = '0' ∧ (b = 'x' ∨ b = 'X')) := by
  unfold streamDigits
  split
  · next x s h =>
      obtain ⟨rfl, rfl, rfl⟩ : a = '0' ∧ b = x ∧ [] = s := by simpa using h
      by_cases hx : b = 'x' ∨ b = 'X'
      · simp [hx]
      · rw [if_neg hx, takeWhile_isHexDigit_ne_nil]
        simp [hx]
  · next hne =>
      have ha : a ≠ '0' := fun h => hne b [] (by rw [h])
      rw [takeWhile_isHexDigit_ne_nil]
      simp [ha]

theorem takeSign_of_ne {c : Char} {s : StdString} (hminus : c ≠ '-') (hplus : c ≠ '+') :
    takeSign (c :: s) = (false, c :: s) := by
  unfold takeSign
  split
  · next h => exact absurd (List.cons.inj h).1 hminus
  · next h => exact absurd (List.cons.inj h).1 hplus
  · rfl

/-- After the white space and the sign, two characters leave digits if they are readable. -/
theorem streamDigits_takeSign_ne_nil {a b : Char} :
    streamDigits (takeSign ([a, b].dropWhile isSpace)).2 ≠ [] ↔ Readable a b := by
  by_cases hspace : isSpace a = true
  · have ha : ¬ IsHexDigit a := fun h => by
      rw [(ne_special_of_isHexDigit h).1] at hspace
      exact Bool.false_ne_true hspace
    rw [List.dropWhile_cons_of_pos hspace]
    -- The second character stands alone: a digit, or nothing is left.
    have hone : streamDigits (takeSign ([b].dropWhile isSpace)).2 ≠ [] ↔ IsHexDigit b := by
      by_cases hb : IsHexDigit b
      · obtain ⟨hns, hminus, hplus, -⟩ := ne_special_of_isHexDigit hb
        rw [List.dropWhile_cons_of_neg (by rw [hns]; exact Bool.false_ne_true),
          takeSign_of_ne hminus hplus]
        exact streamDigits_singleton_ne_nil
      · refine iff_of_false (fun hne => ?_) hb
        by_cases hbs : isSpace b = true
        · rw [List.dropWhile_cons_of_pos hbs] at hne
          exact hne rfl
        · rw [List.dropWhile_cons_of_neg hbs] at hne
          by_cases hsign : b = '-' ∨ b = '+'
          · rcases hsign with rfl | rfl
            · exact hne rfl
            · exact hne rfl
          · rw [not_or] at hsign
            rw [takeSign_of_ne hsign.1 hsign.2] at hne
            exact hb (streamDigits_singleton_ne_nil.mp hne)
    rw [hone, Readable]
    simp [ha, hspace]
  · rw [List.dropWhile_cons_of_neg hspace, Readable]
    by_cases hsign : a = '+' ∨ a = '-'
    · have ha : ¬ IsHexDigit a := fun h => by
        obtain ⟨-, hminus, hplus, -⟩ := ne_special_of_isHexDigit h
        exact hsign.elim hplus hminus
      have htake : (takeSign [a, b]).2 = [b] := by
        rcases hsign with rfl | rfl <;> rfl
      rw [htake, streamDigits_singleton_ne_nil]
      simp [ha, hsign]
    · obtain ⟨hplus, hminus⟩ := not_or.mp hsign
      rw [takeSign_of_ne hminus hplus, streamDigits_pair_ne_nil]
      simp [hspace, hplus, hminus]

theorem length_streamDigits_le (s : StdString) : (streamDigits s).length ≤ s.length := by
  have htake : ∀ t : StdString, (t.takeWhile fun c => decide (IsHexDigit c)).length ≤ t.length :=
    fun t => (List.takeWhile_sublist _).length_le
  unfold streamDigits
  split
  · next x s =>
      split_ifs
      · exact (htake s).trans (by simp only [List.length_cons]; omega)
      · exact htake _
  · exact htake _

/-- Two characters are in the range of an `int`, whatever they are. -/
theorem extractHex_pair {a b : Char} :
    extractHex [a, b] =
      if streamDigits (takeSign ([a, b].dropWhile isSpace)).2 = [] then none
      else some (if (takeSign ([a, b].dropWhile isSpace)).1 then
        -(value (streamDigits (takeSign ([a, b].dropWhile isSpace)).2) : ℤ)
        else value (streamDigits (takeSign ([a, b].dropWhile isSpace)).2)) := by
  have hlen : (streamDigits (takeSign ([a, b].dropWhile isSpace)).2).length ≤ 2 :=
    calc (streamDigits (takeSign ([a, b].dropWhile isSpace)).2).length
        ≤ (takeSign ([a, b].dropWhile isSpace)).2.length := length_streamDigits_le _
      _ ≤ ([a, b].dropWhile isSpace).length := length_takeSign_le _
      _ ≤ 2 := (List.dropWhile_sublist _).length_le
  have hvalue : value (streamDigits (takeSign ([a, b].dropWhile isSpace)).2) < 256 :=
    calc value (streamDigits (takeSign ([a, b].dropWhile isSpace)).2)
        < 16 ^ (streamDigits (takeSign ([a, b].dropWhile isSpace)).2).length := value_lt _
      _ ≤ 16 ^ 2 := Nat.pow_le_pow_right (by omega) hlen
  rw [extractHex]
  split_ifs <;> first | rfl | omega

/-- **What a stream of two characters reads.** -/
theorem isSome_extractHex_iff {a b : Char} : (extractHex [a, b]).isSome ↔ Readable a b := by
  rw [extractHex_pair, ← streamDigits_takeSign_ne_nil]
  split_ifs <;> simp_all

theorem extractHex_of_isHexDigit {a b : Char} (ha : IsHexDigit a) (hb : IsHexDigit b) :
    extractHex [a, b] = some (value [a, b] : ℤ) := by
  have hdigits : ∀ c ∈ [a, b], IsHexDigit c := by
    intro c hc
    rcases List.mem_cons.mp hc with rfl | hc
    · exact ha
    · rwa [List.mem_singleton.mp hc]
  have hstream : streamDigits [a, b] = [a, b] := by
    have htake : ([a, b].takeWhile fun c => decide (IsHexDigit c)) = [a, b] := by simp [ha, hb]
    unfold streamDigits
    split
    · next x s h =>
        obtain ⟨rfl, rfl, rfl⟩ : a = '0' ∧ b = x ∧ [] = s := by simpa using h
        obtain ⟨-, -, -, hx, hX⟩ := ne_special_of_isHexDigit hb
        rw [if_neg (not_or.mpr ⟨hx, hX⟩), htake]
    · exact htake
  rw [extractHex_pair, dropWhile_isSpace_of_isHexDigit hdigits, takeSign_of_isHexDigit hdigits,
    hstream]
  rfl

/-! ## The scan -/

/-- Every escape that the scan meets has two characters behind it, with the given property. -/
def Scans (P : Char → Char → Prop) : StdString → Prop
  | [] => True
  | '%' :: a :: b :: rest => P a b ∧ Scans P rest
  | '%' :: _ => False
  | _ :: rest => Scans P rest

/-- Every `'%'` is followed by two digits. -/
def WellFormed (s : StdString) : Prop :=
  ∀ front back, s = front ++ '%' :: back →
    ∃ a b rest, back = a :: b :: rest ∧ IsHexDigit a ∧ IsHexDigit b

/-- The string, with each escape replaced by its byte and each `'+'` by a space. -/
def decoded : StdString → StdString
  | '%' :: a :: b :: rest => Char.ofNat (value [a, b]) :: decoded rest
  | '+' :: rest => ' ' :: decoded rest
  | c :: rest => c :: decoded rest
  | [] => []

section

variable {P : Char → Char → Prop}

theorem scans_escape {a b : Char} {rest : StdString} :
    Scans P ('%' :: a :: b :: rest) ↔ P a b ∧ Scans P rest := by rw [Scans]

theorem not_scans_short {tail : StdString} (h : ∀ a b rest, tail = a :: b :: rest → False) :
    ¬ Scans P ('%' :: tail) := by
  rw [Scans]
  · exact id
  · exact h

theorem scans_cons_of_ne {c : Char} {rest : StdString} (hc : c ≠ '%') :
    Scans P (c :: rest) ↔ Scans P rest := by
  rw [Scans]
  · exact fun _ _ _ h _ => hc h
  · exact hc

end

/-- **What is decoded**: the strings whose escapes can all be read. -/
theorem urlDecodeFrom_eq_true_iff (out s : StdString) :
    (urlDecodeFrom out s).1 = true ↔ Scans Readable s := by
  fun_induction urlDecodeFrom out s with
  | case1 out => simp [Scans]
  | case2 out a b rest value hvalue ih =>
    have hread : Readable a b := isSome_extractHex_iff.mp (by rw [hvalue]; rfl)
    rw [ih, scans_escape, and_iff_right hread]
  | case3 out a b rest hnone =>
    have hread : ¬ Readable a b := fun h => by
      have hsome := isSome_extractHex_iff.mpr h
      rw [hnone] at hsome
      exact Bool.false_ne_true hsome
    rw [scans_escape]
    simp [hread]
  | case4 out tail hshort => exact iff_of_false Bool.false_ne_true (not_scans_short hshort)
  | case5 out rest ih => rw [ih, scans_cons_of_ne (by decide)]
  | case6 out c rest _ hpercent _ ih => rw [ih, scans_cons_of_ne hpercent]

/-- The scan meets every `'%'` of a well-formed string: none is hidden in an escape. -/
theorem wellFormed_iff_scans (s : StdString) :
    WellFormed s ↔ Scans (fun a b => IsHexDigit a ∧ IsHexDigit b) s := by
  have hpercent : ¬ IsHexDigit '%' := by decide
  induction s using Scans.induct with
  | case1 =>
    refine iff_of_true (fun front back h => ?_) trivial
    simp at h
  | case2 a b rest ih =>
    have hih : WellFormed rest ↔ Scans (fun a b => IsHexDigit a ∧ IsHexDigit b) rest := ih
    rw [scans_escape, ← hih]
    constructor
    · intro h
      obtain ⟨a', b', rest', hback, ha, hb⟩ := h [] _ rfl
      obtain ⟨rfl, rfl, -⟩ : a = a' ∧ b = b' ∧ rest = rest' := by simpa using hback
      exact ⟨⟨ha, hb⟩, fun front back hrest => h ('%' :: a :: b :: front) back (by simp [hrest])⟩
    · rintro ⟨⟨ha, hb⟩, hrest⟩ front back h
      rcases front with _ | ⟨x, _ | ⟨y, _ | ⟨z, front⟩⟩⟩
      · exact ⟨a, b, rest, (List.cons.inj h).2.symm, ha, hb⟩
      · obtain ⟨-, rfl, -⟩ : '%' = x ∧ a = '%' ∧ b :: rest = back := by simpa using h
        exact absurd ha hpercent
      · obtain ⟨-, -, rfl, -⟩ : '%' = x ∧ a = y ∧ b = '%' ∧ rest = back := by simpa using h
        exact absurd hb hpercent
      · obtain ⟨-, -, -, h⟩ : '%' = x ∧ a = y ∧ b = z ∧ rest = front ++ '%' :: back := by
          simpa using h
        exact hrest front back h
  | case3 tail hshort =>
    refine iff_of_false (fun h => ?_) (not_scans_short hshort)
    obtain ⟨a, b, rest, hback, -⟩ := h [] _ rfl
    exact hshort a b rest hback
  | case4 c rest _ hc ih =>
    have hih : WellFormed rest ↔ Scans (fun a b => IsHexDigit a ∧ IsHexDigit b) rest := ih
    rw [scans_cons_of_ne hc, ← hih]
    constructor
    · exact fun h front back hrest => h (c :: front) back (by simp [hrest])
    · intro h front back hs
      cases front with
      | nil => exact absurd (List.cons.inj hs).1 hc
      | cons c' front => exact h front back (List.cons.inj hs).2

theorem toChar_natCast {n : ℕ} (h : n < 256) : toChar n = Char.ofNat n := by
  rw [toChar]
  congr 1
  omega

/-- **What comes out**, when all escapes are two digits. -/
theorem urlDecodeFrom_of_scans {s : StdString}
    (h : Scans (fun a b => IsHexDigit a ∧ IsHexDigit b) s) (out : StdString) :
    urlDecodeFrom out s = (true, out ++ decoded s) := by
  induction s using decoded.induct generalizing out with
  | case1 a b rest ih =>
    obtain ⟨⟨ha, hb⟩, hrest⟩ := scans_escape.mp h
    have hvalue : value [a, b] < 256 := value_lt [a, b]
    rw [urlDecodeFrom, extractHex_of_isHexDigit ha hb]
    dsimp only
    rw [ih hrest, toChar_natCast hvalue, decoded, List.append_assoc, List.singleton_append]
  | case2 rest ih =>
    rw [urlDecodeFrom, ih ((scans_cons_of_ne (by decide)).mp h), decoded, List.append_assoc,
      List.singleton_append]
  | case3 c rest hescape hplus ih =>
    have hc : c ≠ '%' := fun hc => by
      rw [hc] at h
      exact not_scans_short (fun a b rest' => hescape a b rest' hc) h
    rw [urlDecodeFrom, ih ((scans_cons_of_ne hc).mp h), decoded, List.append_assoc,
      List.singleton_append]
    · exact hescape
    · exact hplus
    · exact hescape
    · exact hc
    · exact hplus
  | case4 => rw [urlDecodeFrom, decoded, List.append_nil]

/-- **Percent decoding.**  A string is decoded exactly if it is well formed, and then as it should
be, unless it is not well formed and yet each of its escapes can be read. -/
theorem urlDecode_correct_iff (s : StdString) :
    (((urlDecode s).1 = true ↔ WellFormed s) ∧
        ((urlDecode s).1 = true → (urlDecode s).2 = decoded s)) ↔
      WellFormed s ∨ ¬ Scans Readable s := by
  have hread : (urlDecode s).1 = true ↔ Scans Readable s := urlDecodeFrom_eq_true_iff [] s
  by_cases hwf : WellFormed s
  · have hdecode : urlDecode s = (true, decoded s) :=
      urlDecodeFrom_of_scans ((wellFormed_iff_scans s).mp hwf) []
    simp [hdecode, hwf]
  · rw [hread]
    simp only [hwf, iff_false, false_or]
    exact ⟨And.left, fun hnot => ⟨hnot, fun h => absurd h hnot⟩⟩

/-- Three escapes that are not two digits, and are read: a digit before another character, a
negative number, and a number after a blank. -/
theorem urlDecode_sloppy :
    urlDecode "%1g".toList = (true, [Char.ofNat 1]) ∧
      urlDecode "%-1".toList = (true, [Char.ofNat 255]) ∧
      urlDecode "% 7".toList = (true, [Char.ofNat 7]) ∧
      ¬ WellFormed "%1g".toList ∧ ¬ WellFormed "%-1".toList ∧ ¬ WellFormed "% 7".toList := by
  refine ⟨by decide, by decide, by decide, fun h => ?_, fun h => ?_, fun h => ?_⟩
  · obtain ⟨a, b, rest, hback, -, hb⟩ := h [] "1g".toList rfl
    obtain ⟨-, rfl, -⟩ : '1' = a ∧ 'g' = b ∧ [] = rest := by simpa using hback
    exact absurd hb (by decide)
  · obtain ⟨a, b, rest, hback, ha, -⟩ := h [] "-1".toList rfl
    obtain ⟨rfl, -, -⟩ : '-' = a ∧ '1' = b ∧ [] = rest := by simpa using hback
    exact absurd ha (by decide)
  · obtain ⟨a, b, rest, hback, ha, -⟩ := h [] " 7".toList rfl
    obtain ⟨rfl, -, -⟩ : ' ' = a ∧ '7' = b ∧ [] = rest := by simpa using hback
    exact absurd ha (by decide)

end Pool
end FpgaEthash
