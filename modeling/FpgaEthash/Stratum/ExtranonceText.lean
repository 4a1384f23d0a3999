import FpgaEthash.Stratum.Extranonce

/-!
# Extranonces that are no numerals

The text of an extranonce comes from the pool.  `processExtranonce` stores its length, cuts or
pads it to sixteen characters, and has `stoull` read these.  A text of at most sixteen digits is
set as it should be (`processExtranonce_of_isHexDigit`).  With any other text one of two things goes
wrong: `stoull` reads a number all the same, from the digits that follow white space, a sign or a
`0x` or that stand before something else; or it throws, when the length is already stored.

So all or nothing is set exactly for these numerals, and for unreadable texts that are as long as
the extranonce before (`allOrNothing_iff`).
-/

namespace FpgaEthash
namespace Stratum

open Devcore HexDigits

/-! ## What `stoull` cannot read -/

/-- After white space and a sign, no digit. -/
def Unreadable (s : StdString) : Prop :=
  ∀ c ∈ (takeSign (s.dropWhile isSpace)).2.head?, ¬ IsHexDigit c

theorem takeWhile_eq_nil_iff_head? {p : Char → Bool} {s : StdString} :
    s.takeWhile p = [] ↔ ∀ c ∈ s.head?, p c = false := by
  cases s with
  | nil => simp
  | cons c s => simp [List.takeWhile_cons]

theorem hexDigitsAt_eq_nil_iff (s : StdString) :
    hexDigitsAt s = [] ↔ ∀ c ∈ s.head?, ¬ IsHexDigit c := by
  have htake : ∀ t : StdString, t.takeWhile (fun c => decide (IsHexDigit c)) = [] ↔
      ∀ c ∈ t.head?, ¬ IsHexDigit c := fun t => by
    simp only [takeWhile_eq_nil_iff_head?, decide_eq_false_iff_not]
  rw [hexDigitsAt, htake]
  unfold skipHexPrefix
  split
  · next x d rest =>
      by_cases hmarked : (x = 'x' ∨ x = 'X') ∧ IsHexDigit d
      · -- Both sides fail: a digit follows the prefix, and the prefix starts with one.
        have hzero : IsHexDigit '0' := by decide
        simp [hmarked, hzero]
      · rw [if_neg hmarked]
  · rfl

theorem length_hexDigitsAt_le (s : StdString) : (hexDigitsAt s).length ≤ s.length := by
  have hskip : (skipHexPrefix s).length ≤ s.length := by
    unfold skipHexPrefix
    split
    · split_ifs <;> simp only [List.length_cons] <;> omega
    · exact le_rfl
  exact ((List.takeWhile_sublist _).length_le).trans hskip

/-- **Sixteen characters are never out of range**, so the only thing that can be wrong is that
there is no digit. -/
theorem stoull_eq_error_iff {s : StdString} (hlen : s.length ≤ 16) :
    (∃ e, stoull s = .error e) ↔ Unreadable s := by
  have hdigits : (hexDigitsAt (takeSign (s.dropWhile isSpace)).2).length ≤ 16 :=
    calc (hexDigitsAt (takeSign (s.dropWhile isSpace)).2).length
        ≤ (takeSign (s.dropWhile isSpace)).2.length := length_hexDigitsAt_le _
      _ ≤ (s.dropWhile isSpace).length := length_takeSign_le _
      _ ≤ s.length := (List.dropWhile_sublist _).length_le
      _ ≤ 16 := hlen
  have hvalue : value (hexDigitsAt (takeSign (s.dropWhile isSpace)).2) < 2 ^ 64 :=
    calc value (hexDigitsAt (takeSign (s.dropWhile isSpace)).2)
        < 16 ^ (hexDigitsAt (takeSign (s.dropWhile isSpace)).2).length := value_lt _
      _ ≤ 16 ^ 16 := Nat.pow_le_pow_right (by omega) hdigits
      _ = 2 ^ 64 := by norm_num
  rw [Unreadable, ← hexDigitsAt_eq_nil_iff, stoull]
  by_cases hnil : hexDigitsAt (takeSign (s.dropWhile isSpace)).2 = []
  · rw [if_pos hnil]
    exact ⟨fun _ => hnil, fun _ => ⟨_, rfl⟩⟩
  · rw [if_neg hnil, if_neg (by omega)]
    simp [hnil]

/-! ## All or nothing -/

/-- Either an exception, and the session is as before, or an extranonce of at most sixteen digits,
with their number and their value in front of zeros. -/
def AllOrNothing (enonce : StdString) (session : Session) : Prop :=
  match processExtranonce enonce session with
  | .error _ after =>
    after.extraNonce = session.extraNonce ∧
      after.extraNonceSizeBytes = session.extraNonceSizeBytes
  | .ok _ after =>
    (∀ c ∈ enonce, IsHexDigit c) ∧ enonce.length ≤ 16 ∧
      after.extraNonceSizeBytes.toNat = enonce.length ∧
      after.extraNonce = BitVec.ofNat 64 (value enonce) <<< (4 * (16 - enonce.length))

/-- A numeral is set. -/
theorem allOrNothing_of_isHexDigit {enonce : StdString} (hx : ∀ c ∈ enonce, IsHexDigit c)
    (hlen : enonce.length ≤ 16) (session : Session) : AllOrNothing enonce session := by
  rw [AllOrNothing, processExtranonce_of_isHexDigit hx hlen]
  refine ⟨hx, hlen, Nat.mod_eq_of_lt (by omega), ?_⟩
  dsimp only
  rw [show 64 - enonce.length * 4 = 4 * (16 - enonce.length) by omega]
  refine BitVec.eq_of_toNat_eq ?_
  rw [BitVec.toNat_shiftLeft, BitVec.toNat_ofNat, BitVec.toNat_ofNat, Nat.shiftLeft_eq,
    Nat.mod_mul_mod]

/-- **All or nothing** is set exactly for numerals of at most sixteen digits, and for texts that
cannot be read and are as long as the extranonce before. -/
theorem allOrNothing_iff (enonce : StdString) (session : Session) :
    AllOrNothing enonce session ↔
      ((∀ c ∈ enonce, IsHexDigit c) ∧ enonce.length ≤ 16) ∨
        (Unreadable (enonce.resize 16 '0') ∧
          session.extraNonceSizeBytes = BitVec.ofNat 32 enonce.length) := by
  have hread := stoull_eq_error_iff (s := enonce.resize 16 '0')
    (le_of_eq (StdString.length_resize ..))
  cases hstoull : stoull (enonce.resize 16 '0') with
  | error e =>
    have hthrows : processExtranonce enonce session = .error e
        { session with extraNonceSizeBytes := BitVec.ofNat 32 enonce.length } := by
      rw [processExtranonce, hstoull]
      rfl
    have hunreadable : Unreadable (enonce.resize 16 '0') := hread.mp ⟨e, hstoull⟩
    constructor
    · intro h
      rw [AllOrNothing, hthrows] at h
      exact .inr ⟨hunreadable, h.2.symm⟩
    · rintro (⟨hx, hlen⟩ | ⟨-, hsize⟩)
      · exact allOrNothing_of_isHexDigit hx hlen session
      · rw [AllOrNothing, hthrows]
        exact ⟨rfl, hsize.symm⟩
  | ok number =>
    have hsets : processExtranonce enonce session = .ok ()
        { session with
          extraNonceSizeBytes := BitVec.ofNat 32 enonce.length
          extraNonce := number } := by
      rw [processExtranonce, hstoull]
      rfl
    constructor
    · intro h
      rw [AllOrNothing, hsets] at h
      exact .inl ⟨h.1, h.2.1⟩
    · rintro (⟨hx, hlen⟩ | ⟨hunreadable, -⟩)
      · exact allOrNothing_of_isHexDigit hx hlen session
      · obtain ⟨e, he⟩ := hread.mpr hunreadable
        rw [hstoull] at he
        exact nomatch he

/-- A text that is refused with its length stored, and two that are accepted: one for its `0x`, and
one for its first digit. -/
theorem extranonce_not_all_or_nothing :
    processExtranonce "zz".toList {} = .error .invalidArgument { extraNonceSizeBytes := 2 } ∧
      processExtranonce "0x12".toList {} = .ok ()
        { extraNonceSizeBytes := 4, extraNonce := 0x12000000000000 } ∧
      processExtranonce "1g".toList {} = .ok ()
        { extraNonceSizeBytes := 2, extraNonce := 1 } ∧
      ¬ AllOrNothing "zz".toList {} ∧ ¬ AllOrNothing "0x12".toList {} ∧
      ¬ AllOrNothing "1g".toList {} := by
  refine ⟨rfl, rfl, rfl, fun h => ?_, fun h => ?_, fun h => ?_⟩
  · have hsize : (2 : BitVec 32) = 0 := h.2
    exact absurd hsize (by decide)
  · exact absurd (h.1 'x' (by decide)) (by decide)
  · exact absurd (h.1 'g' (by decide)) (by decide)

end Stratum
end FpgaEthash
