import FpgaEthash.Devcore.CommonData

/-!
# Hexadecimal text, with the counter of the code

`fromHex` walks its string with an `unsigned`, and compares that with a `size_t`.  Below
`2 ^ 32` characters there is no difference to walking the list, and the function is the
`fromHex` of `Devcore.CommonData` (`fromHexEnds_iff`).  From there on the counter is always
below the size: the loop has no way out but a bad character, and whatever the text says,
no byte string comes back (`not_fromHexEnds_ok`).

`toHex` has no such limit.  So a byte string of two gigabytes is written, and what is
written is never read.
-/

namespace FpgaEthash
namespace Devcore

open HexDigits

/-! ## The function -/

/-- `WhenError`. -/
inductive WhenError where
  | dontThrow
  | throw
  deriving DecidableEq, Repr

/-- `_s[i]`.  Behind the last character there is the terminating zero. -/
def charAt (s : StdString) (i : ℕ) : Char := s.getD i '\x00'

/-- How a bad character ends the call. -/
def onBadHexCharacter : WhenError → Except StdException (List Byte)
  | .throw => .error .badHexCharacter
  | .dontThrow => .ok []

/-- The loop of `fromHex` from index `i`, for at most `fuel` turns. -/
def fromHexFrom (s : StdString) (whenError : WhenError) :
    ℕ → BitVec 32 → List Byte → Option (Except StdException (List Byte))
  | 0, _, _ => none
  | fuel + 1, i, ret =>
    if i.toNat < s.length then
      match digitValue (charAt s i.toNat), digitValue (charAt s (i + 1).toNat) with
      | some h, some l =>
        fromHexFrom s whenError fuel (i + 2) (ret ++ [BitVec.ofNat 8 (h * 16 + l)])
      | _, _ => some (onBadHexCharacter whenError)
    else some (.ok ret)

/-- `unsigned s = (_s[0] == '0' && _s[1] == 'x') ? 2 : 0`. -/
def skipIndex (s : StdString) : BitVec 32 :=
  if charAt s 0 = '0' ∧ charAt s 1 = 'x' then 2 else 0

/-- `fromHex(_s, _throw)`, for at most `fuel` turns of its loop. -/
def fromHexRun (fuel : ℕ) (s : StdString) (whenError : WhenError) :
    Option (Except StdException (List Byte)) :=
  if s.length % 2 = 1 then
    match digitValue (charAt s (skipIndex s).toNat) with
    | some h => fromHexFrom s whenError fuel (skipIndex s + 1) [BitVec.ofNat 8 h]
    | none => some (onBadHexCharacter whenError)
  else fromHexFrom s whenError fuel (skipIndex s) []

/-- `fromHex(_s, _throw)` ends, and this is how. -/
def FromHexEnds (s : StdString) (whenError : WhenError)
    (result : Except StdException (List Byte)) : Prop :=
  ∃ fuel, fromHexRun fuel s whenError = some result

/-- `FixedHash(std::string)` ends, and this is the hash. -/
def FixedHash.OfStringEnds (N : ℕ) (s : StdString) (h : FixedHash N) : Prop :=
  ∃ b, FromHexEnds s .throw (.ok b) ∧ FixedHash.ofBytes N b = h

/-- A call ends at its first digit, or is its loop from some index on. -/
theorem fromHexRun_cases (s : StdString) (whenError : WhenError) :
    (∀ fuel, fromHexRun fuel s whenError = some (onBadHexCharacter whenError)) ∨
      ∃ i ret, ∀ fuel, fromHexRun fuel s whenError = fromHexFrom s whenError fuel i ret := by
  by_cases hodd : s.length % 2 = 1
  · cases hdigit : digitValue (charAt s (skipIndex s).toNat) with
    | none =>
      refine Or.inl fun fuel => ?_
      rw [fromHexRun, if_pos hodd, hdigit]
    | some h =>
      refine Or.inr ⟨skipIndex s + 1, [BitVec.ofNat 8 h], fun fuel => ?_⟩
      rw [fromHexRun, if_pos hodd, hdigit]
  · refine Or.inr ⟨skipIndex s, [], fun fuel => ?_⟩
    rw [fromHexRun, if_neg hodd]

/-! ## A string that the counter can walk -/

section Walk

variable {s : StdString} {whenError : WhenError}

theorem charAt_of_drop {i : ℕ} {c : Char} {rest : StdString} (h : s.drop i = c :: rest) :
    charAt s i = c := by
  have hget : s[i]? = some c := by
    rw [← List.head?_drop, h]
    rfl
  rw [charAt, List.getD_eq_getElem?_getD, hget, Option.getD_some]

/-- A pair of characters, and what follows. -/
theorem fromHexPairs_drop {i : ℕ} (hi : i + 1 < s.length) :
    fromHexPairs (s.drop i) =
      (digitValue (charAt s i)).bind fun h => (digitValue (charAt s (i + 1))).bind fun l =>
        (fromHexPairs (s.drop (i + 2))).map (BitVec.ofNat 8 (h * 16 + l) :: ·) := by
  have hlow : s.drop (i + 1) = s[i + 1] :: s.drop (i + 2) := List.drop_eq_getElem_cons hi
  have hhigh : s.drop i = s[i] :: s[i + 1] :: s.drop (i + 2) := by
    rw [List.drop_eq_getElem_cons (Nat.lt_of_succ_lt hi), hlow]
  rw [hhigh, fromHexPairs, charAt_of_drop hhigh, charAt_of_drop hlow]
  cases digitValue s[i] with
  | none => rfl
  | some h =>
    cases digitValue s[i + 1] with
    | none => rfl
    | some l => cases fromHexPairs (s.drop (i + 2)) <;> rfl

/-- **The loop reads pairs.** -/
theorem fromHexFrom_eq {fuel : ℕ} {i : BitVec 32} {ret : List Byte}
    (hlt : s.length < 2 ^ 32) (heven : (s.length - i.toNat) % 2 = 0)
    (hfuel : s.length - i.toNat < 2 * fuel) :
    fromHexFrom s whenError fuel i ret =
      some ((fromHexPairs (s.drop i.toNat)).elim (onBadHexCharacter whenError)
        fun b => .ok (ret ++ b)) := by
  induction fuel generalizing i ret with
  | zero => omega
  | succ fuel ih =>
    rw [fromHexFrom]
    by_cases hi : i.toNat < s.length
    · have hone : (i + 1).toNat = i.toNat + 1 := by
        rw [BitVec.toNat_add, show (1 : BitVec 32).toNat = 1 from rfl]
        omega
      have htwo : (i + 2).toNat = i.toNat + 2 := by
        rw [BitVec.toNat_add, show (2 : BitVec 32).toNat = 2 from rfl]
        omega
      rw [if_pos hi, hone, fromHexPairs_drop (by omega)]
      cases digitValue (charAt s i.toNat) with
      | none => rfl
      | some h =>
        cases digitValue (charAt s (i.toNat + 1)) with
        | none => rfl
        | some l =>
          dsimp only
          rw [ih (by omega) (by omega), htwo]
          cases fromHexPairs (s.drop (i.toNat + 2)) with
          | none => rfl
          | some b => simp
    · rw [if_neg hi, List.drop_of_length_le (by omega)]
      simp [fromHexPairs]

/-- What the test for `0x` finds. -/
theorem skip0x_eq_drop (s : StdString) :
    skip0x s = s.drop (skipIndex s).toNat ∧ (skip0x s).length % 2 = s.length % 2 := by
  unfold skipIndex
  by_cases h0x : charAt s 0 = '0' ∧ charAt s 1 = 'x'
  · rw [if_pos h0x]
    rcases s with _ | ⟨c, _ | ⟨d, rest⟩⟩
    · exact absurd h0x.1 (by decide)
    · exact absurd (show '\x00' = 'x' from h0x.2) (by decide)
    · obtain ⟨rfl, rfl⟩ : c = '0' ∧ d = 'x' := h0x
      exact ⟨rfl, (Nat.add_mod_right _ 2).symm⟩
  · have hself : skip0x s = s := by
      unfold skip0x
      split
      · exact absurd ⟨rfl, rfl⟩ h0x
      · rfl
    rw [if_neg h0x, hself]
    exact ⟨rfl, rfl⟩

/-- **`fromHex` is the walk over the list.** -/
theorem fromHexRun_eq (whenError : WhenError) (hlt : s.length < 2 ^ 32) :
    fromHexRun (s.length + 1) s whenError =
      some ((fromHex s).elim (onBadHexCharacter whenError) .ok) := by
  obtain ⟨hskip, hparity⟩ := skip0x_eq_drop s
  have hone : (skipIndex s + 1).toNat = (skipIndex s).toNat + 1 := by
    unfold skipIndex
    split_ifs <;> rfl
  rw [fromHexRun, fromHex]
  generalize skipIndex s = skip at *
  have hlen : (skip0x s).length = s.length - skip.toNat := by rw [hskip, List.length_drop]
  by_cases hodd : s.length % 2 = 1
  · -- the first digit stands alone
    have hfirst : skip.toNat < s.length := by omega
    have hdrop : skip0x s = s[skip.toNat] :: s.drop (skip.toNat + 1) := by
      rw [hskip]
      exact List.drop_eq_getElem_cons hfirst
    rw [if_pos hodd, if_pos hodd, hdrop, charAt_of_drop (hskip ▸ hdrop)]
    dsimp only
    cases digitValue s[skip.toNat] with
    | none => rfl
    | some h =>
      dsimp only
      rw [fromHexFrom_eq hlt (by omega) (by omega), hone]
      cases fromHexPairs (s.drop (skip.toNat + 1)) <;> rfl
  · rw [if_neg hodd, if_neg hodd, fromHexFrom_eq hlt (by omega) (by omega), ← hskip]
    cases fromHexPairs (skip0x s) <;> rfl

theorem fromHexFrom_mono {fuel : ℕ} {i : BitVec 32} {ret : List Byte}
    {result : Except StdException (List Byte)}
    (h : fromHexFrom s whenError fuel i ret = some result) (more : ℕ) :
    fromHexFrom s whenError (fuel + more) i ret = some result := by
  induction fuel generalizing i ret with
  | zero => cases h
  | succ fuel ih =>
    rw [Nat.add_right_comm]
    rw [fromHexFrom] at h ⊢
    split_ifs at h ⊢ with hi
    · cases hhigh : digitValue (charAt s i.toNat) with
      | none =>
        rw [hhigh] at h
        exact h
      | some hi' =>
        cases hlow : digitValue (charAt s (i + 1).toNat) with
        | none =>
          rw [hhigh, hlow] at h
          exact h
        | some l =>
          rw [hhigh, hlow] at h
          exact ih h
    · exact h

/-- More turns than needed change nothing. -/
theorem fromHexRun_mono {fuel : ℕ} {result : Except StdException (List Byte)}
    (h : fromHexRun fuel s whenError = some result) (more : ℕ) :
    fromHexRun (fuel + more) s whenError = some result := by
  rcases fromHexRun_cases s whenError with hbad | ⟨i, ret, hloop⟩
  · rw [hbad] at h ⊢
    exact h
  · rw [hloop] at h ⊢
    exact fromHexFrom_mono h more

/-- **How a call ends**, below `2 ^ 32` characters. -/
theorem fromHexEnds_iff (hlt : s.length < 2 ^ 32) {result : Except StdException (List Byte)} :
    FromHexEnds s whenError result ↔
      (fromHex s).elim (onBadHexCharacter whenError) .ok = result := by
  constructor
  · rintro ⟨fuel, hfuel⟩
    have hown := fromHexRun_mono (fromHexRun_eq whenError hlt) fuel
    have hmore := fromHexRun_mono hfuel (s.length + 1)
    rw [Nat.add_comm, hmore, Option.some_inj] at hown
    exact hown.symm
  · rintro rfl
    exact ⟨s.length + 1, fromHexRun_eq whenError hlt⟩

end Walk

/-! ## A string that it cannot -/

theorem fromHexFrom_ne_ok {s : StdString} (hge : 2 ^ 32 ≤ s.length) (fuel : ℕ) (i : BitVec 32)
    (ret b : List Byte) : fromHexFrom s .throw fuel i ret ≠ some (.ok b) := by
  induction fuel generalizing i ret with
  | zero => exact Option.some_ne_none _ |>.symm
  | succ fuel ih =>
    rw [fromHexFrom, if_pos (Nat.lt_of_lt_of_le i.isLt hge)]
    split
    · exact ih _ _
    · simp [onBadHexCharacter]

/-- **No byte string comes back** from `2 ^ 32` characters or more. -/
theorem not_fromHexEnds_ok {s : StdString} (hge : 2 ^ 32 ≤ s.length) (b : List Byte) :
    ¬ FromHexEnds s .throw (.ok b) := by
  rintro ⟨fuel, hfuel⟩
  rcases fromHexRun_cases s .throw with hbad | ⟨i, ret, hloop⟩
  · rw [hbad, Option.some_inj] at hfuel
    cases hfuel
  · rw [hloop] at hfuel
    exact fromHexFrom_ne_ok hge fuel i ret b hfuel

/-! ## Texts of digits -/

/-- The text is these digits, with or without a `0x` before them. -/
def IsHexText (s digits : StdString) : Prop :=
  (s = digits ∨ s = '0' :: 'x' :: digits) ∧ ∀ c ∈ digits, IsHexDigit c

/-- The digits in lower case, with a zero before an odd number of them. -/
def normalDigits (digits : StdString) : StdString :=
  if digits.length % 2 = 1 then '0' :: digits.map Char.toLower else digits.map Char.toLower

theorem IsHexText.skip0x_eq {s digits : StdString} (h : IsHexText s digits) :
    skip0x s = digits := by
  obtain ⟨rfl | rfl, hdigits⟩ := h
  · unfold skip0x
    split
    · exact absurd (hdigits 'x' (by simp)) (by decide)
    · rfl
  · rfl

theorem isHexText_skip0x {s : StdString} (h : ∀ c ∈ skip0x s, IsHexDigit c) :
    IsHexText s (skip0x s) := by
  refine ⟨?_, h⟩
  unfold skip0x
  split
  · exact Or.inr rfl
  · exact Or.inl rfl

/-- The two digits of a byte that is read from two digits. -/
theorem hexForm_pair {c d : Char} {h l : ℕ} (hc : digitValue c = some h)
    (hd : digitValue d = some l) :
    hexForm 2 (BitVec.ofNat 8 (h * 16 + l)).toNat = [c.toLower, d.toLower] := by
  have hlt := digitValue_lt hc
  have hlt' := digitValue_lt hd
  have hbyte : (BitVec.ofNat 8 (h * 16 + l)).toNat = h * 16 + l := by
    rw [BitVec.toNat_ofNat]
    omega
  have hhigh : (h * 16 + l) / 16 % 16 = h := by omega
  have hlow : (h * 16 + l) % 16 = l := by omega
  rw [hbyte, ← digitChar_digitValue hc, ← digitChar_digitValue hd]
  show [Nat.digitChar ((h * 16 + l) / 16 % 16), Nat.digitChar ((h * 16 + l) % 16)] = _
  rw [hhigh, hlow]

/-- **Pairs of digits are read**, and written again in lower case. -/
theorem fromHexPairs_of_isHexDigit {s : StdString} (hlen : s.length % 2 = 0)
    (hdigits : ∀ c ∈ s, IsHexDigit c) :
    ∃ b, fromHexPairs s = some b ∧
      (b.flatMap fun b => hexForm 2 b.toNat) = s.map Char.toLower := by
  induction s using fromHexPairs.induct with
  | case1 => exact ⟨[], rfl, rfl⟩
  | case2 c => simp at hlen
  | case3 c d s ih =>
    have hlen' : s.length % 2 = 0 := by
      rw [List.length_cons, List.length_cons] at hlen
      omega
    obtain ⟨h, hc⟩ := Option.isSome_iff_exists.mp (hdigits c (by simp))
    obtain ⟨l, hd⟩ := Option.isSome_iff_exists.mp (hdigits d (by simp))
    obtain ⟨b, hb, htext⟩ := ih hlen' fun e he => hdigits e (by simp [he])
    refine ⟨BitVec.ofNat 8 (h * 16 + l) :: b, ?_, ?_⟩
    · rw [fromHexPairs, hc, hd, hb]
      rfl
    · rw [List.flatMap_cons, hexForm_pair hc hd, htext]
      rfl

/-- Only digits are read. -/
theorem isHexDigit_of_fromHexPairs {s : StdString} {b : List Byte}
    (h : fromHexPairs s = some b) : ∀ c ∈ s, IsHexDigit c := by
  induction s using fromHexPairs.induct generalizing b with
  | case1 => simp
  | case2 c => simp [fromHexPairs] at h
  | case3 c d s ih =>
    rw [fromHexPairs] at h
    simp only [Option.bind_eq_bind, Option.bind_eq_some_iff] at h
    obtain ⟨_, hc, _, hd, b, hb, -⟩ := h
    rw [List.forall_mem_cons, List.forall_mem_cons]
    exact ⟨Option.isSome_iff_exists.mpr ⟨_, hc⟩, Option.isSome_iff_exists.mpr ⟨_, hd⟩, ih hb⟩

/-- **What a text of digits is read as** is written as its digits. -/
theorem exists_fromHex {s : StdString} (hdigits : ∀ c ∈ skip0x s, IsHexDigit c) :
    ∃ b, fromHex s = some b ∧ toHexBytes b 2 .dontAdd = normalDigits (skip0x s) := by
  have hparity := (skip0x_eq_drop s).2
  by_cases hodd : s.length % 2 = 1
  · cases htext : skip0x s with
    | nil =>
      rw [htext, hodd] at hparity
      cases hparity
    | cons c rest =>
      rw [htext] at hparity hdigits
      rw [List.length_cons] at hparity
      obtain ⟨d, hd⟩ := Option.isSome_iff_exists.mp (hdigits c (by simp))
      obtain ⟨b, hb, hrest⟩ := fromHexPairs_of_isHexDigit (s := rest) (by omega)
        fun e he => hdigits e (by simp [he])
      have hfirst := hexForm_pair (c := '0') (show digitValue '0' = some 0 from rfl) hd
      rw [Nat.zero_mul, Nat.zero_add] at hfirst
      refine ⟨BitVec.ofNat 8 d :: b, ?_, ?_⟩
      · rw [fromHex, if_pos hodd, htext]
        dsimp only
        rw [hd, hb]
        rfl
      · rw [toHexBytes_eq_flatMap, HexPrefix.prepend, List.flatMap_cons, hfirst, hrest,
          normalDigits, List.length_cons, if_pos (by omega)]
        rfl
  · obtain ⟨b, hb, htext⟩ := fromHexPairs_of_isHexDigit (by omega) hdigits
    refine ⟨b, ?_, ?_⟩
    · rw [fromHex, if_neg hodd, hb]
    · rw [toHexBytes_eq_flatMap, HexPrefix.prepend, htext, normalDigits, if_neg (by omega)]

theorem isHexDigit_of_fromHex {s : StdString} {b : List Byte} (h : fromHex s = some b) :
    ∀ c ∈ skip0x s, IsHexDigit c := by
  rw [fromHex] at h
  split_ifs at h with hodd
  · cases htext : skip0x s with
    | nil => simp
    | cons c rest =>
      rw [htext] at h
      simp only [Option.bind_eq_bind, Option.bind_eq_some_iff] at h
      obtain ⟨_, hc, b, hb, -⟩ := h
      rw [List.forall_mem_cons]
      exact ⟨Option.isSome_iff_exists.mpr ⟨_, hc⟩, isHexDigit_of_fromHexPairs hb⟩
  · exact isHexDigit_of_fromHexPairs h

section Ends

variable {s digits : StdString}

/-- A text of digits comes back. -/
theorem IsHexText.fromHexEnds (h : IsHexText s digits) (hlt : s.length < 2 ^ 32) :
    ∃ b, (∀ result, FromHexEnds s .throw result ↔ .ok b = result) ∧
      toHexBytes b 2 .dontAdd = normalDigits digits := by
  have hskip := h.skip0x_eq
  obtain ⟨b, hb, htext⟩ := exists_fromHex (hskip ▸ h.2)
  refine ⟨b, fun result => ?_, by rw [htext, hskip]⟩
  rw [fromHexEnds_iff hlt, hb]
  rfl

/-- Any other text is thrown back. -/
theorem fromHexEnds_of_not_isHexText (h : ¬ ∃ digits, IsHexText s digits)
    (hlt : s.length < 2 ^ 32) (whenError : WhenError) (result : Except StdException (List Byte)) :
    FromHexEnds s whenError result ↔ onBadHexCharacter whenError = result := by
  have hnone : fromHex s = none := by
    refine Option.eq_none_iff_forall_ne_some.mpr fun b hb => h ⟨skip0x s, ?_⟩
    exact isHexText_skip0x (isHexDigit_of_fromHex hb)
  rw [fromHexEnds_iff hlt, hnone]
  rfl

end Ends

/-! ## Reading what was written -/

/-- The number of characters of the `0x`. -/
def HexPrefix.width : HexPrefix → ℕ
  | .dontAdd => 0
  | .add => 2

theorem length_toHexBytes (data : List Byte) (pre : HexPrefix) :
    (toHexBytes data 2 pre).length = pre.width + 2 * data.length := by
  have hdigits : (data.flatMap fun b => hexForm 2 b.toNat).length = 2 * data.length := by
    induction data with
    | nil => rfl
    | cons b data ih =>
      rw [List.flatMap_cons, List.length_append, length_hexForm, ih, List.length_cons]
      omega
  rw [toHexBytes_eq_flatMap]
  cases pre with
  | dontAdd => rw [HexPrefix.prepend, hdigits, HexPrefix.width, Nat.zero_add]
  | add =>
    rw [HexPrefix.prepend, List.length_cons, List.length_cons, hdigits, HexPrefix.width]
    omega

/-- **As many digits as the hash has** are read as the integer they stand for. -/
theorem FixedHash.exists_ofString {N : ℕ} {digits : StdString} (hlen : digits.length = 2 * N)
    (hdigits : ∀ c ∈ digits, IsHexDigit c) :
    ∃ h : FixedHash N, FixedHash.ofString N ('0' :: 'x' :: digits) = .ok h ∧
      fromBigEndian h.toList = value digits := by
  obtain ⟨b, hb, htext⟩ := exists_fromHex (s := '0' :: 'x' :: digits) hdigits
  have hnormal : toHexBytes b 2 .dontAdd = digits.map Char.toLower := by
    rw [htext]
    exact if_neg (show ¬ digits.length % 2 = 1 by omega)
  have hbytes : b.length = N := by
    have hcount := congrArg List.length hnormal
    rw [length_toHexBytes, List.length_map, HexPrefix.width] at hcount
    omega
  refine ⟨⟨b.toArray, hbytes⟩, ?_, ?_⟩
  · rw [FixedHash.ofString, hb]
    exact congrArg Except.ok (dif_pos hbytes)
  · show fromBigEndian b = _
    rw [← value_toHexBytes, hnormal, value_map_toLower hdigits]

/-- **The text of a byte string** is read as that byte string, by the walk over the list. -/
theorem fromHex_toHexBytes (data : List Byte) (pre : HexPrefix) :
    fromHex (toHexBytes data 2 pre) = some data := by
  have hpairs := fromHexPairs_flatMap data
  have htext : IsHexText (toHexBytes data 2 pre) (data.flatMap fun b => hexForm 2 b.toNat) := by
    refine ⟨?_, isHexDigit_of_fromHexPairs hpairs⟩
    rw [toHexBytes_eq_flatMap]
    cases pre with
    | dontAdd => exact Or.inl rfl
    | add => exact Or.inr rfl
  have heven : ¬ (toHexBytes data 2 pre).length % 2 = 1 := by
    rw [length_toHexBytes]
    cases pre with
    | dontAdd | add =>
      rw [HexPrefix.width]
      omega
  rw [fromHex, if_neg heven, htext.skip0x_eq, hpairs]

theorem fromHexEnds_toHexBytes_iff (data : List Byte) (pre : HexPrefix) :
    FromHexEnds (toHexBytes data 2 pre) .throw (.ok data) ↔
      pre.width + 2 * data.length < 2 ^ 32 := by
  rw [← length_toHexBytes]
  constructor
  · intro hends
    by_contra hge
    exact not_fromHexEnds_ok (Nat.le_of_not_lt hge) data hends
  · intro hlt
    rw [fromHexEnds_iff hlt, fromHex_toHexBytes]
    rfl

theorem ofStringEnds_hex_iff {N : ℕ} (h : FixedHash N) (pre : HexPrefix) :
    FixedHash.OfStringEnds N (h.hex pre) h ↔ pre.width + 2 * N < 2 ^ 32 := by
  have hlist := fromHexEnds_toHexBytes_iff h.toList pre
  rw [Vector.length_toList] at hlist
  rw [← hlist]
  constructor
  · rintro ⟨b, hends, -⟩
    by_contra hnot
    have hge : 2 ^ 32 ≤ (h.hex pre).length := by
      rw [hlist, Nat.not_lt] at hnot
      rwa [FixedHash.hex, length_toHexBytes, Vector.length_toList]
    exact not_fromHexEnds_ok hge b hends
  · intro hends
    exact ⟨h.toList, hends, FixedHash.ofBytes_toList h⟩

/-- **The hexadecimal codec.**  What `toHex` writes is read as what was written exactly when
it is shorter than `2 ^ 32` characters.  Of the strings that are, those of digits behind an
optional `0x` come back, as the bytes that are written with these digits; any other one is a
`BadHexCharacter`, and the empty byte string for who does not want that.  A hash is read
from its text exactly when that is shorter than `2 ^ 32` characters. -/
theorem hexCodec_iff (b : List Byte) (pre : HexPrefix) (s : StdString) {N : ℕ}
    (h : FixedHash N) :
    (FromHexEnds (toHexBytes b 2 pre) .throw (.ok b) ↔ pre.width + 2 * b.length < 2 ^ 32) ∧
    (s.length < 2 ^ 32 →
      ((∃ b, FromHexEnds s .throw (.ok b)) ↔ ∃ digits, IsHexText s digits) ∧
      (∀ b digits, FromHexEnds s .throw (.ok b) → IsHexText s digits →
        toHexBytes b 2 .dontAdd = normalDigits digits) ∧
      ((¬ ∃ digits, IsHexText s digits) → FromHexEnds s .throw (.error .badHexCharacter)) ∧
      ∀ e, FromHexEnds s .throw (.error e) → FromHexEnds s .dontThrow (.ok [])) ∧
    (FixedHash.OfStringEnds N (h.hex pre) h ↔ pre.width + 2 * N < 2 ^ 32) := by
  refine ⟨fromHexEnds_toHexBytes_iff b pre, fun hlt => ?_, ofStringEnds_hex_iff h pre⟩
  by_cases htext : ∃ digits, IsHexText s digits
  · obtain ⟨digits, hdigits⟩ := htext
    obtain ⟨b, hends, hwritten⟩ := hdigits.fromHexEnds hlt
    refine ⟨iff_of_true ⟨b, (hends _).mpr rfl⟩ ⟨digits, hdigits⟩, fun b' digits' hb' hdigits' => ?_,
      fun hnot => absurd ⟨digits, hdigits⟩ hnot, fun e he => ?_⟩
    · obtain rfl := Except.ok.inj ((hends _).mp hb')
      rw [hwritten, ← hdigits.skip0x_eq, hdigits'.skip0x_eq]
    · cases (hends _).mp he
  · have hends := fromHexEnds_of_not_isHexText htext hlt
    refine ⟨iff_of_false ?_ htext, fun b digits _ hdigits => absurd ⟨digits, hdigits⟩ htext,
      fun _ => (hends .throw _).mpr rfl, fun _ _ => (hends .dontThrow _).mpr rfl⟩
    rintro ⟨b, hb⟩
    cases (hends .throw _).mp hb

/-- The text `0xA` comes back. -/
theorem hexCodec_iff_upper : ∃ b, FromHexEnds "0xA".toList .throw (.ok b) :=
  ((hexCodec_iff [] .dontAdd "0xA".toList (FixedHash.zero 32)).2.1 (by decide)).1.mpr
    ⟨['A'], Or.inr rfl, List.forall_mem_singleton.mpr (by decide)⟩

/-- **Two gigabytes of zeros** are written, and what is written is never read. -/
theorem hexCodec_two_gigabytes :
    ¬ ∃ b, FromHexEnds (toHexBytes (List.replicate (2 ^ 31) 0) 2 .dontAdd) .throw (.ok b) := by
  rintro ⟨b, hb⟩
  refine not_fromHexEnds_ok ?_ b hb
  rw [length_toHexBytes, List.length_replicate, HexPrefix.width]
  decide

end Devcore
end FpgaEthash
