import Mathlib.Data.List.Induction
import Mathlib.Data.Nat.Digits.Defs
import Mathlib.Tactic.IntervalCases
import Mathlib.Tactic.Ring
import Mathlib.Tactic.Linarith

/-!
# Hexadecimal numerals

Digits are characters, most significant first.  `value` reads a numeral,
`hexForm k n` writes the low `k` digits of `n`, in lower case and with leading
zeros.

* `hexForm_add`: writing `k + l` digits is writing the upper `k`, then the lower `l`.
* `hexForm_value`: writing what was read gives the numeral back in lower case, and
  `value_hexForm`: reading what was written gives the number back.
* `value_append`, `value_lt`: reading is positional.
-/

namespace FpgaEthash
namespace HexDigits

/-! ## Digits -/

/-- The value of a hexadecimal digit of either case. -/
def digitValue (c : Char) : Option ℕ :=
  if '0' ≤ c ∧ c ≤ '9' then some (c.toNat - '0'.toNat)
  else if 'a' ≤ c ∧ c ≤ 'f' then some (c.toNat - 'a'.toNat + 10)
  else if 'A' ≤ c ∧ c ≤ 'F' then some (c.toNat - 'A'.toNat + 10)
  else none

/-- A hexadecimal digit of either case. -/
def IsHexDigit (c : Char) : Prop := (digitValue c).isSome

instance (c : Char) : Decidable (IsHexDigit c) :=
  inferInstanceAs (Decidable ((digitValue c).isSome = true))

theorem char_eq_ofNat {c : Char} {n : ℕ} (h : c.toNat = n) : c = Char.ofNat n := by
  rw [← h, Char.ofNat_toNat]

/-- The digits are three ranges of characters: anything that holds of the
twenty-two of them holds of every digit. -/
theorem forall_digitValue {P : Char → ℕ → Prop}
    (hdec : ∀ n < 10, P (Char.ofNat (48 + n)) n)
    (hlow : ∀ n < 6, P (Char.ofNat (97 + n)) (n + 10))
    (hupp : ∀ n < 6, P (Char.ofNat (65 + n)) (n + 10))
    {c : Char} {d : ℕ} (h : digitValue c = some d) : P c d := by
  unfold digitValue at h
  split_ifs at h with h0 h1 h2
  · have hlo : 48 ≤ c.toNat := h0.1
    have hhi : c.toNat ≤ 57 := h0.2
    have hd : c.toNat - 48 = d := Option.some.inj h
    rw [char_eq_ofNat (show c.toNat = 48 + d by omega)]
    exact hdec d (by omega)
  · have hlo : 97 ≤ c.toNat := h1.1
    have hhi : c.toNat ≤ 102 := h1.2
    have hd : c.toNat - 97 + 10 = d := Option.some.inj h
    rw [char_eq_ofNat (show c.toNat = 97 + (d - 10) by omega),
      show d = (d - 10) + 10 by omega]
    exact hlow (d - 10) (by omega)
  · have hlo : 65 ≤ c.toNat := h2.1
    have hhi : c.toNat ≤ 70 := h2.2
    have hd : c.toNat - 65 + 10 = d := Option.some.inj h
    rw [char_eq_ofNat (show c.toNat = 65 + (d - 10) by omega),
      show d = (d - 10) + 10 by omega]
    exact hupp (d - 10) (by omega)

theorem digitValue_lt {c : Char} {d : ℕ} (h : digitValue c = some d) : d < 16 :=
  forall_digitValue (P := fun _ d => d < 16) (fun n hn => by omega) (fun n hn => by omega)
    (fun n hn => by omega) h

/-- Writing the value of a digit gives the digit in lower case. -/
theorem digitChar_digitValue {c : Char} {d : ℕ} (h : digitValue c = some d) :
    Nat.digitChar d = c.toLower :=
  forall_digitValue (P := fun c d => Nat.digitChar d = c.toLower) (by decide) (by decide)
    (by decide) h

/-! ## Reading -/

/-- The number a numeral stands for; a character that is no digit counts as zero. -/
def value (s : List Char) : ℕ :=
  s.foldl (fun n c => 16 * n + (digitValue c).getD 0) 0

@[simp] theorem value_nil : value [] = 0 := rfl

theorem value_concat (s : List Char) (c : Char) :
    value (s ++ [c]) = 16 * value s + (digitValue c).getD 0 := by
  rw [value, List.foldl_append]
  rfl

theorem value_append (s t : List Char) :
    value (s ++ t) = value s * 16 ^ t.length + value t := by
  induction t using List.reverseRecOn with
  | nil => simp
  | append_singleton t c ih =>
    rw [← List.append_assoc, value_concat, value_concat, ih, List.length_append,
      List.length_singleton, pow_succ]
    ring

theorem getD_digitValue_lt (c : Char) : (digitValue c).getD 0 < 16 := by
  cases h : digitValue c with
  | none => exact Nat.zero_lt_succ _
  | some d => exact digitValue_lt h

/-- A numeral of `k` digits stays below `16 ^ k`. -/
theorem value_lt (s : List Char) : value s < 16 ^ s.length := by
  induction s using List.reverseRecOn with
  | nil => simp
  | append_singleton s c ih =>
    have hc := getD_digitValue_lt c
    rw [value_concat, List.length_append, List.length_singleton, pow_succ]
    omega

theorem value_replicate_zero (k : ℕ) : value (List.replicate k '0') = 0 := by
  induction k with
  | zero => rfl
  | succ k ih =>
    rw [List.replicate_succ', value_concat, ih]
    decide

theorem eq_zero_of_digitValue {c : Char} (h : digitValue c = some 0) : c = '0' :=
  forall_digitValue (P := fun c d => d = 0 → c = '0') (by decide) (by decide) (by decide) h rfl

/-- Only zeros stand for zero. -/
theorem value_eq_zero_iff {s : List Char} (h : ∀ c ∈ s, IsHexDigit c) :
    value s = 0 ↔ s = List.replicate s.length '0' := by
  constructor
  · intro hzero
    refine List.eq_replicate_iff.mpr ⟨rfl, ?_⟩
    induction s using List.reverseRecOn with
    | nil => exact fun c hc => absurd hc List.not_mem_nil
    | append_singleton s c ih =>
      rw [List.forall_mem_append, List.forall_mem_singleton] at h ⊢
      obtain ⟨d, hd⟩ := Option.isSome_iff_exists.mp h.2
      rw [value_concat, hd, Option.getD_some] at hzero
      obtain rfl : d = 0 := by omega
      exact ⟨ih h.1 (by omega), eq_zero_of_digitValue hd⟩
  · intro hs
    rw [hs]
    exact value_replicate_zero _

/-! ## Writing -/

/-- The low `k` hexadecimal digits of `n`, most significant first. -/
def hexForm : ℕ → ℕ → List Char
  | 0, _ => []
  | k + 1, n => hexForm k (n / 16) ++ [Nat.digitChar (n % 16)]

@[simp] theorem length_hexForm (k n : ℕ) : (hexForm k n).length = k := by
  induction k generalizing n with
  | zero => rfl
  | succ k ih => rw [hexForm, List.length_append, ih, List.length_singleton]

theorem hexForm_zero_right (k : ℕ) : hexForm k 0 = List.replicate k '0' := by
  induction k with
  | zero => rfl
  | succ k ih =>
    rw [hexForm, Nat.zero_div, ih, List.replicate_succ']
    rfl

/-- The upper digits, then the lower ones. -/
theorem hexForm_add (k l n : ℕ) :
    hexForm (k + l) n = hexForm k (n / 16 ^ l) ++ hexForm l n := by
  induction l generalizing n with
  | zero => simp [hexForm]
  | succ l ih =>
    rw [← Nat.add_assoc, hexForm, ih, hexForm, List.append_assoc,
      Nat.div_div_eq_div_mul, pow_succ, Nat.mul_comm 16]

/-- **Writing what was read** gives the numeral back, in lower case. -/
theorem hexForm_value {s : List Char} (h : ∀ c ∈ s, IsHexDigit c) :
    hexForm s.length (value s) = s.map Char.toLower := by
  induction s using List.reverseRecOn with
  | nil => rfl
  | append_singleton s c ih =>
    have hs : ∀ a ∈ s, IsHexDigit a := fun a ha => h a (List.mem_append_left _ ha)
    obtain ⟨d, hd⟩ := Option.isSome_iff_exists.mp (h c (by simp))
    have hlt : d < 16 := digitValue_lt hd
    have hdiv : (16 * value s + d) / 16 = value s := by omega
    have hmod : (16 * value s + d) % 16 = d := by omega
    rw [value_concat, hd, Option.getD_some, List.length_append, List.length_singleton,
      hexForm, hdiv, hmod, ih hs, digitChar_digitValue hd, List.map_append, List.map_cons,
      List.map_nil]

theorem digitValue_digitChar {d : ℕ} (h : d < 16) : digitValue (Nat.digitChar d) = some d := by
  decide +revert

theorem isHexDigit_of_mem_hexForm (k n : ℕ) : ∀ c ∈ hexForm k n, IsHexDigit c := by
  induction k generalizing n with
  | zero => exact fun c hc => absurd hc List.not_mem_nil
  | succ k ih =>
    rw [hexForm, List.forall_mem_append, List.forall_mem_singleton]
    have hdigit := digitValue_digitChar (Nat.mod_lt n (by decide : 0 < 16))
    exact ⟨ih (n / 16), Option.isSome_iff_exists.mpr ⟨_, hdigit⟩⟩

/-- **Reading what was written** gives the number back, if it fits. -/
theorem value_hexForm {k n : ℕ} (h : n < 16 ^ k) : value (hexForm k n) = n := by
  induction k generalizing n with
  | zero =>
    rw [pow_zero, Nat.lt_one_iff] at h
    rw [h]
    rfl
  | succ k ih =>
    have hdiv : n / 16 < 16 ^ k := by
      rw [pow_succ] at h
      exact Nat.div_lt_of_lt_mul (by omega)
    rw [hexForm, value_concat, ih hdiv, digitValue_digitChar (Nat.mod_lt _ (by decide)),
      Option.getD_some]
    omega

/-- The case of the digits does not matter. -/
theorem value_map_toLower {s : List Char} (h : ∀ c ∈ s, IsHexDigit c) :
    value (s.map Char.toLower) = value s := by
  rw [← hexForm_value h]
  exact value_hexForm (value_lt s)

/-- The numeral without leading zeros, as a stream in `hex` mode prints a number. -/
def compactForm (n : ℕ) : List Char :=
  if n = 0 then ['0'] else (Nat.digits 16 n).reverse.map Nat.digitChar

theorem compactForm_of_lt {n : ℕ} (h : n < 16) : compactForm n = [Nat.digitChar n] := by
  rcases Nat.eq_zero_or_pos n with rfl | hpos
  · rfl
  · rw [compactForm, if_neg (by omega), Nat.digits_of_lt 16 n (by omega) h]
    rfl

theorem compactForm_of_le {n : ℕ} (h : 16 ≤ n) :
    compactForm n = compactForm (n / 16) ++ [Nat.digitChar (n % 16)] := by
  have hdiv : n / 16 ≠ 0 := by omega
  rw [compactForm, compactForm, if_neg (by omega), if_neg hdiv,
    Nat.digits_def' (by omega) (by omega), List.reverse_cons, List.map_append, List.map_cons,
    List.map_nil]

/-- **Padding on the left** with zeros to `k` digits writes the low `k` digits, if
the number has no more than that. -/
theorem replicate_append_compactForm {k n : ℕ} (hk : 0 < k) (hn : n < 16 ^ k) :
    List.replicate (k - (compactForm n).length) '0' ++ compactForm n = hexForm k n := by
  induction k generalizing n with
  | zero => omega
  | succ k ih =>
    rcases Nat.lt_or_ge n 16 with hlt | hge
    · rw [compactForm_of_lt hlt, List.length_singleton, Nat.add_sub_cancel, hexForm,
        Nat.div_eq_of_lt hlt, Nat.mod_eq_of_lt hlt, hexForm_zero_right]
    · have hn' : n / 16 < 16 ^ k := by
        rw [pow_succ] at hn
        omega
      have hk' : 0 < k := by
        rcases Nat.eq_zero_or_pos k with rfl | hpos
        · simp at hn'
          omega
        · exact hpos
      rw [compactForm_of_le hge, List.length_append, List.length_singleton,
        Nat.add_sub_add_right, ← List.append_assoc, ih hk' hn', hexForm]

end HexDigits
end FpgaEthash
