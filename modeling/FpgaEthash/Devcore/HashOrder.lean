import FpgaEthash.Devcore.CommonData

/-!
# Hashes as integers

`FixedHash.h` gives a hash an arithmetic type, `Arith`, and the operators of an integer.
Each of them is a byte loop of its own: `toBigEndian` shifts bytes out of an integer,
`fromBigEndian` shifts them in, `operator<` compares from the front and leaves at the
first difference, `operator++` carries from the back.  None of them calls another.

What they have in common is `fromBigEndian` on unbounded integers, the number that a byte
string stands for.  Every loop is read as a statement about that number:

* `fromBigEndian_bigEndianBytes`: the bytes shifted out stand for the integer;
* `toNat_toArith`: the bytes shifted in do as well, and nothing is shifted out at the top;
* `ltBytes_iff`: the first difference decides;
* `toNat_toArith_increment`: the carry is plus one, and runs out at the front.
-/

namespace FpgaEthash
namespace Devcore

/-! ## The number that a byte string stands for -/

theorem fromBigEndian_append (l r : List Byte) :
    fromBigEndian (l ++ r) = fromBigEndian l * 256 ^ r.length + fromBigEndian r := by
  induction r using List.reverseRecOn with
  | nil => simp [fromBigEndian]
  | append_singleton r b ih =>
    rw [← List.append_assoc, fromBigEndian_concat, ih, fromBigEndian_concat, List.length_append,
      List.length_singleton, pow_succ]
    ring

theorem fromBigEndian_cons (b : Byte) (l : List Byte) :
    fromBigEndian (b :: l) = b.toNat * 256 ^ l.length + fromBigEndian l := by
  rw [← List.singleton_append, fromBigEndian_append]
  simp [fromBigEndian]

theorem fromBigEndian_lt (l : List Byte) : fromBigEndian l < 256 ^ l.length := by
  induction l using List.reverseRecOn with
  | nil => exact Nat.one_pos
  | append_singleton l b ih =>
    have hb : b.toNat < 256 := b.isLt
    rw [fromBigEndian_concat, List.length_append, List.length_singleton, pow_succ]
    omega

/-- A difference in a byte outweighs all bytes behind it. -/
theorem fromBigEndian_cons_lt {a b : Byte} {l m : List Byte} (hab : a < b)
    (hlen : l.length = m.length) : fromBigEndian (a :: l) < fromBigEndian (b :: m) := by
  have hl := fromBigEndian_lt l
  have hab' : a.toNat + 1 ≤ b.toNat := BitVec.lt_def.mp hab
  calc fromBigEndian (a :: l) = a.toNat * 256 ^ l.length + fromBigEndian l :=
        fromBigEndian_cons a l
    _ < (a.toNat + 1) * 256 ^ l.length := by rw [Nat.succ_mul]; omega
    _ ≤ b.toNat * 256 ^ m.length := by rw [hlen]; exact Nat.mul_le_mul_right _ hab'
    _ ≤ fromBigEndian (b :: m) := by rw [fromBigEndian_cons]; exact Nat.le_add_right _ _

theorem byte_trichotomy (a b : Byte) : a < b ∨ a = b ∨ b < a := by
  rcases Nat.lt_trichotomy a.toNat b.toNat with hab | hab | hba
  · exact Or.inl (BitVec.lt_def.mpr hab)
  · exact Or.inr (Or.inl (BitVec.eq_of_toNat_eq hab))
  · exact Or.inr (Or.inr (BitVec.lt_def.mpr hba))

theorem byte_lt_asymm {a b : Byte} (hab : a < b) : ¬ b < a :=
  fun hba => Nat.lt_asymm (BitVec.lt_def.mp hab) (BitVec.lt_def.mp hba)

namespace FixedHash

variable {N : ℕ}

/-! ## The operators -/

/-- `Arith`: the unsigned integers of `N * 8` bits. -/
abbrev Arith (N : ℕ) := BitVec (N * 8)

/-- The loop of `toBigEndian` from index `i - 1` down. -/
def toBigEndianFrom : ℕ → Arith N → FixedHash N → FixedHash N
  | 0, _, out => out
  | i + 1, val, out =>
    toBigEndianFrom i (val >>> 8) (out.setIfInBounds i ((val &&& 0xff).setWidth 8))

/-- `FixedHash(Arith)`: `toBigEndian` over bytes that nobody has written yet. -/
def ofArith (val : Arith N) (data : FixedHash N) : FixedHash N := toBigEndianFrom N val data

/-- `operator Arith`: `fromBigEndian` in integers of `N * 8` bits. -/
def toArith (h : FixedHash N) : Arith N :=
  h.toList.foldl (fun ret b => ret <<< 8 ||| b.setWidth (N * 8)) 0

/-- The loop of `operator<`. -/
def ltBytes : List Byte → List Byte → Bool
  | a :: l, b :: m => if a < b then true else if b < a then false else ltBytes l m
  | _, _ => false

/-- `operator<`. -/
def lt (h g : FixedHash N) : Bool := ltBytes h.toList g.toList

/-- `operator>=`. -/
def ge (h g : FixedHash N) : Bool := !h.lt g

/-- `operator<=`. -/
def le (h g : FixedHash N) : Bool := h == g || h.lt g

/-- `operator>`. -/
def gt (h g : FixedHash N) : Bool := !h.le g

/-- The loop of `operator++` from index `i - 1` down, as long as a byte becomes zero. -/
def incrementFrom : ℕ → FixedHash N → FixedHash N
  | 0, h => h
  | i + 1, h =>
    let b := h[i]?.getD 0 + 1
    let h := h.setIfInBounds i b
    if b = 0 then incrementFrom i h else h

/-- `operator++`. -/
def increment (h : FixedHash N) : FixedHash N := incrementFrom N h

/-! ## Shifting in -/

theorem two_pow_bits (N : ℕ) : 2 ^ (N * 8) = 256 ^ N := by
  rw [Nat.mul_comm, pow_mul]
  rfl

theorem fromBigEndian_toList_lt (h : FixedHash N) : fromBigEndian h.toList < 256 ^ N := by
  have hlt := fromBigEndian_lt h.toList
  rwa [Vector.length_toList] at hlt

/-- One byte shifted in, in any number of bits. -/
theorem toNat_shiftIn {w : ℕ} (ret : BitVec w) (b : Byte) :
    (ret <<< 8 ||| b.setWidth w).toNat = (ret.toNat * 256 + b.toNat) % 2 ^ w := by
  rw [BitVec.toNat_or, BitVec.toNat_shiftLeft, BitVec.toNat_setWidth, ← Nat.or_mod_two_pow,
    ← Nat.shiftLeft_add_eq_or_of_lt b.isLt, Nat.shiftLeft_eq]

theorem toNat_foldl_shiftIn {w : ℕ} (l : List Byte) :
    (l.foldl (fun (ret : BitVec w) b => ret <<< 8 ||| b.setWidth w) 0).toNat =
      fromBigEndian l % 2 ^ w := by
  induction l using List.reverseRecOn with
  | nil => simp [fromBigEndian]
  | append_singleton l b ih =>
    rw [List.foldl_append, List.foldl_cons, List.foldl_nil, toNat_shiftIn, ih,
      fromBigEndian_concat]
    simp [Nat.add_mod, Nat.mul_mod]

/-- **`Arith` has room for the number that the hash stands for.** -/
theorem toNat_toArith (h : FixedHash N) : h.toArith.toNat = fromBigEndian h.toList := by
  rw [toArith, toNat_foldl_shiftIn, two_pow_bits, Nat.mod_eq_of_lt (fromBigEndian_toList_lt h)]

theorem fromBigEndian_injective {l m : List Byte} (hlen : l.length = m.length)
    (h : fromBigEndian l = fromBigEndian m) : l = m := by
  induction l generalizing m with
  | nil => exact (List.length_eq_zero_iff.mp hlen.symm).symm
  | cons a l ih =>
    cases m with
    | nil => cases hlen
    | cons b m =>
      have hlen' : l.length = m.length := Nat.succ.inj hlen
      rcases byte_trichotomy a b with hab | rfl | hba
      · exact absurd h (fromBigEndian_cons_lt hab hlen').ne
      · rw [fromBigEndian_cons, fromBigEndian_cons, hlen'] at h
        rw [ih hlen' (Nat.add_left_cancel h)]
      · exact absurd h (fromBigEndian_cons_lt hba hlen'.symm).ne'

/-- The hash is known from the number that it stands for. -/
theorem toArith_injective : Function.Injective (toArith (N := N)) := by
  intro h g hhg
  have hnat := congrArg BitVec.toNat hhg
  rw [toNat_toArith, toNat_toArith] at hnat
  refine Vector.toList_inj.mp (fromBigEndian_injective ?_ hnat)
  rw [Vector.length_toList, Vector.length_toList]

/-! ## Shifting out -/

/-- The last `i` bytes of an integer. -/
def bigEndianBytes {w : ℕ} : ℕ → BitVec w → List Byte
  | 0, _ => []
  | i + 1, val => bigEndianBytes i (val >>> 8) ++ [(val &&& 0xff).setWidth 8]

/-- `_val & 0xff` is the last byte, also in fewer than eight bits. -/
theorem toNat_lowByte {w : ℕ} (val : BitVec w) :
    ((val &&& 0xff).setWidth 8 : Byte).toNat = val.toNat % 256 := by
  have hbyte : ((val &&& 0xff).setWidth 8 : Byte) = val.setWidth 8 := by
    ext i hi
    rw [BitVec.getElem_setWidth, BitVec.getElem_setWidth, BitVec.getLsbD_and]
    by_cases hw : i < w
    · have hbit : (0xff : BitVec w).getLsbD i = true := by
        rw [show (0xff : BitVec w) = BitVec.ofNat w (2 ^ 8 - 1) from rfl, BitVec.getLsbD_ofNat,
          Nat.testBit_two_pow_sub_one, decide_eq_true hw, decide_eq_true hi, Bool.and_true]
      rw [hbit, Bool.and_true]
    · rw [BitVec.getLsbD_of_ge val i (by omega), Bool.false_and]
  rw [hbyte, BitVec.toNat_setWidth]

theorem fromBigEndian_bigEndianBytes {w : ℕ} (i : ℕ) (val : BitVec w) :
    fromBigEndian (bigEndianBytes i val) = val.toNat % 256 ^ i := by
  induction i generalizing val with
  | zero =>
    rw [pow_zero, Nat.mod_one]
    rfl
  | succ i ih =>
    rw [bigEndianBytes, fromBigEndian_concat, ih, toNat_lowByte, BitVec.toNat_ushiftRight,
      Nat.shiftRight_eq_div_pow, pow_succ' 256 i, Nat.mod_mul, Nat.add_comm, Nat.mul_comm]

/-- The loop writes its bytes, and leaves the ones behind them. -/
theorem toList_toBigEndianFrom {i : ℕ} (hi : i ≤ N) (val : Arith N) (out : FixedHash N) :
    (toBigEndianFrom i val out).toList = bigEndianBytes i val ++ out.toList.drop i := by
  induction i generalizing val out with
  | zero => rfl
  | succ i ih =>
    have hlen : i < out.toList.length := by
      rw [Vector.length_toList]
      omega
    rw [toBigEndianFrom, ih (by omega), bigEndianBytes, Vector.toList_setIfInBounds,
      List.drop_set, if_neg (lt_irrefl i), Nat.sub_self, List.drop_eq_getElem_cons hlen,
      List.set_cons_zero, List.append_assoc, List.singleton_append]

/-- **The bytes that are shifted out stand for the integer.** -/
theorem toArith_ofArith (val : Arith N) (data : FixedHash N) :
    (ofArith val data).toArith = val := by
  have hlist : (ofArith val data).toList = bigEndianBytes N val := by
    rw [ofArith, toList_toBigEndianFrom (le_refl N), List.drop_of_length_le (by simp),
      List.append_nil]
  refine BitVec.eq_of_toNat_eq ?_
  rw [toNat_toArith, hlist, fromBigEndian_bigEndianBytes, ← two_pow_bits,
    Nat.mod_eq_of_lt val.isLt]

/-- The bytes of a hash are shifted out of its integer. -/
theorem ofArith_toArith (h data : FixedHash N) : ofArith h.toArith data = h :=
  toArith_injective (toArith_ofArith h.toArith data)

/-! ## The order -/

theorem ltBytes_iff {l m : List Byte} (hlen : l.length = m.length) :
    ltBytes l m ↔ fromBigEndian l < fromBigEndian m := by
  induction l generalizing m with
  | nil =>
    obtain rfl := List.length_eq_zero_iff.mp hlen.symm
    simp [ltBytes]
  | cons a l ih =>
    cases m with
    | nil => cases hlen
    | cons b m =>
      have hlen' : l.length = m.length := Nat.succ.inj hlen
      rw [ltBytes]
      rcases byte_trichotomy a b with hab | rfl | hba
      · rw [if_pos hab]
        exact iff_of_true rfl (fromBigEndian_cons_lt hab hlen')
      · have hirrefl : ¬ a < a := fun haa => byte_lt_asymm haa haa
        rw [if_neg hirrefl, if_neg hirrefl, ih hlen', fromBigEndian_cons,
          fromBigEndian_cons, hlen']
        exact (Nat.add_lt_add_iff_left).symm
      · rw [if_neg (byte_lt_asymm hba), if_pos hba]
        exact iff_of_false Bool.false_ne_true (fromBigEndian_cons_lt hba hlen'.symm).not_gt

section Order

variable (h g : FixedHash N)

/-- **`operator<` compares the integers.** -/
theorem lt_iff : h.lt g ↔ h.toArith.toNat < g.toArith.toNat := by
  rw [lt, toNat_toArith, toNat_toArith]
  exact ltBytes_iff (by rw [Vector.length_toList, Vector.length_toList])

theorem ge_iff : h.ge g ↔ g.toArith.toNat ≤ h.toArith.toNat := by
  rw [ge, Bool.not_eq_true', ← Bool.not_eq_true, lt_iff, not_lt]

theorem le_iff : h.le g ↔ h.toArith.toNat ≤ g.toArith.toNat := by
  have heq : (h == g) = true ↔ h.toArith.toNat = g.toArith.toNat := by
    rw [beq_iff_eq, ← toArith_injective.eq_iff, BitVec.toNat_inj]
  rw [le, Bool.or_eq_true, heq, lt_iff, le_iff_eq_or_lt]

theorem gt_iff : h.gt g ↔ g.toArith.toNat < h.toArith.toNat := by
  rw [gt, Bool.not_eq_true', ← Bool.not_eq_true, le_iff, not_le]

end Order

/-! ## Carrying -/

/-- **The carry from index `i - 1` down** adds one to the bytes before `i`, modulo their
range, and leaves the others. -/
theorem exists_incrementFrom {i : ℕ} (h : FixedHash N) {l r : List Byte} (hlen : l.length = i)
    (hlist : h.toList = l ++ r) :
    ∃ l', (incrementFrom i h).toList = l' ++ r ∧ l'.length = i ∧
      fromBigEndian l' = (fromBigEndian l + 1) % 256 ^ i := by
  induction i generalizing h l r with
  | zero =>
    obtain rfl := List.length_eq_zero_iff.mp hlen
    exact ⟨[], hlist, rfl, rfl⟩
  | succ i ih =>
    obtain ⟨l, x, rfl⟩ : ∃ front x, l = front ++ [x] :=
      ⟨l.dropLast, l.getLast (List.ne_nil_of_length_eq_add_one hlen),
        (List.dropLast_concat_getLast _).symm⟩
    rw [List.length_append, List.length_singleton, Nat.add_right_cancel_iff] at hlen
    have hx : h[i]?.getD 0 = x := by
      rw [← Vector.getElem?_toList, hlist, List.append_assoc,
        List.getElem?_append_right (by omega), hlen, Nat.sub_self]
      rfl
    have hset : (h.setIfInBounds i (x + 1)).toList = l ++ ((x + 1) :: r) := by
      rw [Vector.toList_setIfInBounds, hlist, List.append_assoc, List.singleton_append,
        List.set_append_right _ _ (by omega), hlen, Nat.sub_self, List.set_cons_zero]
    have hl := fromBigEndian_lt l
    have hxlt : x.toNat < 256 := x.isLt
    have hsucc : (x + 1).toNat = (x.toNat + 1) % 256 := BitVec.toNat_add x 1
    rw [incrementFrom, hx, fromBigEndian_concat, pow_succ]
    by_cases hzero : x + 1 = 0
    · -- the byte was the last one: carry
      obtain ⟨l', hl', hlen', hvalue⟩ := ih _ hlen hset
      rw [if_pos hzero]
      refine ⟨l' ++ [x + 1], by simpa using hl', by simp [hlen'], ?_⟩
      rw [hzero] at hsucc
      have hlast : x.toNat + 1 = 256 := by
        have hmod : 0 = (x.toNat + 1) % 256 := hsucc
        omega
      rw [fromBigEndian_concat, hzero, hvalue, Nat.add_assoc, hlast, ← Nat.succ_mul,
        Nat.mul_mod_mul_right]
      exact Nat.add_zero _
    · rw [if_neg hzero]
      refine ⟨l ++ [x + 1], by simpa using hset, by simp [hlen], ?_⟩
      have hnext : (x + 1).toNat = x.toNat + 1 := by
        have hne : (x + 1).toNat ≠ 0 := fun h0 => hzero (BitVec.eq_of_toNat_eq h0)
        omega
      rw [hlen] at hl
      rw [fromBigEndian_concat, hnext, ← Nat.add_assoc, Nat.mod_eq_of_lt (by omega)]

/-- **`operator++` is the integer plus one**, modulo the range. -/
theorem toNat_toArith_increment (h : FixedHash N) :
    h.increment.toArith.toNat = (h.toArith.toNat + 1) % 256 ^ N := by
  obtain ⟨l, hl, -, hvalue⟩ :=
    exists_incrementFrom h (show h.toList.length = N by simp) (List.append_nil h.toList).symm
  rw [toNat_toArith, toNat_toArith, increment, hl, List.append_nil, hvalue]

end FixedHash

end Devcore
end FpgaEthash
