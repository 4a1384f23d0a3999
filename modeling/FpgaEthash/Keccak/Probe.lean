import FpgaEthash.Keccak.Lanes
import Mathlib.Algebra.Group.Nat.Defs

/-!
# A permutation that shows one byte

An implementation that treats one byte of the state wrongly just before a call of the
permutation may still agree with the sponge: the byte may happen to be right, and the
permutation may happen to hide it.  To say *exactly* when it agrees for every
permutation one needs a permutation that does neither.

`probe last n δ` counts its calls in the last lane of the state, which a sponge never
touches from outside.  On call `n` (counted from one) it xors `δ` into byte `last`, so
that this byte can be given any value (`exists_getElem_absorbBlocks`).  On the call
after that it xors byte `last` into byte `0`, so that what differs there shows at the
front of the output (`probe_getElem_zero_ne`).  On all other calls it only counts.
-/

namespace FpgaEthash
namespace Keccak

open LittleEndian Sponge

/-! ## The counter -/

/-- The last lane. -/
def counter (s : Bytes) : BitVec 64 := (ofBytes s)[24]

/-- The last lane moved on by `d`. -/
def bump (d : BitVec 64) (s : Bytes) : Bytes :=
  toBytes ((ofBytes s).set 24 ((ofBytes s)[24] + d))

/-- States with the same last bytes have the same counter. -/
theorem counter_congr {s t : Bytes} (h : ∀ i (hi : i < 200), 192 ≤ i → s[i] = t[i]) :
    counter s = counter t := by
  refine eq_of_byte_eq (m := 8) (by omega) fun k hk => ?_
  rw [counter, counter, byte_getElem_ofBytes _ (by omega) hk, byte_getElem_ofBytes _ (by omega) hk]
  exact h _ (by omega) (by omega)

theorem counter_zero : counter (Vector.replicate 200 0) = 0#64 := by
  refine eq_of_byte_eq (m := 8) (by omega) fun k hk => ?_
  rw [counter, byte_getElem_ofBytes _ (by omega) hk, Vector.getElem_replicate]
  exact (byte_zero k).symm

@[simp] theorem counter_bump (d : BitVec 64) (s : Bytes) :
    counter (bump d s) = counter s + d := by
  rw [counter, bump, ofBytes_toBytes, Vector.getElem_set_self, counter]

theorem getElem_bump (d : BitVec 64) (s : Bytes) {i : ℕ} (hi : i < 192) :
    (bump d s)[i] = s[i] := by
  conv_rhs => rw [← toBytes_ofBytes s]
  rw [bump, getElem_toBytes, getElem_toBytes,
    Vector.getElem_set_ne (by omega) (by omega) (by omega)]

theorem bump_bump (d e : BitVec 64) (s : Bytes) : bump e (bump d s) = bump (d + e) s := by
  rw [bump, bump, ofBytes_toBytes, Vector.getElem_set_self, Vector.set_set, bump, BitVec.add_assoc]

theorem bump_zero (s : Bytes) : bump 0 s = s := by
  have hadd : (ofBytes s)[24] + (0 : BitVec 64) = (ofBytes s)[24] := BitVec.add_zero _
  rw [bump, hadd, Vector.set_getElem_self, toBytes_ofBytes]

/-- The counter lies beyond what a sponge touches. -/
theorem counter_xorFrom (s : Bytes) {pos : ℕ} {l : List (BitVec 8)}
    (h : pos + l.length ≤ 192) : counter (xorFrom s pos l) = counter s := by
  refine counter_congr fun i hi hge => ?_
  rw [getElem_xorFrom, if_pos (by omega), List.getD_eq_default _ _ (by omega)]
  exact BitVec.xor_zero

theorem xorFrom_xorFrom_self (s : Bytes) (pos : ℕ) (l : List (BitVec 8)) :
    xorFrom (xorFrom s pos l) pos l = s := by
  ext1 i hi
  rw [getElem_xorFrom, getElem_xorFrom, BitVec.xor_assoc, BitVec.xor_self]
  exact BitVec.xor_zero

theorem getElem_xorFrom_singleton (s : Bytes) (pos : ℕ) (x : BitVec 8) {i : ℕ} (hi : i < 200) :
    (xorFrom s pos [x])[i] = if i = pos then s[i] ^^^ x else s[i] := by
  rw [getElem_xorFrom]
  rcases Nat.lt_trichotomy i pos with hlt | heq | hgt
  · rw [if_neg (by omega), if_neg (by omega)]
    exact BitVec.xor_zero
  · rw [if_pos (by omega), if_pos heq, show i - pos = 0 by omega, List.getD_cons_zero]
  · rw [if_pos (by omega), if_neg (by omega),
      List.getD_eq_default _ _ (by rw [List.length_singleton]; omega)]
    exact BitVec.xor_zero

/-! ## The permutation -/

/-- What the permutation does beside counting. -/
def twist (last : Fin 192) (n : BitVec 64) (δ : BitVec 8) (s : Bytes) : Bytes :=
  if counter s + 1 = n then xorFrom s last [δ]
  else if counter s = n then xorFrom s 0 [s[last.val]]
  else s

section Twist

variable {last : Fin 192} {n : BitVec 64} {δ : BitVec 8} {s : Bytes}

theorem counter_twist : counter (twist last n δ s) = counter s := by
  have hlast := last.isLt
  unfold twist
  split_ifs
  · exact counter_xorFrom s (by rw [List.length_singleton]; omega)
  · exact counter_xorFrom s (by rw [List.length_singleton]; omega)
  · rfl

theorem twist_twist (hpos : 0 < last.val) : twist last n δ (twist last n δ s) = s := by
  have hcounter : counter (twist last n δ s) = counter s := counter_twist
  conv_lhs => rw [twist, hcounter]
  unfold twist
  split_ifs
  · exact xorFrom_xorFrom_self s _ _
  · have hbyte : (xorFrom s 0 [s[last.val]])[last.val] = s[last.val] := by
      rw [getElem_xorFrom_singleton, if_neg (by omega)]
    rw [hbyte]
    exact xorFrom_xorFrom_self s _ _
  · rfl

end Twist

/-- Twist, then count. -/
def probe (last : Fin 192) (hpos : 0 < last.val) (n : BitVec 64) (δ : BitVec 8) :
    Equiv.Perm Bytes where
  toFun s := bump 1 (twist last n δ s)
  invFun s := twist last n δ (bump (-1) s)
  left_inv s := by
    have hcancel : (1 : BitVec 64) + -1 = 0 := by decide
    dsimp only
    rw [bump_bump, hcancel, bump_zero, twist_twist hpos]
  right_inv s := by
    have hcancel : (-1 : BitVec 64) + 1 = 0 := by decide
    dsimp only
    rw [twist_twist hpos, bump_bump, hcancel, bump_zero]

section Probe

variable {last : Fin 192} (hpos : 0 < last.val) {n : BitVec 64} (δ : BitVec 8)

theorem counter_probe (s : Bytes) : counter (probe last hpos n δ s) = counter s + 1 := by
  change counter (bump 1 (twist last n δ s)) = counter s + 1
  rw [counter_bump, counter_twist]

/-- Before call `n` nothing depends on `δ`. -/
theorem probe_congr {s : Bytes} (h : counter s + 1 ≠ n) (ε : BitVec 8) :
    probe last hpos n δ s = probe last hpos n ε s := by
  change bump 1 (twist last n δ s) = bump 1 (twist last n ε s)
  rw [twist, twist, if_neg h, if_neg h]

/-- On call `n` the probed byte is moved by `δ`. -/
theorem getElem_probe_last {s : Bytes} (h : counter s + 1 = n) :
    (probe last hpos n δ s)[last.val] = s[last.val] ^^^ δ := by
  change (bump 1 (twist last n δ s))[last.val] = s[last.val] ^^^ δ
  rw [getElem_bump _ _ last.isLt, twist, if_pos h, getElem_xorFrom_singleton, if_pos rfl]

/-- **On the next call the probed byte shows** at the front. -/
theorem probe_getElem_zero_ne {u v : Bytes} (hu : counter u = n) (hv : counter v = n)
    (hfront : u[0] = v[0]) (hlast : u[last.val] ≠ v[last.val]) :
    (probe last hpos n δ u)[0] ≠ (probe last hpos n δ v)[0] := by
  have hshow : ∀ w : Bytes, counter w = n →
      (probe last hpos n δ w)[0] = w[0] ^^^ w[last.val] := by
    intro w hw
    change (bump 1 (twist last n δ w))[0] = w[0] ^^^ w[last.val]
    have hne : ¬ counter w + 1 = n := by
      rw [hw]
      bv_omega
    rw [getElem_bump _ _ (by omega), twist, if_neg hne, if_pos hw, getElem_xorFrom_singleton,
      if_pos rfl]
  rw [hshow u hu, hshow v hv, hfront]
  intro h
  exact hlast ((BitVec.xor_right_inj _).mp h)

end Probe

/-! ## The probe in a sponge -/

section Absorb

variable (last : Fin 192) (hpos : 0 < last.val) {r : ℕ} (hr : r ≤ 192) (m : List (BitVec 8))

include hr

/-- The counter counts the blocks. -/
theorem counter_absorbBlocks (n : BitVec 64) (δ : BitVec 8) (k : ℕ) :
    counter (absorbBlocks (probe last hpos n δ) r (Vector.replicate 200 0) m k) =
      BitVec.ofNat 64 k := by
  induction k with
  | zero => rw [absorbBlocks_zero, counter_zero]
  | succ k ih =>
    rw [absorbBlocks_succ, counter_probe, counter_xorFrom _ (by rw [List.length_take]; omega),
      ih, BitVec.ofNat_add]
    rfl

/-- The blocks before call `n` are absorbed in the same way for every `δ`. -/
theorem absorbBlocks_congr {n : ℕ} (hn : n < 2 ^ 64) (δ ε : BitVec 8) {k : ℕ} (hk : k < n) :
    absorbBlocks (probe last hpos (BitVec.ofNat 64 n) δ) r (Vector.replicate 200 0) m k =
      absorbBlocks (probe last hpos (BitVec.ofNat 64 n) ε) r (Vector.replicate 200 0) m k := by
  induction k with
  | zero => rw [absorbBlocks_zero, absorbBlocks_zero]
  | succ k ih =>
    rw [absorbBlocks_succ, absorbBlocks_succ, ih (by omega)]
    apply probe_congr
    rw [counter_xorFrom _ (by rw [List.length_take]; omega), counter_absorbBlocks last hpos hr]
    intro h
    have hnat := congrArg BitVec.toNat h
    rw [BitVec.toNat_add, BitVec.toNat_ofNat, BitVec.toNat_ofNat,
      show (1 : BitVec 64).toNat = 1 from rfl] at hnat
    omega

/-- **The probed byte takes any value** after the last block. -/
theorem exists_getElem_absorbBlocks {n : ℕ} (hn : n + 1 < 2 ^ 64) (x : BitVec 8) :
    ∃ δ, (absorbBlocks (probe last hpos (BitVec.ofNat 64 (n + 1)) δ) r
      (Vector.replicate 200 0) m (n + 1))[last.val] = x := by
  refine ⟨(xorFrom (absorbBlocks (probe last hpos (BitVec.ofNat 64 (n + 1)) 0) r
    (Vector.replicate 200 0) m n) 0 ((m.drop (n * r)).take r))[last.val] ^^^ x, ?_⟩
  have hcounter : ∀ δ, counter (xorFrom (absorbBlocks
      (probe last hpos (BitVec.ofNat 64 (n + 1)) δ) r (Vector.replicate 200 0) m n) 0
      ((m.drop (n * r)).take r)) + 1 = BitVec.ofNat 64 (n + 1) := by
    intro δ
    rw [counter_xorFrom _ (by rw [List.length_take]; omega), counter_absorbBlocks last hpos hr,
      BitVec.ofNat_add]
    rfl
  rw [absorbBlocks_succ, getElem_probe_last hpos _ (hcounter _),
    absorbBlocks_congr last hpos hr m hn _ 0 (Nat.lt_succ_self n), ← BitVec.xor_assoc,
    BitVec.xor_self]
  exact BitVec.zero_xor

end Absorb

end Keccak
end FpgaEthash
