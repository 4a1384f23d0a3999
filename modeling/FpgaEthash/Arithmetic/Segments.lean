import Mathlib.Data.Nat.Basic
import Mathlib.Data.Set.Basic
import Mathlib.Order.CompletePartialOrder
import Mathlib.Order.Disjoint
import Mathlib.Data.Set.Lattice
import Mathlib.Tactic.Ring
import Mathlib.Tactic.Linarith

/-!
# Segments of the integers modulo `2 ^ N`

A segment is a run of consecutive `N`-bit words.  It may wrap around the end of
the range, so it is a set and not an interval: `segment a len` holds the words
`a, a + 1, …, a + len - 1`, with addition modulo `2 ^ N`.

* `disjoint_segment_mul`: cutting a stretch of at most `2 ^ N` words into equal
  pieces gives disjoint segments, wherever the stretch starts.
* `disjoint_segment_mul_mul`: so do pieces of these pieces, as long as they stay inside.
* `ushiftRight_add_ofNat`: if the low `k` bits of the base are zero and the offset
  stays below `2 ^ k`, the bits above are those of the base.
-/

namespace FpgaEthash
namespace Segments

variable {N : ℕ}

/-- The `len` words from `a` on, modulo `2 ^ N`. -/
def segment (a : BitVec N) (len : ℕ) : Set (BitVec N) :=
  {v | ∃ k < len, v = a + BitVec.ofNat N k}

theorem self_mem_segment (a : BitVec N) {len : ℕ} (h : 0 < len) : a ∈ segment a len :=
  ⟨0, h, by simp⟩

/-- Two offsets inside the range name the same word only if they are equal. -/
theorem add_ofNat_inj {a : BitVec N} {x y : ℕ} (hx : x < 2 ^ N) (hy : y < 2 ^ N) :
    a + BitVec.ofNat N x = a + BitVec.ofNat N y ↔ x = y := by
  constructor
  · intro h
    have h' : BitVec.ofNat N x = BitVec.ofNat N y := (BitVec.add_right_inj a).mp h
    have hnat := congrArg BitVec.toNat h'
    rwa [BitVec.toNat_ofNat, BitVec.toNat_ofNat, Nat.mod_eq_of_lt hx,
      Nat.mod_eq_of_lt hy] at hnat
  · rintro rfl
    rfl

/-- An offset inside piece `i` lies below the end of piece `n - 1`. -/
theorem mul_add_lt {i n len k : ℕ} (hi : i < n) (hk : k < len) :
    i * len + k < n * len := by
  calc i * len + k < i * len + len := by omega
    _ = (i + 1) * len := by ring
    _ ≤ n * len := Nat.mul_le_mul_right len hi

/-- **Equal pieces are disjoint.**  The pieces `i` and `j` of a stretch of `n`
pieces, together no longer than the whole range, share no word. -/
theorem disjoint_segment_mul {a : BitVec N} {n len i j : ℕ} (hfit : n * len ≤ 2 ^ N)
    (hi : i < n) (hj : j < n) (hij : i ≠ j) :
    Disjoint (segment (a + BitVec.ofNat N (i * len)) len)
      (segment (a + BitVec.ofNat N (j * len)) len) := by
  rw [Set.disjoint_left]
  rintro v ⟨k, hk, rfl⟩ ⟨l, hl, heq⟩
  rw [BitVec.add_assoc, BitVec.add_assoc, ← BitVec.ofNat_add, ← BitVec.ofNat_add] at heq
  have hx : i * len + k < 2 ^ N := lt_of_lt_of_le (mul_add_lt hi hk) hfit
  have hy : j * len + l < 2 ^ N := lt_of_lt_of_le (mul_add_lt hj hl) hfit
  have hsum : i * len + k = j * len + l := (add_ofNat_inj hx hy).mp heq
  have hlen : 0 < len := by omega
  -- the quotient by the length tells the pieces apart
  have hi' : (i * len + k) / len = i := by
    rw [Nat.mul_comm, Nat.mul_add_div hlen, Nat.div_eq_of_lt hk, Nat.add_zero]
  have hj' : (j * len + l) / len = j := by
    rw [Nat.mul_comm, Nat.mul_add_div hlen, Nat.div_eq_of_lt hl, Nat.add_zero]
  rw [hsum, hj'] at hi'
  exact hij hi'.symm

/-- A word of piece `i`, as an offset from the start of the stretch. -/
theorem exists_offset_of_mem_segment_mul {a v : BitVec N} {n len i : ℕ} (hi : i < n)
    (hv : v ∈ segment (a + BitVec.ofNat N (i * len)) len) :
    ∃ r < n * len, v = a + BitVec.ofNat N r := by
  obtain ⟨k, hk, rfl⟩ := hv
  refine ⟨i * len + k, mul_add_lt hi hk, ?_⟩
  rw [BitVec.add_assoc, ← BitVec.ofNat_add]

/-- A part of a segment. -/
theorem segment_add_subset (a : BitVec N) {len part x : ℕ} (h : x + part ≤ len) :
    segment (a + BitVec.ofNat N x) part ⊆ segment a len := by
  rintro v ⟨k, hk, rfl⟩
  refine ⟨x + k, by omega, ?_⟩
  rw [BitVec.add_assoc, ← BitVec.ofNat_add]

/-- **Pieces of pieces are disjoint.**  Part `k` of piece `i` and part `l` of piece `j` share
no word unless they are the same part of the same piece. -/
theorem disjoint_segment_mul_mul {a : BitVec N} {n len part i j k l : ℕ}
    (hfit : n * len ≤ 2 ^ N) (hi : i < n) (hj : j < n) (hk : (k + 1) * part ≤ len)
    (hl : (l + 1) * part ≤ len) (hne : i ≠ j ∨ k ≠ l) :
    Disjoint (segment (a + BitVec.ofNat N (i * len) + BitVec.ofNat N (k * part)) part)
      (segment (a + BitVec.ofNat N (j * len) + BitVec.ofNat N (l * part)) part) := by
  rw [Nat.succ_mul] at hk hl
  by_cases hij : i = j
  · obtain rfl := hij
    have hkl : k ≠ l := hne.resolve_left (not_not_intro rfl)
    have hlen : len ≤ 2 ^ N := le_trans (Nat.le_mul_of_pos_left len (by omega)) hfit
    refine disjoint_segment_mul (n := max k l + 1) ?_ (by omega) (by omega) hkl
    rw [Nat.succ_mul]
    rcases Nat.le_total k l with h | h
    · rw [Nat.max_eq_right h]
      exact le_trans hl hlen
    · rw [Nat.max_eq_left h]
      exact le_trans hk hlen
  · exact Set.disjoint_of_subset (segment_add_subset _ hk) (segment_add_subset _ hl)
      (disjoint_segment_mul hfit hi hj hij)

/-- Adding an offset below `2 ^ k` to a word whose low `k` bits are zero does not
carry. -/
theorem toNat_add_ofNat_of_mod {a : BitVec N} {k r : ℕ} (hk : k ≤ N)
    (ha : a.toNat % 2 ^ k = 0) (hr : r < 2 ^ k) :
    (a + BitVec.ofNat N r).toNat = a.toNat + r := by
  have hpow : 2 ^ N = 2 ^ k * 2 ^ (N - k) := by rw [← Nat.pow_add, Nat.add_sub_cancel' hk]
  have hq : a.toNat = 2 ^ k * (a.toNat / 2 ^ k) := by
    have := Nat.div_add_mod a.toNat (2 ^ k)
    omega
  have hlt : a.toNat / 2 ^ k < 2 ^ (N - k) := by
    rw [Nat.div_lt_iff_lt_mul (Nat.two_pow_pos k), Nat.mul_comm, ← hpow]
    exact a.isLt
  have hbound : a.toNat + r < 2 ^ N := by
    calc a.toNat + r < 2 ^ k * (a.toNat / 2 ^ k) + 2 ^ k := by omega
      _ = 2 ^ k * (a.toNat / 2 ^ k + 1) := by ring
      _ ≤ 2 ^ k * 2 ^ (N - k) := Nat.mul_le_mul_left _ hlt
      _ = 2 ^ N := hpow.symm
  have hrN : r < 2 ^ N := by omega
  rw [BitVec.toNat_add, BitVec.toNat_ofNat, Nat.mod_eq_of_lt hrN, Nat.mod_eq_of_lt hbound]

/-- **The bits above an aligned stretch do not change.** -/
theorem ushiftRight_add_ofNat {a : BitVec N} {k r : ℕ} (hk : k ≤ N)
    (ha : a.toNat % 2 ^ k = 0) (hr : r < 2 ^ k) :
    (a + BitVec.ofNat N r) >>> k = a >>> k := by
  apply BitVec.eq_of_toNat_eq
  rw [BitVec.toNat_ushiftRight, BitVec.toNat_ushiftRight, toNat_add_ofNat_of_mod hk ha hr,
    Nat.shiftRight_eq_div_pow, Nat.shiftRight_eq_div_pow]
  have hq : a.toNat = 2 ^ k * (a.toNat / 2 ^ k) := by
    have := Nat.div_add_mod a.toNat (2 ^ k)
    omega
  rw [hq, Nat.mul_add_div (Nat.two_pow_pos k), Nat.div_eq_of_lt hr,
    Nat.mul_div_cancel_left _ (Nat.two_pow_pos k), Nat.add_zero]

end Segments
end FpgaEthash
