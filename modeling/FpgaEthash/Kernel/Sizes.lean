import FpgaEthash.Arithmetic.PrimeDescent
import FpgaEthash.Computation.Loops
import Mathlib.Tactic.NormNum.Prime

/-!
# The sizes of the cache and of the DAG, in the kernel

`isprime`, `get_cache_size` and `get_full_dag_size` of `kernel_func.cpp`, with `sqrt` as the
integer square root.

Both functions start an odd number of units up, and go down two units at a time.  `isprime` tries
the divisors below the square root, and not the root itself, so the way down may end too early:
at the square of a prime, or at the product of twin primes (`PrimeDescent.Deceptive`).  Epoch 3058
has the cache size `64 * 4799 * 4801`.
-/

namespace FpgaEthash
namespace Kernel

open PrimeDescent

/-! ## The functions -/

/-- `isprime`.  The quotients that it is called with are below `2 ^ 58`, so that the square root
is an `int`. -/
def isprime (x : BitVec 64) : Bool :=
  (List.range' 2 (x.toNat.sqrt - 2)).all fun i => x.toNat % i != 0

/-- The loop of the size functions: one test, and the step if it fails. -/
def sizeTurn (unit sz : BitVec 64) : BitVec 64 ⊕ BitVec 64 :=
  if isprime (sz / unit) then .inl sz else .inr (sz - 2 * unit)

/-- `sz`, before one unit is taken away. -/
def initialSize (blockNumber : BitVec 64) : BitVec 64 :=
  1073741824 + 131072 * (blockNumber / 30000)

/-- `get_cache_size`, with `HASH_BYTES`. -/
def getCacheSize (fuel : ℕ) (blockNumber : BitVec 64) : Option (BitVec 64) :=
  Loops.run (sizeTurn 64) fuel (initialSize blockNumber - 64)

/-- `get_full_dag_size`, with `MIX_BYTES`. -/
def getFullDagSize (fuel : ℕ) (blockNumber : BitVec 64) : Option (BitVec 64) :=
  Loops.run (sizeTurn 128) fuel (initialSize blockNumber - 128)

/-! ## The way down -/

theorem isprime_iff {x : BitVec 64} : isprime x = true ↔ PassesBelowSqrt x.toNat := by
  simp only [isprime, List.all_eq_true, List.mem_range'_1, bne_iff_ne, PassesBelowSqrt,
    Nat.dvd_iff_mod_eq_zero]
  constructor
  · exact fun h i hi hlt => h i ⟨hi, by omega⟩
  · exact fun h i hi => h i hi.1 (by omega)

/-- The size after a number of steps. -/
def stepsDown (unit sz : BitVec 64) : ℕ → BitVec 64
  | 0 => sz
  | k + 1 => stepsDown unit sz k - 2 * unit

section

variable {unit sz : BitVec 64} {q : ℕ}

/-- The steps do not go below zero while there are units left. -/
theorem toNat_stepsDown (hsz : sz.toNat = unit.toNat * q) {k : ℕ} (hk : 2 * k ≤ q) :
    (stepsDown unit sz k).toNat = unit.toNat * q - 2 * unit.toNat * k := by
  induction k with
  | zero => exact hsz
  | succ k ih =>
    have hroom : 2 * unit.toNat * (k + 1) ≤ unit.toNat * q :=
      calc 2 * unit.toNat * (k + 1) = unit.toNat * (2 * (k + 1)) := by ring
        _ ≤ unit.toNat * q := Nat.mul_le_mul_left _ hk
    have hlt : unit.toNat * q < 2 ^ 64 := hsz ▸ sz.isLt
    have hstep : 2 * unit.toNat * (k + 1) = 2 * unit.toNat * k + 2 * unit.toNat := by ring
    have htwo : (2 * unit).toNat = 2 * unit.toNat := by
      rw [BitVec.toNat_mul]
      exact Nat.mod_eq_of_lt (show 2 * unit.toNat < 2 ^ 64 by omega)
    rw [stepsDown, BitVec.toNat_sub_of_le (by rw [BitVec.le_def, htwo, ih (by omega)]; omega),
      htwo, ih (by omega)]
    omega

theorem toNat_stepsDown_div (hunit : 0 < unit.toNat) (hsz : sz.toNat = unit.toNat * q) {k : ℕ}
    (hk : 2 * k ≤ q) : (stepsDown unit sz k / unit).toNat = q - 2 * k := by
  rw [BitVec.toNat_udiv, toNat_stepsDown hsz hk, sub_mul_div hunit]

/-- **The loop comes back**, at the first size whose quotient passes. -/
theorem exists_returns (hunit : 0 < unit.toNat) (hsz : sz.toNat = unit.toNat * q)
    (hodd : q % 2 = 1) (hq : 3 ≤ q) :
    ∃ x, Loops.Returns (sizeTurn unit) sz x ∧
      (IsFirst unit.toNat sz.toNat x.toNat ↔ Undeceived q) := by
  obtain ⟨k, hk, hpass, hbefore⟩ := exists_passes hodd hq
  refine ⟨stepsDown unit sz k, ?_, ?_⟩
  · refine Loops.returns_along (stepsDown unit sz) (fun j hj => if_neg ?_) (if_pos ?_)
    · rw [isprime_iff, toNat_stepsDown_div hunit hsz (by omega)]
      exact hbefore j hj
    · rw [isprime_iff, toNat_stepsDown_div hunit hsz (by omega)]
      exact hpass
  · rw [hsz, toNat_stepsDown hsz (by omega), isFirst_iff hunit (by omega)]
    exact first_iff_undeceived hodd hk hpass hbefore

end

/-! ## The sizes -/

/-- A function returns the first size with a prime quotient. -/
def ReturnsFirst (getSize : ℕ → BitVec 64 → Option (BitVec 64)) (unit : ℕ)
    (blockNumber : BitVec 64) : Prop :=
  ∃ x, (∃ fuel, getSize fuel blockNumber = some x) ∧
    IsFirst unit (2 ^ 30 + 2 ^ 17 * (blockNumber.toNat / 30000) - unit) x.toNat

/-- The quotient of the size that the way down starts with. -/
def startQuotient (unit : ℕ) (blockNumber : BitVec 64) : ℕ :=
  (2 ^ 30 + 2 ^ 17 * (blockNumber.toNat / 30000)) / unit - 1

theorem toNat_initialSize {blockNumber : BitVec 64}
    (hlt : 2 ^ 30 + 2 ^ 17 * (blockNumber.toNat / 30000) < 2 ^ 52) :
    (initialSize blockNumber).toNat = 2 ^ 30 + 2 ^ 17 * (blockNumber.toNat / 30000) := by
  have hepoch : (blockNumber / 30000).toNat = blockNumber.toNat / 30000 := BitVec.toNat_udiv
  rw [initialSize, BitVec.toNat_add, BitVec.toNat_mul, hepoch]
  show (1073741824 + 131072 * (blockNumber.toNat / 30000) % 2 ^ 64) % 2 ^ 64 = _
  omega

/-- **What a size function returns**, for a unit of which `2 ^ 17` bytes are an even number. -/
theorem returnsFirst_iff (unit : BitVec 64) {blockNumber : BitVec 64}
    {getSize : ℕ → BitVec 64 → Option (BitVec 64)}
    (hget : ∀ fuel, getSize fuel blockNumber =
      Loops.run (sizeTurn unit) fuel (initialSize blockNumber - unit))
    {m : ℕ} (hm : unit.toNat * (2 * m) = 2 ^ 17)
    (hlt : 2 ^ 30 + 2 ^ 17 * (blockNumber.toNat / 30000) < 2 ^ 52) :
    (∃ fuel x, getSize fuel blockNumber = some x) ∧
      (ReturnsFirst getSize unit.toNat blockNumber ↔
        Undeceived (startQuotient unit.toNat blockNumber)) := by
  have hunit : 0 < unit.toNat := Nat.pos_of_ne_zero fun h0 => by
    rw [h0] at hm
    omega
  have hmpos : 0 < m := Nat.pos_of_ne_zero fun h0 => by
    rw [h0] at hm
    omega
  -- The size is an even number of units, of which one is taken away.
  obtain ⟨n, hn⟩ : ∃ n, n = m * (8192 + blockNumber.toNat / 30000) := ⟨_, rfl⟩
  have hnpos : 8192 ≤ n :=
    calc 8192 ≤ 1 * (8192 + blockNumber.toNat / 30000) := by omega
      _ ≤ n := hn ▸ Nat.mul_le_mul_right _ hmpos
  have htotal : 2 ^ 30 + 2 ^ 17 * (blockNumber.toNat / 30000) = unit.toNat * (2 * n) := by
    rw [hn, ← hm]
    calc 2 ^ 30 + unit.toNat * (2 * m) * (blockNumber.toNat / 30000)
        = 2 ^ 17 * 8192 + unit.toNat * (2 * m) * (blockNumber.toNat / 30000) := by norm_num
      _ = unit.toNat * (2 * (m * (8192 + blockNumber.toNat / 30000))) := by
          rw [← hm]
          ring
  have hsub : unit.toNat * (2 * n) - unit.toNat = unit.toNat * (2 * n - 1) := by
    rw [Nat.mul_sub, Nat.mul_one]
  have hstart : startQuotient unit.toNat blockNumber = 2 * n - 1 := by
    rw [startQuotient, htotal, Nat.mul_div_cancel_left _ hunit]
  have hsz : (initialSize blockNumber - unit).toNat = unit.toNat * (2 * n - 1) := by
    have hinit := toNat_initialSize hlt
    have hle : unit.toNat ≤ unit.toNat * (2 * n) := Nat.le_mul_of_pos_right _ (by omega)
    rw [BitVec.toNat_sub_of_le (by rw [BitVec.le_def, hinit, htotal]; exact hle), hinit, htotal,
      hsub]
  obtain ⟨x, hx, hiff⟩ := exists_returns hunit hsz (by omega) (by omega)
  obtain ⟨fuel, hfuel⟩ := hx
  refine ⟨⟨fuel, x, by rw [hget, hfuel]⟩, ?_⟩
  rw [hstart, ← hiff, hsz, ReturnsFirst, htotal, hsub]
  constructor
  · rintro ⟨x', ⟨fuel', hfuel'⟩, hfirst⟩
    rw [hget] at hfuel'
    have hxx : x = x' := Loops.Returns.unique ⟨fuel, hfuel⟩ ⟨fuel', hfuel'⟩
    rwa [hxx]
  · exact fun hfirst => ⟨x, ⟨fuel, by rw [hget, hfuel]⟩, hfirst⟩

theorem getCacheSize_returnsFirst_iff {blockNumber : BitVec 64}
    (hlt : 2 ^ 30 + 2 ^ 17 * (blockNumber.toNat / 30000) < 2 ^ 52) :
    (∃ fuel x, getCacheSize fuel blockNumber = some x) ∧
      (ReturnsFirst getCacheSize 64 blockNumber ↔ Undeceived (startQuotient 64 blockNumber)) :=
  returnsFirst_iff 64 (fun _ => rfl) (m := 1024) rfl hlt

theorem getFullDagSize_returnsFirst_iff {blockNumber : BitVec 64}
    (hlt : 2 ^ 30 + 2 ^ 17 * (blockNumber.toNat / 30000) < 2 ^ 52) :
    (∃ fuel x, getFullDagSize fuel blockNumber = some x) ∧
      (ReturnsFirst getFullDagSize 128 blockNumber ↔
        Undeceived (startQuotient 128 blockNumber)) :=
  returnsFirst_iff 128 (fun _ => rfl) (m := 512) rfl hlt

/-- **The sizes of the kernel.**  Both functions come back.  They return the first size with a
prime quotient exactly where no square of a prime and no product of twin primes stands, on the
way down, before the first prime. -/
theorem sizes_returnFirst_iff (blockNumber : BitVec 64)
    (hlt : 2 ^ 30 + 2 ^ 17 * (blockNumber.toNat / 30000) < 2 ^ 52) :
    ((∃ fuel x, getCacheSize fuel blockNumber = some x) ∧
      (ReturnsFirst getCacheSize 64 blockNumber ↔ Undeceived (startQuotient 64 blockNumber))) ∧
    ((∃ fuel x, getFullDagSize fuel blockNumber = some x) ∧
      (ReturnsFirst getFullDagSize 128 blockNumber ↔
        Undeceived (startQuotient 128 blockNumber))) :=
  ⟨getCacheSize_returnsFirst_iff hlt, getFullDagSize_returnsFirst_iff hlt⟩

/-- Epoch 46, whose starting quotients are primes. -/
theorem sizes_returnFirst_46 :
    ReturnsFirst getCacheSize 64 1380000 ∧ ReturnsFirst getFullDagSize 128 1380000 := by
  have hc : startQuotient 64 1380000 = 16871423 := rfl
  have hd : startQuotient 128 1380000 = 8435711 := rfl
  have hsizes := sizes_returnFirst_iff 1380000 (by decide)
  constructor
  · rw [hsizes.1.2, hc]
    exact undeceived_of_prime (by norm_num)
  · rw [hsizes.2.2, hd]
    exact undeceived_of_prime (by norm_num)

/-- Epochs 3058 and 1609, which start with the products of twin primes: the functions take them
for primes. -/
theorem sizes_of_twin_primes :
    getCacheSize 1 91740000 = some (64 * (4799 * 4801)) ∧
      ¬ ReturnsFirst getCacheSize 64 91740000 ∧
      getFullDagSize 1 48270000 = some (128 * (3167 * 3169)) ∧
      ¬ ReturnsFirst getFullDagSize 128 48270000 := by
  have hcache : Deceptive (4799 * 4801) :=
    ⟨4799, by norm_num, .inr ⟨by norm_num, by norm_num⟩⟩
  have hdag : Deceptive (3167 * 3169) :=
    ⟨3167, by norm_num, .inr ⟨by norm_num, by norm_num⟩⟩
  have hcacheStart : ((initialSize 91740000 - 64) / 64).toNat = 4799 * 4801 := by decide
  have hdagStart : ((initialSize 48270000 - 128) / 128).toNat = 3167 * 3169 := by decide
  have hcacheTurn : sizeTurn 64 (initialSize 91740000 - 64) = .inl (64 * (4799 * 4801)) :=
    if_pos (isprime_iff.mpr (passes_of_deceptive (hcacheStart ▸ hcache)))
  have hdagTurn : sizeTurn 128 (initialSize 48270000 - 128) = .inl (128 * (3167 * 3169)) :=
    if_pos (isprime_iff.mpr (passes_of_deceptive (hdagStart ▸ hdag)))
  refine ⟨Loops.run_of_inl hcacheTurn 0, ?_, Loops.run_of_inl hdagTurn 0, ?_⟩
  · rw [(getCacheSize_returnsFirst_iff (by decide)).2]
    exact not_undeceived_of_deceptive hcache
  · rw [(getFullDagSize_returnsFirst_iff (by decide)).2]
    exact not_undeceived_of_deceptive hdag

end Kernel
end FpgaEthash
