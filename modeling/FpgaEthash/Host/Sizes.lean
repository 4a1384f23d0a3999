import FpgaEthash.Arithmetic.PrimeDescent
import FpgaEthash.Computation.Checked
import FpgaEthash.Computation.Loops
import Mathlib.Tactic.NormNum.Prime

/-!
# The sizes of the DAG and of the cache, on the host

`E_epoch`, `E_prime`, `get_d_size` and `get_c_size` of `fpga_ethash.cpp`.

`E_prime` goes down in steps of two units, and stops at the first size that the unit divides.
The sizes that it is called with are multiples of the unit, so it stops before the first step,
and the size of an epoch is the one that the search should start with (`ePrime_of_dvd`).  This is
the first size with a prime quotient only in the epochs where that quotient happens to be a prime.
-/

namespace FpgaEthash
namespace Host

open Checked PrimeDescent

/-! ## The functions -/

/-- `E_epoch`, with `EPOCH_LENGTH`. -/
def eEpoch (blockNumber : BitVec 64) : BitVec 64 := blockNumber / 30000

/-- One call of `E_prime`: what it returns, or the arguments of the call that it makes. -/
def ePrimeCall (args : BitVec 64 × BitVec 64) :
    Except Fault (BitVec 64) ⊕ (BitVec 64 × BitVec 64) :=
  match umod args.1 args.2 with
  | .error fault => .inl (.error fault)
  | .ok r => if r = 0 then .inl (.ok args.1) else .inr (args.1 - 2 * args.2, args.2)

/-- `E_prime`. -/
def ePrime (fuel : ℕ) (x y : BitVec 64) : Option (Except Fault (BitVec 64)) :=
  Loops.run ePrimeCall fuel (x, y)

/-- `get_d_size`, with `DATASET_BYTES_INIT`, `DATASET_BYTES_GROWTH` and `MIX_BYTES`. -/
def getDSize (fuel : ℕ) (blockNumber : BitVec 64) : Option (Except Fault (BitVec 64)) :=
  ePrime fuel (1073741824 + 8388608 * eEpoch blockNumber - 128) 128

/-- `get_c_size`, with `CACHE_BYTES_INIT`, `CACHE_BYTES_GROWTH` and `HASH_BYTES`. -/
def getCSize (fuel : ℕ) (blockNumber : BitVec 64) : Option (Except Fault (BitVec 64)) :=
  ePrime fuel (16777216 + 131072 * eEpoch blockNumber - 64) 64

/-! ## What `E_prime` stops at -/

/-- **A multiple of the unit is returned at once.** -/
theorem ePrime_of_dvd {x y : BitVec 64} (hy : y ≠ 0) (hdvd : y.toNat ∣ x.toNat) (fuel : ℕ) :
    ePrime (fuel + 1) x y = some (.ok x) := by
  have hmod : x % y = 0 := BitVec.toNat_inj.mp (Nat.mod_eq_zero_of_dvd hdvd)
  refine Loops.run_of_inl ?_ fuel
  rw [ePrimeCall, umod_of_ne_zero x hy, hmod]
  exact if_pos rfl

/-! ## The sizes -/

/-- The size that the search of an epoch starts with: `init` bytes, `growth` more for each epoch,
and one unit less. -/
def startSize (init growth unit : ℕ) (blockNumber : BitVec 64) : ℕ :=
  init + growth * (blockNumber.toNat / 30000) - unit

/-- A function returns the first size with a prime quotient. -/
def ReturnsFirst (getSize : ℕ → BitVec 64 → Option (Except Fault (BitVec 64)))
    (unit start : ℕ) (blockNumber : BitVec 64) : Prop :=
  ∃ x, (∃ fuel, getSize fuel blockNumber = some (.ok x)) ∧ IsFirst unit start x.toNat

section

variable (init growth unit : BitVec 64) {blockNumber : BitVec 64}

/-- Without an overflow the machine word is the size. -/
theorem toNat_startSize (hunit : unit.toNat ≤ init.toNat)
    (hlt : init.toNat + growth.toNat * (blockNumber.toNat / 30000) < 2 ^ 64) :
    (init + growth * eEpoch blockNumber - unit).toNat =
      startSize init.toNat growth.toNat unit.toNat blockNumber := by
  have hepoch : (eEpoch blockNumber).toNat = blockNumber.toNat / 30000 := BitVec.toNat_udiv
  rw [BitVec.toNat_sub, BitVec.toNat_add, BitVec.toNat_mul, hepoch, startSize]
  generalize growth.toNat * (blockNumber.toNat / 30000) = grown at hlt ⊢
  omega

/-- **What a size function returns**, for constants of which the first two are multiples of the
unit: the size that the search starts with. -/
theorem returnsFirst_iff {getSize : ℕ → BitVec 64 → Option (Except Fault (BitVec 64))}
    (hget : ∀ fuel, getSize fuel blockNumber =
      ePrime fuel (init + growth * eEpoch blockNumber - unit) unit)
    (hunit : 0 < unit.toNat) (hle : 2 * unit.toNat ≤ init.toNat) (hinit : unit.toNat ∣ init.toNat)
    (hgrowth : unit.toNat ∣ growth.toNat)
    (hlt : init.toNat + growth.toNat * (blockNumber.toNat / 30000) < 2 ^ 64) :
    (∃ fuel x, getSize fuel blockNumber = some (.ok x)) ∧
      (ReturnsFirst getSize unit.toNat
          (startSize init.toNat growth.toNat unit.toNat blockNumber) blockNumber ↔
        (startSize init.toNat growth.toNat unit.toNat blockNumber / unit.toNat).Prime) := by
  have hne : unit ≠ 0 := fun h => by
    rw [h] at hunit
    exact Nat.lt_irrefl 0 hunit
  have hword := toNat_startSize init growth unit (by omega) hlt
  obtain ⟨q, hq⟩ : unit.toNat ∣ startSize init.toNat growth.toNat unit.toNat blockNumber :=
    Nat.dvd_sub (Nat.dvd_add hinit (hgrowth.mul_right _)) (Nat.dvd_refl _)
  have hqpos : 0 < q := by
    refine Nat.pos_of_ne_zero fun h0 => ?_
    rw [h0, startSize] at hq
    omega
  have hstop : ∀ fuel, getSize (fuel + 1) blockNumber =
      some (.ok (init + growth * eEpoch blockNumber - unit)) := fun fuel => by
    rw [hget, ePrime_of_dvd hne (hword ▸ hq ▸ Nat.dvd_mul_right _ q)]
  refine ⟨⟨1, _, hstop 0⟩, ?_⟩
  rw [hq, Nat.mul_div_cancel_left q hunit]
  constructor
  · rintro ⟨x, ⟨fuel, hfuel⟩, hx⟩
    have hxeq : x = init + growth * eEpoch blockNumber - unit := by
      have hsome : Loops.Returns ePrimeCall _ (Except.ok x) := ⟨fuel, by rw [← hfuel, hget]; rfl⟩
      have hself : Loops.Returns ePrimeCall _ _ := ⟨1, (hget 1).symm.trans (hstop 0)⟩
      exact Except.ok.inj (hsome.unique hself)
    rwa [hxeq, hword, hq, isFirst_self_iff hunit hqpos] at hx
  · intro hprime
    refine ⟨_, ⟨1, hstop 0⟩, ?_⟩
    rwa [hword, hq, isFirst_self_iff hunit hqpos]

end

theorem getDSize_returnsFirst_iff {blockNumber : BitVec 64}
    (hlt : 1073741824 + 8388608 * (blockNumber.toNat / 30000) < 2 ^ 64) :
    (∃ fuel x, getDSize fuel blockNumber = some (.ok x)) ∧
      (ReturnsFirst getDSize 128 (startSize 1073741824 8388608 128 blockNumber) blockNumber ↔
        (startSize 1073741824 8388608 128 blockNumber / 128).Prime) :=
  returnsFirst_iff 1073741824 8388608 128 (fun _ => rfl) (by decide) (by decide)
    ⟨8388608, rfl⟩ ⟨65536, rfl⟩ hlt

theorem getCSize_returnsFirst_iff {blockNumber : BitVec 64}
    (hlt : 16777216 + 131072 * (blockNumber.toNat / 30000) < 2 ^ 64) :
    (∃ fuel x, getCSize fuel blockNumber = some (.ok x)) ∧
      (ReturnsFirst getCSize 64 (startSize 16777216 131072 64 blockNumber) blockNumber ↔
        (startSize 16777216 131072 64 blockNumber / 64).Prime) :=
  returnsFirst_iff 16777216 131072 64 (fun _ => rfl) (by decide) (by decide)
    ⟨262144, rfl⟩ ⟨2048, rfl⟩ hlt

/-- **The sizes of the host.**  Without an overflow both functions come back.  They return the
first size with a prime quotient in the epochs whose starting size has a prime quotient. -/
theorem sizes_returnsFirst_iff (blockNumber : BitVec 64) :
    (1073741824 + 8388608 * (blockNumber.toNat / 30000) < 2 ^ 64 →
      (∃ fuel x, getDSize fuel blockNumber = some (.ok x)) ∧
        (ReturnsFirst getDSize 128 (startSize 1073741824 8388608 128 blockNumber) blockNumber ↔
          (startSize 1073741824 8388608 128 blockNumber / 128).Prime)) ∧
    (16777216 + 131072 * (blockNumber.toNat / 30000) < 2 ^ 64 →
      (∃ fuel x, getCSize fuel blockNumber = some (.ok x)) ∧
        (ReturnsFirst getCSize 64 (startSize 16777216 131072 64 blockNumber) blockNumber ↔
          (startSize 16777216 131072 64 blockNumber / 64).Prime)) :=
  ⟨getDSize_returnsFirst_iff, getCSize_returnsFirst_iff⟩

/-- Epoch 286, where both quotients are primes. -/
theorem sizes_returnFirst_286 :
    ReturnsFirst getDSize 128 (startSize 1073741824 8388608 128 8580000) 8580000 ∧
      ReturnsFirst getCSize 64 (startSize 16777216 131072 64 8580000) 8580000 := by
  have hd : startSize 1073741824 8388608 128 8580000 / 128 = 27131903 := rfl
  have hc : startSize 16777216 131072 64 8580000 / 64 = 847871 := rfl
  constructor
  · refine ((sizes_returnsFirst_iff 8580000).1 (by decide)).2.mpr ?_
    rw [hd]
    norm_num
  · refine ((sizes_returnsFirst_iff 8580000).2 (by decide)).2.mpr ?_
    rw [hc]
    norm_num

/-- Block 0: the sizes are those that the search starts with, and their quotients are not primes. -/
theorem sizes_of_block_zero :
    getDSize 1 0 = some (.ok 1073741696) ∧ getCSize 1 0 = some (.ok 16777152) ∧
      ¬ ReturnsFirst getDSize 128 (startSize 1073741824 8388608 128 0) 0 ∧
      ¬ ReturnsFirst getCSize 64 (startSize 16777216 131072 64 0) 0 := by
  have hd : startSize 1073741824 8388608 128 0 / 128 = 47 * 178481 := rfl
  have hc : startSize 16777216 131072 64 0 / 64 = 3 * 87381 := rfl
  refine ⟨by decide, by decide, ?_, ?_⟩
  · intro h
    have hprime := (getDSize_returnsFirst_iff (by decide)).2.mp h
    exact Nat.not_prime_mul (by decide) (by decide) (hd ▸ hprime)
  · intro h
    have hprime := (getCSize_returnsFirst_iff (by decide)).2.mp h
    exact Nat.not_prime_mul (by decide) (by decide) (hc ▸ hprime)

end Host
end FpgaEthash
