import FpgaEthash.Host.DataSizes
import FpgaEthash.Host.Sizes

/-!
# The sizes of the DAG and of the cache, from tables

`get_d_size` and `get_c_size` of `includes/fpga_ethash.cpp`.  Where `fpga_ethash.cpp` calculates,
these read `dag_sizes` and `cache_sizes`; the assertion that would keep the epoch below 2048 is
commented out.

The tables are right: every entry is the first size of its epoch with a prime quotient, as Ethash
defines it (`sizes_of_tables`).  So the two versions of a function agree in the epochs whose
starting size has a prime quotient, which is where the calculation stops in any case, and in no
others (`sizes_agree_iff`).
-/

namespace FpgaEthash
namespace Host
namespace Includes

open Checked PrimeDescent

/-! ## The functions -/

/-- `get_d_size`. -/
def getDSize (blockNumber : BitVec 64) : Except Fault (BitVec 64) :=
  (load dagSizes (blockNumber / 30000).toNat).map (BitVec.ofNat 64)

/-- `get_c_size`. -/
def getCSize (blockNumber : BitVec 64) : Except Fault (BitVec 64) :=
  (load cacheSizes (blockNumber / 30000).toNat).map (BitVec.ofNat 64)

/-! ## The tables -/

theorem dagSizes_first : firstsBy 14 128 8388608 (1073741824 - 128) dagSizes.toList = true := by
  decide +kernel

theorem cacheSizes_first : firstsBy 12 64 131072 (16777216 - 64) cacheSizes.toList = true := by
  decide +kernel

theorem size_dagSizes : dagSizes.size = 2048 := by decide +kernel

theorem size_cacheSizes : cacheSizes.size = 2048 := by decide +kernel

theorem lt_of_mem_dagSizes : ∀ x ∈ dagSizes.toList, x < 2 ^ 64 := by decide +kernel

theorem lt_of_mem_cacheSizes : ∀ x ∈ cacheSizes.toList, x < 2 ^ 64 := by decide +kernel

/-! ## The sizes -/

/-- An entry of the first 2048 epochs is one of the first 61440000 blocks. -/
theorem toNat_epoch_lt_iff {blockNumber : BitVec 64} :
    (blockNumber / 30000).toNat < 2048 ↔ blockNumber.toNat < 61440000 := by
  rw [BitVec.toNat_udiv, show (30000 : BitVec 64).toNat = 30000 from rfl]
  omega

section

variable {table : Array ℕ} {blockNumber : BitVec 64}

/-- A table of 2048 entries is read within its bounds in the first 61440000 blocks. -/
theorem exists_lookup_iff (hsize : table.size = 2048) :
    (∃ x, (load table (blockNumber / 30000).toNat).map (BitVec.ofNat 64) = .ok x) ↔
      blockNumber.toNat < 61440000 := by
  rw [← toNat_epoch_lt_iff, ← hsize, ← exists_load_iff]
  cases load table (blockNumber / 30000).toNat with
  | error fault => exact ⟨nofun, nofun⟩
  | ok x => exact ⟨fun _ => ⟨x, rfl⟩, fun _ => ⟨_, rfl⟩⟩

/-- **What a table of first sizes gives**: the first size of the epoch. -/
theorem isFirst_of_lookup {d init growth unit : ℕ} (hunit : unit ≤ init)
    (hfirst : firstsBy d unit growth (init - unit) table.toList = true)
    (hlt : ∀ x ∈ table.toList, x < 2 ^ 64) {x : BitVec 64}
    (h : (load table (blockNumber / 30000).toNat).map (BitVec.ofNat 64) = .ok x) :
    IsFirst unit (startSize init growth unit blockNumber) x.toNat := by
  have hepoch : (blockNumber / 30000).toNat = blockNumber.toNat / 30000 := BitVec.toNat_udiv
  have hin : (blockNumber / 30000).toNat < table.size := by
    rw [← exists_load_iff]
    cases hload : load table (blockNumber / 30000).toNat with
    | error fault =>
      rw [hload] at h
      exact nomatch h
    | ok y => exact ⟨y, rfl⟩
  rw [load_of_lt hin] at h
  obtain rfl := Except.ok.inj h
  have hmem : table[(blockNumber / 30000).toNat] < 2 ^ 64 :=
    hlt _ (Array.getElem_mem_toList hin)
  have hentry := isFirst_of_firstsBy hfirst (i := (blockNumber / 30000).toNat)
    (by rwa [Array.length_toList])
  have hstart : init - unit + growth * (blockNumber / 30000).toNat =
      startSize init growth unit blockNumber := by
    rw [startSize, hepoch]
    omega
  rw [Array.getElem_toList, hstart] at hentry
  rwa [BitVec.toNat_ofNat, Nat.mod_eq_of_lt hmem]

end

theorem exists_getDSize_iff {blockNumber : BitVec 64} :
    (∃ x, getDSize blockNumber = .ok x) ↔ blockNumber.toNat < 61440000 :=
  exists_lookup_iff size_dagSizes

theorem exists_getCSize_iff {blockNumber : BitVec 64} :
    (∃ x, getCSize blockNumber = .ok x) ↔ blockNumber.toNat < 61440000 :=
  exists_lookup_iff size_cacheSizes

theorem isFirst_getDSize {blockNumber x : BitVec 64} (h : getDSize blockNumber = .ok x) :
    IsFirst 128 (startSize 1073741824 8388608 128 blockNumber) x.toNat :=
  isFirst_of_lookup (by decide) dagSizes_first lt_of_mem_dagSizes h

theorem isFirst_getCSize {blockNumber x : BitVec 64} (h : getCSize blockNumber = .ok x) :
    IsFirst 64 (startSize 16777216 131072 64 blockNumber) x.toNat :=
  isFirst_of_lookup (by decide) cacheSizes_first lt_of_mem_cacheSizes h

/-- **The sizes of the tables.**  A size is there in the first 61440000 blocks, and in no others:
after them the read leaves the table.  It is the first size of the epoch with a prime quotient,
of the DAG and of the cache. -/
theorem sizes_of_tables (blockNumber : BitVec 64) :
    (((∃ x, getDSize blockNumber = .ok x) ↔ blockNumber.toNat < 61440000) ∧
      ∀ x, getDSize blockNumber = .ok x →
        IsFirst 128 (startSize 1073741824 8388608 128 blockNumber) x.toNat) ∧
    (((∃ x, getCSize blockNumber = .ok x) ↔ blockNumber.toNat < 61440000) ∧
      ∀ x, getCSize blockNumber = .ok x →
        IsFirst 64 (startSize 16777216 131072 64 blockNumber) x.toNat) :=
  ⟨⟨exists_getDSize_iff, fun _ => isFirst_getDSize⟩, exists_getCSize_iff, fun _ => isFirst_getCSize⟩

/-! ## The two versions -/

/-- A calculation comes to what is read from a table. -/
def Agrees (calculated : ℕ → BitVec 64 → Option (Except Fault (BitVec 64)))
    (read : BitVec 64 → Except Fault (BitVec 64)) (blockNumber : BitVec 64) : Prop :=
  ∃ fuel x, calculated fuel blockNumber = some (.ok x) ∧ read blockNumber = .ok x

/-- A table of first sizes agrees with a function where that function returns the first size. -/
theorem agrees_iff_returnsFirst {calculated : ℕ → BitVec 64 → Option (Except Fault (BitVec 64))}
    {read : BitVec 64 → Except Fault (BitVec 64)} {unit start : ℕ} {blockNumber y : BitVec 64}
    (hread : read blockNumber = .ok y) (hfirst : IsFirst unit start y.toNat) :
    Agrees calculated read blockNumber ↔ ReturnsFirst calculated unit start blockNumber := by
  constructor
  · rintro ⟨fuel, x, hcalculated, hx⟩
    obtain rfl : y = x := Except.ok.inj (hread.symm.trans hx)
    exact ⟨y, ⟨fuel, hcalculated⟩, hfirst⟩
  · rintro ⟨x, ⟨fuel, hcalculated⟩, hx⟩
    obtain rfl : x = y := BitVec.eq_of_toNat_eq (hx.unique hfirst)
    exact ⟨fuel, x, hcalculated, hread⟩

/-- **The calculation and the tables agree** in the epochs whose starting size has a prime
quotient, among those that the tables have. -/
theorem sizes_agree_iff (blockNumber : BitVec 64) (hblock : blockNumber.toNat < 61440000) :
    (Agrees Host.getDSize getDSize blockNumber ↔
      (startSize 1073741824 8388608 128 blockNumber / 128).Prime) ∧
    (Agrees Host.getCSize getCSize blockNumber ↔
      (startSize 16777216 131072 64 blockNumber / 64).Prime) := by
  obtain ⟨d, hd⟩ := exists_getDSize_iff.mpr hblock
  obtain ⟨c, hc⟩ := exists_getCSize_iff.mpr hblock
  rw [agrees_iff_returnsFirst hd (isFirst_getDSize hd),
    agrees_iff_returnsFirst hc (isFirst_getCSize hc)]
  exact ⟨(getDSize_returnsFirst_iff (by omega)).2, (getCSize_returnsFirst_iff (by omega)).2⟩

/-- Epoch 286, where both quotients are primes. -/
theorem sizes_agree_286 :
    Agrees Host.getDSize getDSize 8580000 ∧ Agrees Host.getCSize getCSize 8580000 := by
  have hd : startSize 1073741824 8388608 128 8580000 / 128 = 27131903 := rfl
  have hc : startSize 16777216 131072 64 8580000 / 64 = 847871 := rfl
  have hagree := sizes_agree_iff 8580000 (by decide)
  rw [hd, hc] at hagree
  exact ⟨hagree.1.mpr (by norm_num), hagree.2.mpr (by norm_num)⟩

end Includes
end Host
end FpgaEthash
