import FpgaEthash.Computation.Loops
import FpgaEthash.Host.Sizes
import Mathlib.Logic.Function.Iterate

/-!
# The seed hash of an epoch

The two functions `get_seedhash`: the one of `fpga_ethash.cpp`, which calls itself for the
epoch before, and the one of `includes/fpga_ethash.cpp`, which counts the epochs.  The hash is
any function `H256` in the place of `kec_HashBuffer` with 256 bits, and the address that the
second one passes to it is read as that of `ret`.

Both hash 32 zero bytes once for each epoch (`seedOf`).  The second one counts in 32 bits up to
a number of 64 bits: from epoch `2 ^ 32` on its counter never gets there, and it does not come
back (`Includes.not_returns_getSeedhash`).
-/

namespace FpgaEthash
namespace Host

section

variable (H256 : List (BitVec 8) → Vector (BitVec 8) 32)

/-- The bytes of a seed, hashed. -/
def hashSeed (seed : Vector (BitVec 8) 32) : Vector (BitVec 8) 32 := H256 seed.toList

/-- The seed of epoch `n`: zeros, hashed `n` times. -/
def seedOf (n : ℕ) : Vector (BitVec 8) 32 := (hashSeed H256)^[n] (Vector.replicate 32 0)

/-- `get_seedhash` of `fpga_ethash.cpp`, with fuel for a number of calls. -/
def getSeedhash : ℕ → BitVec 64 → Option (Vector (BitVec 8) 32)
  | 0, _ => none
  | fuel + 1, blockNumber =>
    if eEpoch blockNumber ≠ 0 then
      (getSeedhash fuel (blockNumber - 30000)).map (hashSeed H256)
    else some (Vector.replicate 32 0)

namespace Includes

/-- One turn of the loop: `i` and `ret`. -/
def seedTurn (epochs : BitVec 64) (state : BitVec 32 × Vector (BitVec 8) 32) :
    Vector (BitVec 8) 32 ⊕ (BitVec 32 × Vector (BitVec 8) 32) :=
  if state.1.setWidth 64 < epochs then .inr (state.1 + 1, hashSeed H256 state.2)
  else .inl state.2

/-- `get_seedhash` of `includes/fpga_ethash.cpp`. -/
def getSeedhash (fuel : ℕ) (blockNumber : BitVec 64) : Option (Vector (BitVec 8) 32) :=
  Loops.run (seedTurn H256 (blockNumber / 30000)) fuel (0, Vector.replicate 32 0)

end Includes

/-! ## What they return -/

theorem seedOf_succ (n : ℕ) : seedOf H256 (n + 1) = hashSeed H256 (seedOf H256 n) :=
  Function.iterate_succ_apply' _ _ _

theorem toNat_eEpoch (blockNumber : BitVec 64) :
    (eEpoch blockNumber).toNat = blockNumber.toNat / 30000 := BitVec.toNat_udiv

/-- **The recursion comes back**, after one call for each epoch and one for the first. -/
theorem getSeedhash_eq_seedOf {n : ℕ} {blockNumber : BitVec 64}
    (hn : blockNumber.toNat / 30000 = n) :
    getSeedhash H256 (n + 1) blockNumber = some (seedOf H256 n) := by
  induction n generalizing blockNumber with
  | zero =>
    have hzero : eEpoch blockNumber = 0 :=
      BitVec.toNat_inj.mp ((toNat_eEpoch blockNumber).trans hn)
    rw [getSeedhash, if_neg (not_not_intro hzero)]
    rfl
  | succ n ih =>
    have hne : eEpoch blockNumber ≠ 0 := fun h0 => by
      have hepoch := toNat_eEpoch blockNumber
      rw [h0, hn] at hepoch
      exact absurd hepoch (Nat.succ_ne_zero n).symm
    have hsub : (blockNumber - 30000).toNat = blockNumber.toNat - 30000 :=
      BitVec.toNat_sub_of_le (show 30000 ≤ blockNumber.toNat by omega)
    rw [getSeedhash, if_pos hne, ih (by omega), seedOf_succ]
    rfl

namespace Includes

/-- **The loop comes back** when its counter can hold the number of epochs. -/
theorem getSeedhash_eq_seedOf {blockNumber : BitVec 64}
    (hlt : blockNumber.toNat / 30000 < 2 ^ 32) :
    ∃ fuel, getSeedhash H256 fuel blockNumber = some (seedOf H256 (blockNumber.toNat / 30000)) := by
  obtain ⟨n, hn⟩ : ∃ n, n = blockNumber.toNat / 30000 := ⟨_, rfl⟩
  have hepochs : (blockNumber / 30000).toNat = n := hn ▸ toNat_eEpoch blockNumber
  have hcounter : ∀ j ≤ n, ((BitVec.ofNat 32 j).setWidth 64 < blockNumber / 30000) ↔ j < n := by
    intro j hj
    rw [BitVec.lt_def, hepochs, BitVec.toNat_setWidth, BitVec.toNat_ofNat]
    rw [Nat.mod_eq_of_lt (by omega : j < 2 ^ 32), Nat.mod_eq_of_lt (by omega)]
  rw [← hn]
  refine Loops.returns_along (fun j => (BitVec.ofNat 32 j, seedOf H256 j)) (fun j hj => ?_)
    (if_neg ?_)
  · rw [seedTurn, if_pos ((hcounter j hj.le).mpr hj), seedOf_succ, BitVec.ofNat_add]
    rfl
  · exact fun h => Nat.lt_irrefl n ((hcounter n le_rfl).mp h)

/-- **The loop does not come back** when the counter cannot. -/
theorem not_returns_getSeedhash {blockNumber : BitVec 64}
    (hle : 2 ^ 32 ≤ blockNumber.toNat / 30000) :
    ¬ ∃ fuel seed, getSeedhash H256 fuel blockNumber = some seed := by
  rintro ⟨fuel, seed, hseed⟩
  refine Loops.not_returns (I := fun _ => True) (fun state _ => ?_) trivial seed ⟨fuel, hseed⟩
  have hlt : state.1.setWidth 64 < blockNumber / 30000 := by
    have hepochs : (blockNumber / 30000).toNat = blockNumber.toNat / 30000 :=
      toNat_eEpoch blockNumber
    have hsmall := state.1.isLt
    rw [BitVec.lt_def, hepochs, BitVec.toNat_setWidth]
    omega
  exact ⟨_, if_pos hlt, trivial⟩

end Includes

/-- **The two functions agree** on the seed of the epoch exactly below epoch `2 ^ 32`.  Above
it the recursion still returns that seed, and the loop does not end. -/
theorem getSeedhash_agree_iff (blockNumber : BitVec 64) :
    (∃ fuel, getSeedhash H256 fuel blockNumber =
        some (seedOf H256 (blockNumber.toNat / 30000))) ∧
      ((∃ fuel, Includes.getSeedhash H256 fuel blockNumber =
          some (seedOf H256 (blockNumber.toNat / 30000))) ↔
        blockNumber.toNat / 30000 < 2 ^ 32) := by
  refine ⟨⟨_, getSeedhash_eq_seedOf H256 rfl⟩, ?_, Includes.getSeedhash_eq_seedOf H256⟩
  rintro ⟨fuel, hfuel⟩
  by_contra hle
  exact Includes.not_returns_getSeedhash H256 (Nat.le_of_not_lt hle) ⟨fuel, _, hfuel⟩

end

/-- The first block of epoch `2 ^ 32`. -/
theorem getSeedhash_never_returns :
    ¬ ∃ H256 fuel seed, Includes.getSeedhash H256 fuel 128849018880000 = some seed := by
  rintro ⟨H256, hreturns⟩
  exact Includes.not_returns_getSeedhash H256 (by decide) hreturns

end Host
end FpgaEthash
