import Mathlib
import FpgaEthash.Arithmetic.Segments
import FpgaEthash.Computation.Runs
import FpgaEthash.Ethcore.Farm

/-!
# The nonces of different miners do not overlap

`Farm::setWork` gives miner `i` the start nonce `s + (i << w)`, all modulo
`2 ^ 64`, and lets it search the `2 ^ w` nonces from there.  The width `w` is a
member that a package with an extranonce sets and a package without one reuses, so
what a call hands out depends on the calls before it.

The invariant that carries every sequence of calls is `Room`: the segments of all
miners together are no longer than the range of a nonce.  A fresh farm has it with
width `32` and up to `2 ^ 32` miners, and a package that fits leaves at most
`2 ^ (64 - 4e)` nonces in use (`mul_two_pow_segmentWidth_le`), which is less still.
From `Room`, disjointness is arithmetic modulo `2 ^ 64` and is in
`Arithmetic.Segments`.

## The range of the pool

When the package carries an extranonce of `e` digits and a start nonce whose
remaining `64 - 4e` bits are zero, the segments stay inside these bits, so every
nonce of every miner begins with the digits of the pool.
-/

namespace FpgaEthash
namespace Ethcore

open Devcore Segments Runs

/-! ## The width -/

/-- `n` miners fit below an extranonce of `e` digits: `n ≤ 2 ^ (64 - 4e)`. -/
def Fits (n e : ℕ) : Prop := n * 2 ^ (4 * e) ≤ 2 ^ 64

theorem Fits.digits_le {n e : ℕ} (h : Fits n e) (hn : 1 ≤ n) : 4 * e ≤ 64 := by
  by_contra hlt
  have hpow : 2 ^ 64 < 2 ^ (4 * e) := Nat.pow_lt_pow_right (by omega) (by omega)
  have hmul : 1 * 2 ^ (4 * e) ≤ n * 2 ^ (4 * e) := Nat.mul_le_mul_right _ hn
  unfold Fits at h
  omega

theorem Fits.le_two_pow {n e : ℕ} (h : Fits n e) (hn : 1 ≤ n) : n ≤ 2 ^ (64 - e * 4) := by
  have he := h.digits_le hn
  have hsplit : 2 ^ 64 = 2 ^ (64 - e * 4) * 2 ^ (4 * e) := by
    rw [← Nat.pow_add]
    congr 1
    omega
  unfold Fits at h
  rw [hsplit] at h
  exact Nat.le_of_mul_le_mul_right h (Nat.two_pow_pos _)

/-- **All segments fit below the extranonce.** -/
theorem mul_two_pow_segmentWidth_le {n e : ℕ} (h : Fits n e) (hn : 1 ≤ n) :
    n * 2 ^ Farm.segmentWidth e n ≤ 2 ^ (64 - e * 4) := by
  have hquot : 2 ^ (64 - e * 4) / n ≠ 0 := by
    have := Nat.div_pos (h.le_two_pow hn) hn
    omega
  calc n * 2 ^ Farm.segmentWidth e n
      ≤ n * (2 ^ (64 - e * 4) / n) := Nat.mul_le_mul_left n (Nat.pow_log_le_self 2 hquot)
    _ ≤ 2 ^ (64 - e * 4) := Nat.mul_div_le _ n

/-- **The width is the logarithm rounded down**, on every package that fits. -/
theorem segmentWidth_eq_floor_logb {n e : ℕ} (h : Fits n e) (hn : 1 ≤ n) :
    (Farm.segmentWidth e n : ℤ) = ⌊Real.logb 2 ((2 : ℝ) ^ (64 - e * 4) / n)⌋ := by
  have hn' : (0 : ℝ) < n := by exact_mod_cast hn
  have hone : (1 : ℝ) ≤ (2 : ℝ) ^ (64 - e * 4) / n := by
    rw [one_le_div hn']
    exact_mod_cast h.le_two_pow hn
  have hfloor : ⌊(2 : ℝ) ^ (64 - e * 4) / n⌋₊ = 2 ^ (64 - e * 4) / n := by
    exact_mod_cast Nat.floor_div_eq_div (K := ℝ) (2 ^ (64 - e * 4)) n
  have hlog := Real.floor_logb_natCast (b := 2) (r := (2 : ℝ) ^ (64 - e * 4) / n) (by linarith)
  rw [Nat.cast_ofNat] at hlog
  rw [hlog, Int.log_of_one_le_right 2 hone, hfloor, Farm.segmentWidth]

theorem segmentWidth_le {n e : ℕ} (h : Fits n e) (hn : 1 ≤ n) :
    Farm.segmentWidth e n ≤ 64 := by
  have hle := mul_two_pow_segmentWidth_le h hn
  have hpow : 2 ^ Farm.segmentWidth e n ≤ 2 ^ 64 := by
    calc 2 ^ Farm.segmentWidth e n = 1 * 2 ^ Farm.segmentWidth e n := (Nat.one_mul _).symm
      _ ≤ n * 2 ^ Farm.segmentWidth e n := Nat.mul_le_mul_right _ hn
      _ ≤ 2 ^ (64 - e * 4) := hle
      _ ≤ 2 ^ 64 := Nat.pow_le_pow_right (by omega) (by omega)
  exact (Nat.pow_le_pow_iff_right (by omega)).mp hpow

namespace Farm

/-! ## Room for all miners -/

/-- The segments of all miners together are no longer than the range of a nonce. -/
def Room (f : Farm) : Prop := f.miners.length * 2 ^ f.nonceSegmentWith.toNat ≤ 2 ^ 64

/-- The width after the first part of `setWork`. -/
theorem setWorkBegin_nonceSegmentWith (lib : EthashLibrary) (f : Farm) (newWp : WorkPackage)
    (draw : BitVec 64) :
    (f.setWorkBegin lib newWp draw).1.nonceSegmentWith =
      if 0 < newWp.exSizeBytes then
        BitVec.ofNat 32 (segmentWidth newWp.exSizeBytes.toNat f.miners.length)
      else f.nonceSegmentWith := by
  have hlen := f.length_retrieveEpochContext lib newWp
  have hwidth : (f.retrieveEpochContext lib newWp).nonceSegmentWith = f.nonceSegmentWith := by
    unfold retrieveEpochContext
    split_ifs <;> rfl
  unfold setWorkBegin shuffle
  dsimp only
  split_ifs
  · simp only [hlen]
  · simp only [hlen]
  · exact hwidth
  · exact hwidth

/-- The start nonce of the first miner, when the package carries an extranonce. -/
theorem setWorkBegin_startNonce (lib : EthashLibrary) (f : Farm) {newWp : WorkPackage}
    (draw : BitVec 64) (h : 0 < newWp.exSizeBytes) :
    (f.setWorkBegin lib newWp draw).2 = newWp.startNonce := by
  unfold setWorkBegin
  dsimp only
  rw [if_pos h]

/-- With an extranonce, the segments of all miners fit into the bits it leaves. -/
theorem mul_width_setWorkBegin_le (lib : EthashLibrary) {f : Farm} {newWp : WorkPackage}
    (draw : BitVec 64) (hn : 1 ≤ f.miners.length)
    (hfits : Fits f.miners.length newWp.exSizeBytes.toNat) (h : 0 < newWp.exSizeBytes) :
    f.miners.length * 2 ^ (f.setWorkBegin lib newWp draw).1.nonceSegmentWith.toNat ≤
      2 ^ (64 - newWp.exSizeBytes.toNat * 4) := by
  have hlt := segmentWidth_le hfits hn
  rw [setWorkBegin_nonceSegmentWith, if_pos h, BitVec.toNat_ofNat, Nat.mod_eq_of_lt (by omega)]
  exact mul_two_pow_segmentWidth_le hfits hn

/-- **One call keeps room for all miners**, if its package fits. -/
theorem room_setWorkBegin (lib : EthashLibrary) {f : Farm} {newWp : WorkPackage}
    (draw : BitVec 64) (hn : 1 ≤ f.miners.length)
    (hfits : Fits f.miners.length newWp.exSizeBytes.toNat) (hroom : f.Room) :
    (f.setWorkBegin lib newWp draw).1.Room := by
  unfold Room
  rw [length_setWorkBegin]
  by_cases h : 0 < newWp.exSizeBytes
  · exact le_trans (mul_width_setWorkBegin_le lib draw hn hfits h)
      (Nat.pow_le_pow_right (by omega) (by omega))
  · rw [setWorkBegin_nonceSegmentWith, if_neg h]
    exact hroom

/-- One call of a sequence: the package, and what the random device would yield. -/
def setWorkStep (lib : EthashLibrary) (f : Farm) (c : WorkPackage × BitVec 64) : Option Farm :=
  f.setWork lib c.1 c.2

/-- What a call that comes back leaves of the number of miners and of the width. -/
theorem frame_setWork {lib : EthashLibrary} {f g : Farm} {newWp : WorkPackage}
    {draw : BitVec 64} (h : f.setWork lib newWp draw = some g) :
    g.miners.length = f.miners.length ∧
      g.nonceSegmentWith = (f.setWorkBegin lib newWp draw).1.nonceSegmentWith := by
  rw [eq_of_setWork_eq_some h]
  refine ⟨?_, rfl⟩
  rw [length_handedOut, length_setWorkBegin]

/-- **A sequence of calls keeps room for all miners.** -/
theorem room_run {lib : EthashLibrary} {f g : Farm} {past : List (WorkPackage × BitVec 64)}
    (hn : 1 ≤ f.miners.length)
    (hfits : ∀ c ∈ past, Fits f.miners.length c.1.exSizeBytes.toNat) (hroom : f.Room)
    (hrun : run (setWorkStep lib) f past = some g) :
    g.miners.length = f.miners.length ∧ g.Room := by
  induction past generalizing f with
  | nil =>
    obtain rfl := Option.some.inj hrun
    exact ⟨rfl, hroom⟩
  | cons c past ih =>
    obtain ⟨f', hf', hrest⟩ := (run_cons_eq_some _).mp hrun
    obtain ⟨hlen, hwidth⟩ := frame_setWork hf'
    have hroom' : f'.Room := by
      have hbegin := room_setWorkBegin lib c.2 hn (hfits c List.mem_cons_self) hroom
      unfold Room at hbegin ⊢
      rwa [length_setWorkBegin, ← hwidth, ← hlen] at hbegin
    have htail := ih (by rw [hlen]; exact hn)
      (fun d hd => by rw [hlen]; exact hfits d (List.mem_cons_of_mem c hd)) hroom' hrest
    exact ⟨htail.1.trans hlen, htail.2⟩

/-! ## The segments -/

/-- The start nonce of miner `i`, as an offset from that of the first miner. -/
theorem packageFor_startNonce (f : Farm) (startNonce : BitVec 64) (i : BitVec 32) :
    (f.packageFor startNonce i).startNonce =
      startNonce + BitVec.ofNat 64 (i.toNat * 2 ^ f.nonceSegmentWith.toNat) := by
  have hi := i.isLt
  have hshift : (i.setWidth 64 <<< f.nonceSegmentWith) =
      BitVec.ofNat 64 (i.toNat * 2 ^ f.nonceSegmentWith.toNat) := by
    apply BitVec.eq_of_toNat_eq
    rw [BitVec.shiftLeft_eq', BitVec.toNat_shiftLeft, BitVec.toNat_setWidth,
      BitVec.toNat_ofNat, Nat.shiftLeft_eq, Nat.mod_eq_of_lt (a := i.toNat) (by omega)]
  rw [packageFor, hshift]

/-- The nonces that a package gives to the miner it is handed to. -/
def nonces (f : Farm) (p : WorkPackage) : Set (BitVec 64) :=
  segment p.startNonce (2 ^ f.nonceSegmentWith.toNat)

/-- Two calls of one loop give disjoint nonces, while there is room. -/
theorem disjoint_nonces_of_mem_calls {f : Farm} {startNonce : BitVec 64} {fuel : ℕ}
    {i j : BitVec 32} {p q : WorkPackage} (hroom : f.Room)
    (hp : (i, p) ∈ (handOut startNonce fuel 0 f).calls)
    (hq : (j, q) ∈ (handOut startNonce fuel 0 f).calls) (hij : i ≠ j) :
    Disjoint (f.nonces p) (f.nonces q) := by
  obtain ⟨hi, rfl⟩ := mem_calls_handOut hp
  obtain ⟨hj, rfl⟩ := mem_calls_handOut hq
  have hne : i.toNat ≠ j.toNat := fun h => hij (BitVec.eq_of_toNat_eq h)
  rw [nonces, nonces, packageFor_startNonce, packageFor_startNonce]
  exact disjoint_segment_mul hroom hi hj hne

/-- A nonce that a call gives is an offset from the first start nonce, inside the
stretch that all miners share. -/
theorem exists_offset_of_mem_calls {f : Farm} {startNonce v : BitVec 64} {fuel : ℕ}
    {i : BitVec 32} {p : WorkPackage} (hp : (i, p) ∈ (handOut startNonce fuel 0 f).calls)
    (hv : v ∈ f.nonces p) :
    ∃ r < f.miners.length * 2 ^ f.nonceSegmentWith.toNat,
      v = startNonce + BitVec.ofNat 64 r := by
  obtain ⟨hi, rfl⟩ := mem_calls_handOut hp
  rw [nonces, packageFor_startNonce] at hv
  exact exists_offset_of_mem_segment_mul hi hv

/-- **The segments keep the digits of the pool.** -/
theorem ushiftRight_of_mem_calls {lib : EthashLibrary} {f : Farm} {newWp : WorkPackage}
    {draw v : BitVec 64} {fuel : ℕ} {i : BitVec 32} {p : WorkPackage}
    (hn : 1 ≤ f.miners.length) (hfits : Fits f.miners.length newWp.exSizeBytes.toNat)
    (he : 0 < newWp.exSizeBytes)
    (hzero : newWp.startNonce.toNat % 2 ^ (64 - newWp.exSizeBytes.toNat * 4) = 0)
    (hp : (i, p) ∈ f.setWorkCalls lib newWp draw fuel)
    (hv : v ∈ (f.setWorkBegin lib newWp draw).1.nonces p) :
    v >>> (64 - newWp.exSizeBytes.toNat * 4) =
      newWp.startNonce >>> (64 - newWp.exSizeBytes.toNat * 4) := by
  obtain ⟨r, hr, rfl⟩ := exists_offset_of_mem_calls hp hv
  rw [length_setWorkBegin] at hr
  rw [setWorkBegin_startNonce lib f draw he]
  exact ushiftRight_add_ofNat (Nat.sub_le _ _) hzero
    (lt_of_lt_of_le hr (mul_width_setWorkBegin_le lib draw hn hfits he))

/-- **The nonce partition.**  Take a farm with its initial width and `n` miners, up
to `2 ^ 32` of them, and any sequence of `setWork` calls whose packages fit.  The
next call gives each miner a segment, gives different miners disjoint segments
modulo `2 ^ 64` and, when the package has an extranonce and nothing below it in its
start nonce, gives only nonces that begin with the extranonce. -/
theorem setWork_nonce_partition (lib : EthashLibrary) (f g : Farm)
    (past : List (WorkPackage × BitVec 64)) (newWp : WorkPackage) (draw : BitVec 64)
    (hwidth : f.nonceSegmentWith = 32) (hn : 1 ≤ f.miners.length)
    (hmany : f.miners.length ≤ 2 ^ 32)
    (hfits : ∀ c ∈ past ++ [(newWp, draw)], Fits f.miners.length c.1.exSizeBytes.toNat)
    (hrun : run (setWorkStep lib) f past = some g) :
    (∀ j : BitVec 32, j.toNat < f.miners.length →
      ∃ p, (j, p) ∈ g.setWorkCalls lib newWp draw f.miners.length) ∧
    (∀ fuel i j p q, (i, p) ∈ g.setWorkCalls lib newWp draw fuel →
      (j, q) ∈ g.setWorkCalls lib newWp draw fuel → i ≠ j →
      Disjoint ((g.setWorkBegin lib newWp draw).1.nonces p)
        ((g.setWorkBegin lib newWp draw).1.nonces q)) ∧
    (0 < newWp.exSizeBytes →
      newWp.startNonce.toNat % 2 ^ (64 - newWp.exSizeBytes.toNat * 4) = 0 →
      ∀ fuel i p, (i, p) ∈ g.setWorkCalls lib newWp draw fuel →
        ∀ v ∈ (g.setWorkBegin lib newWp draw).1.nonces p,
          v >>> (64 - newWp.exSizeBytes.toNat * 4) =
            newWp.startNonce >>> (64 - newWp.exSizeBytes.toNat * 4)) := by
  have hroom : f.Room := by
    unfold Room
    rw [hwidth]
    calc f.miners.length * 2 ^ (32 : BitVec 32).toNat ≤ 2 ^ 32 * 2 ^ 32 :=
          Nat.mul_le_mul_right _ hmany
      _ = 2 ^ 64 := by norm_num
  obtain ⟨hlen, hroomg⟩ := room_run hn
    (fun c hc => hfits c (List.mem_append_left _ hc)) hroom hrun
  have hng : 1 ≤ g.miners.length := by rw [hlen]; exact hn
  have hfitsg : Fits g.miners.length newWp.exSizeBytes.toNat := by
    rw [hlen]
    exact hfits (newWp, draw) (List.mem_append_right _ List.mem_cons_self)
  refine ⟨fun j hj => ?_, fun fuel i j p q hp hq hij => ?_,
    fun he hzero fuel i p hp v hv => ?_⟩
  · rw [← hlen] at hj ⊢
    exact exists_mem_setWorkCalls lib newWp draw hj
  · exact disjoint_nonces_of_mem_calls
      (room_setWorkBegin lib draw hng hfitsg hroomg) hp hq hij
  · exact ushiftRight_of_mem_calls hng hfitsg he hzero hp hv

/-- A farm of three miners, as the constructor leaves its other members. -/
def threeMiners : Farm := { miners := [{ index := 0 }, { index := 1 }, { index := 2 }] }

/-- A package without an extranonce. -/
def soloWork : WorkPackage := { epoch := 0 }

/-- A package with the extranonce `ab`. -/
def poolWork : WorkPackage := { exSizeBytes := 2, startNonce := 0xab00000000000000 }

/-- Three miners that had a package without an extranonce get one with `ab`. -/
theorem setWork_nonce_partition_threeMiners :
    ∃ g, run (setWorkStep default) threeMiners [(soloWork, 5)] = some g ∧
      (∃ q, (2, q) ∈ g.setWorkCalls default poolWork 0 3) ∧
      ∀ p q, (0, p) ∈ g.setWorkCalls default poolWork 0 3 →
        (2, q) ∈ g.setWorkCalls default poolWork 0 3 →
        Disjoint ((g.setWorkBegin default poolWork 0).1.nonces p)
          ((g.setWorkBegin default poolWork 0).1.nonces q) ∧
        ∀ v ∈ (g.setWorkBegin default poolWork 0).1.nonces q, v >>> 56 = 0xab := by
  obtain ⟨g, hg⟩ : ∃ g, run (setWorkStep default) threeMiners [(soloWork, 5)] = some g := by
    rw [run_cons, setWorkStep, setWork_eq_some _ _ _ _ (by decide)]
    exact ⟨_, rfl⟩
  have hfits : ∀ c ∈ [(soloWork, (5 : BitVec 64))] ++ [(poolWork, 0)],
      Fits threeMiners.miners.length c.1.exSizeBytes.toNat := by
    intro c hc
    rcases List.mem_pair.mp hc with rfl | rfl
    · exact (by decide : 3 * 2 ^ (4 * 0) ≤ 2 ^ 64)
    · exact (by decide : 3 * 2 ^ (4 * 2) ≤ 2 ^ 64)
  obtain ⟨hall, hdisjoint, htop⟩ := setWork_nonce_partition default threeMiners g [(soloWork, 5)]
    poolWork 0 rfl (by decide) (by decide) hfits hg
  exact ⟨g, hg, hall 2 (by decide), fun p q hp hq =>
    ⟨hdisjoint 3 0 2 p q hp hq (by decide),
      fun v hv => htop (by decide) (by decide) 3 2 q hq v hv⟩⟩

end Farm
end Ethcore
end FpgaEthash
