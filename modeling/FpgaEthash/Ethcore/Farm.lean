import FpgaEthash.Ethcore.WorkPackage
import Mathlib.Data.Nat.Log
import Mathlib.Data.Finset.Insert
import Mathlib.Data.Finset.Erase
import Mathlib.Data.Fintype.Defs

/-!
# The farm and its miners

`libethcore/Miner.cpp` and `libethcore/Farm.cpp`: what the farm keeps, and the
operations that the pool manager calls on it.  `setWork` runs in two parts.
`setWorkBegin` is everything before the loop: the epoch context, the current
package, the scrambler, the segment width.  `handOut` is the loop, which gives each
miner the package with a start nonce of its own.

## The loop counter

The loop counts with an `unsigned int` against `m_miners.size()`.  With fewer than
`2 ^ 32` miners it visits each once and ends (`setWork_eq_some`).  With more it
visits the first `2 ^ 32` over and over (`handOut_farm_eq_none`), so `setWork` is
partial: `none` says that the call never comes back.  Beside the farm, `handOut`
keeps the list of calls `m_miners.at(i)->setWork(m_currentWp)` it has made, which
is meaningful in both cases.

## The width of a segment

`(unsigned int)log2(pow(2, 64 - 4 * e) / n)` is read as the exact logarithm rounded
down.  On the packages that fit, where the quotient is at least one, that is the
logarithm of the integer quotient, and so `segmentWidth` is written.
-/

namespace FpgaEthash
namespace Ethcore

open Devcore

/-! ## Miners -/

/-- `MinerPauseEnum`. -/
inductive MinerPauseEnum where
  | pauseDueToOverHeating
  | pauseDueToAPIRequest
  | pauseDueToFarmPaused
  | pauseDueToInsufficientMemory
  | pauseDueToInitEpochError
  deriving DecidableEq, Repr

/-- The members of `Miner` that the farm reads or writes.  `epochContext` is `none`
until `setEpoch` is called: the member has no initial value. -/
structure Miner where
  index : ℕ
  work : WorkPackage := {}
  epochContext : Option EpochContext := none
  pauseFlags : Finset MinerPauseEnum := ∅
  deriving DecidableEq

namespace Miner

/-- `paused`: any flag is set. -/
def paused (m : Miner) : Bool := decide (m.pauseFlags ≠ ∅)

/-- `setWork`: a paused miner has its work voided instead. -/
def setWork (m : Miner) (work : WorkPackage) : Miner :=
  if m.paused then { m with work := { m.work with header := FixedHash.zero 32 } }
  else { m with work := work }

/-- `setEpoch`. -/
def setEpoch (m : Miner) (ec : EpochContext) : Miner := { m with epochContext := some ec }

/-- `pause`. -/
def pause (m : Miner) (what : MinerPauseEnum) : Miner :=
  { m with
    pauseFlags := insert what m.pauseFlags
    work := { m.work with header := FixedHash.zero 32 } }

/-- `resume`. -/
def resume (m : Miner) (fromwhat : MinerPauseEnum) : Miner :=
  { m with pauseFlags := m.pauseFlags.erase fromwhat }

@[simp] theorem setWork_epochContext (m : Miner) (work : WorkPackage) :
    (m.setWork work).epochContext = m.epochContext := by
  unfold setWork
  split_ifs <;> rfl

end Miner

/-! ## The farm -/

/-- `DeviceSubscriptionTypeEnum`. -/
inductive DeviceSubscriptionTypeEnum where
  | none
  | openCL
  | cuda
  | cpu
  | fpga
  deriving DecidableEq, Repr

/-- `FarmSettings`, as far as the modelled operations read them. -/
structure FarmSettings where
  dagLoadMode : ℕ := 0
  ergodicity : ℕ := 0
  deriving DecidableEq, Repr

/-- The static members that `Miner::setDagLoadInfo` writes. -/
structure DagLoadInfo where
  dagLoadMode : ℕ := 0
  dagLoadIndex : ℕ := 0
  minersCount : ℕ := 0
  deriving DecidableEq, Repr

/-- The members of `Farm`.  `devices` lists the subscription types of
`m_DevicesCollection` in the order of the map, `telemetryMiners` the prefixes of
`m_telemetry.miners`; `minerRestart` says whether `m_onMinerRestart` is set. -/
structure Farm where
  settings : FarmSettings := {}
  devices : List DeviceSubscriptionTypeEnum := []
  miners : List Miner := []
  currentWp : WorkPackage := {}
  currentEc : Option EpochContext := none
  isMining : Bool := false
  paused : Bool := false
  telemetryMiners : List StdString := []
  dagLoadInfo : DagLoadInfo := {}
  minerRestart : Bool := false
  nonceScrambler : BitVec 64 := 0
  nonceSegmentWith : BitVec 32 := 32
  deriving DecidableEq

namespace Farm

/-- `shuffle`, where `draw` is what the random device yields. -/
def shuffle (f : Farm) (draw : BitVec 64) : Farm := { f with nonceScrambler := draw }

/-! ## `setWork` -/

/-- `log2(pow(2, 64 - 4 * e) / n)` rounded down. -/
def segmentWidth (e n : ℕ) : ℕ := Nat.log 2 (2 ^ (64 - e * 4) / n)

/-- Retrieve the epoch context, if the package is for another epoch, and give it to
every miner. -/
def retrieveEpochContext (lib : EthashLibrary) (f : Farm) (newWp : WorkPackage) : Farm :=
  if f.currentWp.epoch ≠ newWp.epoch then
    { f with
      currentEc := some (lib.epochContext newWp.epoch)
      miners := f.miners.map fun m => m.setEpoch (lib.epochContext newWp.epoch) }
  else f

/-- Everything `setWork` does before its loop: the farm, and the start nonce of the
first miner. -/
def setWorkBegin (lib : EthashLibrary) (f : Farm) (newWp : WorkPackage)
    (draw : BitVec 64) : Farm × BitVec 64 :=
  let f := f.retrieveEpochContext lib newWp
  let f := { f with currentWp := newWp }
  -- shuffle per work
  let f := if f.settings.ergodicity = 2 ∧ newWp.exSizeBytes = 0 then f.shuffle draw else f
  if 0 < newWp.exSizeBytes then
    ({ f with nonceSegmentWith :=
        BitVec.ofNat 32 (segmentWidth newWp.exSizeBytes.toNat f.miners.length) },
      newWp.startNonce)
  else (f, f.nonceScrambler)

/-- The package that turn `i` of the loop hands out. -/
def packageFor (f : Farm) (startNonce : BitVec 64) (i : BitVec 32) : WorkPackage :=
  { f.currentWp with
    startNonce := startNonce + (i.setWidth 64 <<< f.nonceSegmentWith) }

/-- Turn `i` of the loop. -/
def giveWork (f : Farm) (startNonce : BitVec 64) (i : BitVec 32) : Farm :=
  { f with
    currentWp := f.packageFor startNonce i
    miners := f.miners.modify i.toNat fun m => m.setWork (f.packageFor startNonce i) }

/-- What the loop has done after some turns: the calls it made on the miners, and
the farm once it has ended. -/
structure HandOut where
  calls : List (BitVec 32 × WorkPackage)
  farm : Option Farm

/-- The loop of `setWork` from turn `i`, for at most `fuel` turns. -/
def handOut (startNonce : BitVec 64) : ℕ → BitVec 32 → Farm → HandOut
  | 0, _, _ => ⟨[], none⟩
  | fuel + 1, i, f =>
    if i.toNat < f.miners.length then
      let rest := handOut startNonce fuel (i + 1) (f.giveWork startNonce i)
      ⟨(i, f.packageFor startNonce i) :: rest.calls, rest.farm⟩
    else ⟨[], some f⟩

/-- The calls that `setWork` makes on the miners in its first `fuel` turns. -/
def setWorkCalls (lib : EthashLibrary) (f : Farm) (newWp : WorkPackage)
    (draw : BitVec 64) (fuel : ℕ) : List (BitVec 32 × WorkPackage) :=
  (handOut (f.setWorkBegin lib newWp draw).2 fuel 0 (f.setWorkBegin lib newWp draw).1).calls

/-- `setWork`; `none` if it never comes back.  One turn for each miner, and one to
leave the loop, are enough if any number is. -/
def setWork (lib : EthashLibrary) (f : Farm) (newWp : WorkPackage) (draw : BitVec 64) :
    Option Farm :=
  (handOut (f.setWorkBegin lib newWp draw).2 (f.miners.length + 1) 0
    (f.setWorkBegin lib newWp draw).1).farm

/-! ## Starting, stopping, pausing -/

/-- One device of the collection, in the loop of `start`: an FPGA gets a telemetry
entry and a miner, any other device is skipped. -/
def addDevice (f : Farm) : DeviceSubscriptionTypeEnum → Farm
  | .fpga =>
    { f with
      miners := f.miners ++ [{ index := f.miners.length }]
      telemetryMiners := f.telemetryMiners ++ ["fp".toList] }
  | _ => f

/-- `start`. -/
def start (f : Farm) : Farm :=
  if f.isMining then f
  else if f.miners = [] then
    let f := f.devices.foldl addDevice f
    { f with
      dagLoadInfo := ⟨f.settings.dagLoadMode, 0, f.miners.length⟩
      isMining := true }
  else { f with isMining := true }

/-- `stop`. -/
def stop (f : Farm) : Farm :=
  if f.isMining then { f with miners := [], isMining := false } else f

/-- `pause`. -/
def pause (f : Farm) : Farm :=
  { f with paused := true, miners := f.miners.map fun m => m.pause .pauseDueToFarmPaused }

/-- `resume`. -/
def resume (f : Farm) : Farm :=
  { f with paused := false, miners := f.miners.map fun m => m.resume .pauseDueToFarmPaused }

/-- `restart`, through the handler that `PoolManager` installs. -/
def restart (f : Farm) : Farm :=
  if f.minerRestart then (if f.isMining then f.stop else f).start else f

/-! ## What the parts of `setWork` leave alone -/

section Frame

variable (lib : EthashLibrary) (f : Farm) (newWp : WorkPackage) (draw startNonce : BitVec 64)
  (i : BitVec 32)

@[simp] theorem length_giveWork :
    (f.giveWork startNonce i).miners.length = f.miners.length := by
  rw [giveWork, List.length_modify]

@[simp] theorem length_retrieveEpochContext :
    (f.retrieveEpochContext lib newWp).miners.length = f.miners.length := by
  unfold retrieveEpochContext
  split_ifs
  · rw [List.length_map]
  · rfl

theorem setWorkBegin_miners :
    (f.setWorkBegin lib newWp draw).1.miners = (f.retrieveEpochContext lib newWp).miners := by
  unfold setWorkBegin shuffle
  dsimp only
  split_ifs <;> rfl

@[simp] theorem setWorkBegin_currentWp :
    (f.setWorkBegin lib newWp draw).1.currentWp = newWp := by
  unfold setWorkBegin shuffle
  dsimp only
  split_ifs <;> rfl

@[simp] theorem length_setWorkBegin :
    (f.setWorkBegin lib newWp draw).1.miners.length = f.miners.length := by
  rw [setWorkBegin_miners, length_retrieveEpochContext]

/-- The packages of two turns differ in their start nonces only, so a turn does not
change what a later turn hands out. -/
@[simp] theorem packageFor_giveWork (j : BitVec 32) :
    (f.giveWork startNonce j).packageFor startNonce i = f.packageFor startNonce i := rfl

end Frame

/-! ## The loop -/

/-- **Every call hands out the package of its turn**, for a miner that exists. -/
theorem mem_calls_handOut {startNonce : BitVec 64} {fuel : ℕ} {i j : BitVec 32} {f : Farm}
    {p : WorkPackage} (h : (j, p) ∈ (handOut startNonce fuel i f).calls) :
    j.toNat < f.miners.length ∧ p = f.packageFor startNonce j := by
  induction fuel generalizing i f with
  | zero => exact absurd h (by simp [handOut])
  | succ fuel ih =>
    rw [handOut] at h
    split_ifs at h with hi
    · rcases List.mem_cons.mp h with heq | hmem
      · obtain ⟨rfl, rfl⟩ := Prod.mk.inj heq
        exact ⟨hi, rfl⟩
      · have hrest := ih hmem
        rwa [length_giveWork, packageFor_giveWork] at hrest
    · exact absurd h (by simp)

/-- **Every miner is called**, in as many turns as there are miners from `i` on, if
the counter can reach it. -/
theorem exists_mem_calls_handOut {startNonce : BitVec 64} {fuel : ℕ} {i j : BitVec 32}
    {f : Farm} (hj : j.toNat < f.miners.length) (hij : i.toNat ≤ j.toNat)
    (hfuel : j.toNat < i.toNat + fuel) :
    ∃ p, (j, p) ∈ (handOut startNonce fuel i f).calls := by
  induction fuel generalizing i f with
  | zero => omega
  | succ fuel ih =>
    rw [handOut, if_pos (lt_of_le_of_lt hij hj)]
    by_cases heq : i = j
    · rw [heq]
      exact ⟨_, List.mem_cons_self⟩
    · have hne : i.toNat ≠ j.toNat := fun h => heq (BitVec.eq_of_toNat_eq h)
      have hnext : (i + 1).toNat = i.toNat + 1 := by
        have := j.isLt
        rw [BitVec.toNat_add, show (1 : BitVec 32).toNat = 1 from rfl]
        omega
      obtain ⟨p, hp⟩ := ih (i := i + 1) (f := f.giveWork startNonce i)
        (by rw [length_giveWork]; exact hj) (by omega) (by omega)
      exact ⟨p, List.mem_cons_of_mem _ hp⟩

/-- **`setWork` calls every miner** that its counter can reach. -/
theorem exists_mem_setWorkCalls (lib : EthashLibrary) {f : Farm} (newWp : WorkPackage)
    (draw : BitVec 64) {j : BitVec 32} (hj : j.toNat < f.miners.length) :
    ∃ p, (j, p) ∈ f.setWorkCalls lib newWp draw f.miners.length := by
  refine exists_mem_calls_handOut ?_ (Nat.zero_le _) ?_
  · rw [length_setWorkBegin]
    exact hj
  · rw [show (0 : BitVec 32).toNat = 0 from rfl]
    omega

/-- With `2 ^ 32` miners or more the counter never reaches their number. -/
theorem handOut_farm_eq_none {startNonce : BitVec 64} {f : Farm}
    (h : 2 ^ 32 ≤ f.miners.length) (fuel : ℕ) (i : BitVec 32) :
    (handOut startNonce fuel i f).farm = none := by
  induction fuel generalizing i f with
  | zero => rfl
  | succ fuel ih =>
    rw [handOut, if_pos (lt_of_lt_of_le i.isLt h)]
    exact ih (by rw [length_giveWork]; exact h) (i + 1)

/-- What the loop makes of the farm from turn `i` on. -/
def handedOut (f : Farm) (startNonce : BitVec 64) (i : ℕ) : Farm :=
  { f with
    currentWp :=
      if i < f.miners.length then
        f.packageFor startNonce (BitVec.ofNat 32 (f.miners.length - 1))
      else f.currentWp
    miners := f.miners.mapIdx fun k m =>
      if i ≤ k then m.setWork (f.packageFor startNonce (BitVec.ofNat 32 k)) else m }

theorem handedOut_length (f : Farm) (startNonce : BitVec 64) :
    f.handedOut startNonce f.miners.length = f := by
  have hminers : (f.miners.mapIdx fun k m =>
      if f.miners.length ≤ k then m.setWork (f.packageFor startNonce (BitVec.ofNat 32 k))
      else m) = f.miners := by
    apply List.ext_getElem
    · rw [List.length_mapIdx]
    · intro k hk hk'
      rw [List.getElem_mapIdx, if_neg (by omega)]
  rw [handedOut, if_neg (by omega), hminers]

/-- One turn, and the turns after it. -/
theorem handedOut_giveWork {f : Farm} {startNonce : BitVec 64} {i : BitVec 32}
    (hi : i.toNat < f.miners.length) :
    (f.giveWork startNonce i).handedOut startNonce (i.toNat + 1) =
      f.handedOut startNonce i.toNat := by
  have hofNat : BitVec.ofNat 32 i.toNat = i := by rw [BitVec.ofNat_toNat, BitVec.setWidth_eq]
  have hminers : ((f.giveWork startNonce i).miners.mapIdx fun k m =>
      if i.toNat + 1 ≤ k then m.setWork (f.packageFor startNonce (BitVec.ofNat 32 k)) else m) =
      f.miners.mapIdx fun k m =>
        if i.toNat ≤ k then m.setWork (f.packageFor startNonce (BitVec.ofNat 32 k)) else m := by
    apply List.ext_getElem
    · rw [List.length_mapIdx, List.length_mapIdx, length_giveWork]
    · intro k hk hk'
      simp only [List.getElem_mapIdx, giveWork, List.getElem_modify]
      by_cases hki : i.toNat = k
      · subst hki
        rw [if_neg (by omega), if_pos rfl, if_pos (le_refl _), hofNat]
      · rw [if_neg hki]
        by_cases hlt : i.toNat + 1 ≤ k
        · rw [if_pos hlt, if_pos (by omega)]
        · rw [if_neg hlt, if_neg (by omega)]
  have hwp : (if i.toNat + 1 < f.miners.length then
        f.packageFor startNonce (BitVec.ofNat 32 (f.miners.length - 1))
      else f.packageFor startNonce i) =
      f.packageFor startNonce (BitVec.ofNat 32 (f.miners.length - 1)) := by
    split_ifs with hlast
    · rfl
    · rw [show f.miners.length - 1 = i.toNat by omega, hofNat]
  unfold handedOut
  rw [if_pos hi, length_giveWork]
  exact congrArg₂ (fun wp ms => { f with currentWp := wp, miners := ms }) hwp hminers

/-- **The loop ends** when there are fewer than `2 ^ 32` miners, and has then given
each of them the package of its turn. -/
theorem handOut_farm_eq_some {startNonce : BitVec 64} {fuel : ℕ} {i : BitVec 32} {f : Farm}
    (hlt : f.miners.length < 2 ^ 32) (hi : i.toNat ≤ f.miners.length)
    (hfuel : f.miners.length < i.toNat + fuel) :
    (handOut startNonce fuel i f).farm = some (f.handedOut startNonce i.toNat) := by
  induction fuel generalizing i f with
  | zero => omega
  | succ fuel ih =>
    rw [handOut]
    split_ifs with hturn
    · have hnext : (i + 1).toNat = i.toNat + 1 := by
        rw [BitVec.toNat_add, show (1 : BitVec 32).toNat = 1 from rfl]
        omega
      have hrest := ih (i := i + 1) (f := f.giveWork startNonce i)
        (by rw [length_giveWork]; exact hlt) (by rw [length_giveWork]; omega)
        (by rw [length_giveWork]; omega)
      rw [hnext, handedOut_giveWork hturn] at hrest
      exact hrest
    · have hend : i.toNat = f.miners.length := by omega
      rw [hend, handedOut_length]

/-- **`setWork` comes back** with fewer than `2 ^ 32` miners. -/
theorem setWork_eq_some (lib : EthashLibrary) (f : Farm) (newWp : WorkPackage)
    (draw : BitVec 64) (hlt : f.miners.length < 2 ^ 32) :
    f.setWork lib newWp draw =
      some ((f.setWorkBegin lib newWp draw).1.handedOut
        (f.setWorkBegin lib newWp draw).2 0) := by
  rw [setWork, handOut_farm_eq_some]
  · rfl
  · rw [length_setWorkBegin]
    exact hlt
  · exact Nat.zero_le _
  · rw [length_setWorkBegin, show (0 : BitVec 32).toNat = 0 from rfl]
    omega

/-- If `setWork` comes back, this is what it leaves. -/
theorem eq_of_setWork_eq_some {lib : EthashLibrary} {f g : Farm} {newWp : WorkPackage}
    {draw : BitVec 64} (h : f.setWork lib newWp draw = some g) :
    g = (f.setWorkBegin lib newWp draw).1.handedOut (f.setWorkBegin lib newWp draw).2 0 := by
  rcases Nat.lt_or_ge f.miners.length (2 ^ 32) with hlt | hge
  · rw [setWork_eq_some lib f newWp draw hlt] at h
    exact (Option.some.inj h).symm
  · rw [setWork, handOut_farm_eq_none (by rw [length_setWorkBegin]; exact hge)] at h
    exact absurd h (by simp)

@[simp] theorem length_handedOut (f : Farm) (startNonce : BitVec 64) (i : ℕ) :
    (f.handedOut startNonce i).miners.length = f.miners.length := by
  rw [handedOut, List.length_mapIdx]

end Farm
end Ethcore
end FpgaEthash
