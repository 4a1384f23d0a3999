import FpgaEthash.Stratum.Exchange

/-!
# The pool manager's handlers

`PoolManager` sets the handlers of its client.  The one for new work keeps the epoch in
its copy of the package, shows what is mined when the epoch or the difficulty is new,
and gives the package to the farm.

Showing it divides by the boundary.  `thrown_onWorkReceived_iff` says when the handler
throws: when the package is real, its boundary is zero and there is something to show.
-/

namespace FpgaEthash
namespace Pool

open Devcore Ethcore Stratum Throwing HexDigits

/-- The members of `PoolManager` that its handlers write, and the packages that it has
given to `Farm::setWork`. -/
structure PoolManager where
  currentWp : WorkPackage := {}
  epochChanges : BitVec 32 := 0
  farmWork : List WorkPackage := []
  deriving DecidableEq

namespace PoolManager

/-! ## New work -/

/-- `getHashesToTarget` of a hash, as `0x` and its digits.  The quotient is exact here. -/
def getHashesToTarget (target : StdString) : Except Abort ℕ :=
  let dividend := 0xffff000000000000000000000000000000000000000000000000000000000000
  let divisor := value (skip0x target)
  if divisor = 0 then .error .overflowError else .ok (dividend / divisor)

/-- `showMiningAt`. -/
def showMiningAt : EStateM Abort PoolManager Unit := do
  let p ← get
  if p.currentWp.isReal then do
    let _ ← ofExcept id (getHashesToTarget (p.currentWp.boundary.hex .add))
  else pure ()

/-- Whether the package starts a new epoch.  In EthereumStratum/2.0.0 the epoch number is
set in the session. -/
def newEpoch (p : PoolManager) (conn : Uri) (wp : WorkPackage) : Bool :=
  p.currentWp.epoch == -1 ||
    if conn.stratumMode = 3 then wp.epoch != p.currentWp.epoch
    else wp.seed != p.currentWp.seed

/-- Whether the package comes with another boundary. -/
def newDiff (p : PoolManager) (wp : WorkPackage) : Bool := wp.boundary != p.currentWp.boundary

/-- The package with its epoch.  An epoch that it has itself is taken. -/
def withEpoch (findEpochNumber : H256 → ℤ) (wp : WorkPackage) : WorkPackage :=
  if wp.epoch = -1 then
    if 0 ≤ wp.block then { wp with epoch := wp.block.tdiv 30000 }
    else { wp with epoch := findEpochNumber wp.seed }
  else wp

/-- `m_currentWp = wp`, and the epoch of the copy. -/
def takeWork (findEpochNumber : H256 → ℤ) (conn : Uri) (wp : WorkPackage)
    (p : PoolManager) : PoolManager :=
  if p.newEpoch conn wp then
    { p with
      currentWp := withEpoch findEpochNumber wp
      epochChanges := p.epochChanges + 1 }
  else { p with currentWp := { wp with epoch := p.currentWp.epoch } }

/-- What is mined is shown when the difficulty or the epoch is new. -/
def showNew (new : Bool) : EStateM Abort PoolManager Unit :=
  if new then showMiningAt else pure ()

/-- The handler of `onWorkReceived`. -/
def onWorkReceived (findEpochNumber : H256 → ℤ) (conn : Uri) (wp : WorkPackage) :
    EStateM Abort PoolManager Unit := do
  -- should not happen
  if !wp.isReal then pure ()
  else do
    let p ← get
    modify (takeWork findEpochNumber conn wp)
    showNew (p.newDiff wp || p.newEpoch conn wp)
    modify fun p => { p with farmWork := p.farmWork ++ [p.currentWp] }

/-- What the handler of `onConnected` does to `m_currentWp`. -/
def resetWork (p : PoolManager) : PoolManager :=
  { p with currentWp := { p.currentWp with job := [], header := FixedHash.zero 32 } }

/-- What the handler of `onDisconnected` does to `m_currentWp`. -/
def dropWork (p : PoolManager) : PoolManager :=
  { p with currentWp := { p.currentWp with header := FixedHash.zero 32 } }

/-- The handlers that the manager sets.  Those for solutions only account for them. -/
def handlers (findEpochNumber : H256 → ℤ) : Handlers PoolManager where
  onConnected := modify resetWork
  onWorkReceived := onWorkReceived findEpochNumber

/-! ## What the handler throws -/

/-- The package is real, its boundary is zero, and there is something new to show. -/
def ShowsZero (p : PoolManager) (conn : Uri) (wp : WorkPackage) : Prop :=
  wp.isReal = true ∧ wp.boundary = FixedHash.zero 32 ∧
    (p.newDiff wp = true ∨ p.newEpoch conn wp = true)

instance (p : PoolManager) (conn : Uri) (wp : WorkPackage) : Decidable (p.ShowsZero conn wp) :=
  inferInstanceAs (Decidable (_ ∧ _ ∧ _))

theorem header_takeWork (findEpochNumber : H256 → ℤ) (conn : Uri) (wp : WorkPackage)
    (p : PoolManager) : (takeWork findEpochNumber conn wp p).currentWp.header = wp.header := by
  unfold takeWork withEpoch
  split_ifs <;> rfl

theorem boundary_takeWork (findEpochNumber : H256 → ℤ) (conn : Uri) (wp : WorkPackage)
    (p : PoolManager) : (takeWork findEpochNumber conn wp p).currentWp.boundary = wp.boundary := by
  unfold takeWork withEpoch
  split_ifs <;> rfl

theorem getHashesToTarget_hex (boundary : H256) :
    (∃ n, getHashesToTarget (boundary.hex .add) = .ok n) ↔ boundary ≠ FixedHash.zero 32 := by
  rw [ne_eq, ← FixedHash.value_hex_eq_zero_iff]
  unfold getHashesToTarget
  dsimp only
  split_ifs with hzero
  · exact ⟨nofun, fun h => absurd hzero h⟩
  · exact ⟨fun _ => hzero, fun _ => ⟨_, rfl⟩⟩

theorem thrown_showMiningAt_iff (p : PoolManager) :
    thrown showMiningAt p = none ↔
      (p.currentWp.isReal = true → p.currentWp.boundary ≠ FixedHash.zero 32) := by
  show thrown (if p.currentWp.isReal = true then _ else _ : EStateM Abort PoolManager Unit) p =
    none ↔ _
  by_cases hreal : p.currentWp.isReal = true
  · rw [if_pos hreal, ← getHashesToTarget_hex]
    cases getHashesToTarget (p.currentWp.boundary.hex .add) with
    | ok n => exact ⟨fun _ _ => ⟨n, rfl⟩, fun _ => rfl⟩
    | error e => exact ⟨nofun, fun h => (h hreal).elim nofun⟩
  · rw [if_neg hreal]
    exact ⟨fun _ h => absurd h hreal, fun _ => rfl⟩

/-- **When the handler of new work throws.** -/
theorem thrown_onWorkReceived_iff (findEpochNumber : H256 → ℤ) (conn : Uri) (wp : WorkPackage)
    (p : PoolManager) :
    thrown (onWorkReceived findEpochNumber conn wp) p = none ↔ ¬ p.ShowsZero conn wp := by
  unfold onWorkReceived
  cases hreal : wp.isReal with
  | false => exact ⟨fun _ h => Bool.false_ne_true (hreal.symm.trans h.1), fun _ => rfl⟩
  | true =>
    rw [Bool.not_true, if_neg Bool.false_ne_true]
    let p' := takeWork findEpochNumber conn wp p
    have hreal' : p'.currentWp.isReal = true := by
      rw [WorkPackage.isReal, header_takeWork]
      exact hreal
    have hshow : thrown (showNew (p.newDiff wp || p.newEpoch conn wp)) p' = none ↔
        ¬ p.ShowsZero conn wp := by
      unfold showNew
      split_ifs with hnew
      · rw [thrown_showMiningAt_iff, boundary_takeWork]
        rw [Bool.or_eq_true] at hnew
        exact ⟨fun h hzero => h hreal' hzero.2.1, fun h _ hzero => h ⟨hreal, hzero, hnew⟩⟩
      · rw [Bool.or_eq_true] at hnew
        exact ⟨fun _ h => hnew h.2.2, fun _ => rfl⟩
    rw [← hshow]
    show thrown (showNew (p.newDiff wp || p.newEpoch conn wp) >>= fun _ => modify _) p' = none ↔
      _
    cases hrun : showNew (p.newDiff wp || p.newEpoch conn wp) p' with
    | ok u q =>
      rw [thrown, bind_of_ok hrun, thrown_of_ok hrun]
      exact ⟨fun _ => rfl, fun _ => rfl⟩
    | error e q => rw [thrown_of_error (bind_of_error hrun), thrown_of_error hrun]

end PoolManager
end Pool
end FpgaEthash
