import FpgaEthash.Computation.Runs
import FpgaEthash.Ethcore.Farm

/-!
# The epoch context of a miner and the epoch of its work

A miner sizes and fills its DAG from the `EpochContext` that `setEpoch` last gave
it, for the package that `setWork` last gave it.  `EpochFollows` says that the two
belong together: a miner with real work has a context, and it is of the epoch of
that work.

`Farm::setWork` calls `setEpoch` only when the new package is for another epoch
than the farm's own last package.  What it does give is never wrong
(`ContextsCurrent`, kept by every operation).  What can go wrong is that a miner has
been given nothing: `start` creates miners without a context, and the farm's last
package outlives `stop`.  A miner created after the epoch of the current work has
been announced gets that work, and no context, until the epoch changes.

`epochFollows_setWork_iff` is the exact condition for one call, and
`epochFollows_iff` carries it to every sequence of operations.
-/

namespace FpgaEthash
namespace Ethcore

open Devcore Runs

/-- The context of the miner is of the epoch of its work, if it has real work. -/
def Miner.Follows (m : Miner) : Prop :=
  m.work.header ≠ FixedHash.zero 32 →
    ∃ ec, m.epochContext = some ec ∧ ec.epochNumber = m.work.epoch

theorem Miner.follows_of_header_eq_zero {m : Miner} (h : m.work.header = FixedHash.zero 32) :
    m.Follows :=
  fun hne => absurd h hne

/-- **What `setWork` leaves in a miner follows** exactly when the package is void,
the miner is paused, or it has a context of the epoch of the package. -/
theorem Miner.follows_setWork_iff (m : Miner) (work : WorkPackage) :
    (m.setWork work).Follows ↔
      work.header = FixedHash.zero 32 ∨ m.paused = true ∨
        ∃ ec, m.epochContext = some ec ∧ ec.epochNumber = work.epoch := by
  unfold Miner.setWork
  by_cases hp : m.paused = true
  · rw [if_pos hp]
    exact ⟨fun _ => Or.inr (Or.inl hp), fun _ => Miner.follows_of_header_eq_zero rfl⟩
  · rw [if_neg hp]
    constructor
    · intro h
      by_cases hz : work.header = FixedHash.zero 32
      · exact Or.inl hz
      · exact Or.inr (Or.inr (h hz))
    · rintro (hz | hpaused | hec)
      · exact Miner.follows_of_header_eq_zero hz
      · exact absurd hpaused hp
      · exact fun _ => hec

namespace Farm

/-! ## Sequences of operations -/

/-- The operations on a farm.  `setWork` comes with what the random device would
yield. -/
inductive Operation where
  | start
  | stop
  | restart
  | pause
  | resume
  | setWork (newWp : WorkPackage) (draw : BitVec 64)

/-- One operation; `none` if it never comes back. -/
def perform (lib : EthashLibrary) (f : Farm) : Operation → Option Farm
  | .start => some f.start
  | .stop => some f.stop
  | .restart => some f.restart
  | .pause => some f.pause
  | .resume => some f.resume
  | .setWork newWp draw => f.setWork lib newWp draw

/-- A farm as its constructor leaves it: no miners, no package, a scrambler. -/
def new (settings : FarmSettings) (devices : List DeviceSubscriptionTypeEnum)
    (minerRestart : Bool) (scrambler : BitVec 64) : Farm :=
  { settings, devices, minerRestart, nonceScrambler := scrambler }

/-- Every miner's context is of the epoch of its work. -/
def EpochFollows (f : Farm) : Prop := ∀ m ∈ f.miners, m.Follows

/-- Every context that a miner has is of the epoch of the farm's package. -/
def ContextsCurrent (f : Farm) : Prop :=
  ∀ m ∈ f.miners, ∀ ec, m.epochContext = some ec → ec.epochNumber = f.currentWp.epoch

/-- The operations that keep the contexts with the work.  A real package must be for
another epoch than the last one, or find no miner at work without a context. -/
def Informs (f : Farm) : Operation → Prop
  | .setWork newWp _ =>
    newWp.header = FixedHash.zero 32 ∨ f.currentWp.epoch ≠ newWp.epoch ∨
      ∀ m ∈ f.miners, m.paused = true ∨ m.epochContext ≠ none
  | _ => True

/-! ## `start` -/

/-- A miner that the loop of `start` leaves was there before or is new. -/
theorem mem_foldl_addDevice {devices : List DeviceSubscriptionTypeEnum} {f : Farm} {m : Miner}
    (h : m ∈ (devices.foldl addDevice f).miners) :
    m ∈ f.miners ∨ ∃ index, m = { index := index } := by
  induction devices generalizing f with
  | nil => exact Or.inl h
  | cons d devices ih =>
    rcases ih h with hmem | hnew
    · cases d with
      | fpga =>
        rcases List.mem_append.mp hmem with hold | hlast
        · exact Or.inl hold
        · exact Or.inr ⟨_, List.mem_singleton.mp hlast⟩
      | none | openCL | cuda | cpu => exact Or.inl hmem
    · exact Or.inr hnew

theorem mem_start {f : Farm} {m : Miner} (h : m ∈ f.start.miners) :
    m ∈ f.miners ∨ ∃ index, m = { index := index } := by
  unfold start at h
  split_ifs at h
  · exact Or.inl h
  · exact mem_foldl_addDevice h
  · exact Or.inl h

theorem foldl_addDevice_currentWp (devices : List DeviceSubscriptionTypeEnum) (f : Farm) :
    (devices.foldl addDevice f).currentWp = f.currentWp := by
  induction devices generalizing f with
  | nil => rfl
  | cons d devices ih =>
    rw [List.foldl_cons, ih]
    cases d <;> rfl

@[simp] theorem start_currentWp (f : Farm) : f.start.currentWp = f.currentWp := by
  unfold start
  split_ifs
  · rfl
  · exact foldl_addDevice_currentWp f.devices f
  · rfl

@[simp] theorem stop_currentWp (f : Farm) : f.stop.currentWp = f.currentWp := by
  unfold stop
  split_ifs <;> rfl

theorem mem_stop {f : Farm} {m : Miner} (h : m ∈ f.stop.miners) : m ∈ f.miners := by
  unfold stop at h
  split_ifs at h
  · exact absurd h List.not_mem_nil
  · exact h

/-- `restart` keeps the package, and its miners are old or new. -/
theorem restart_spec (f : Farm) :
    f.restart.currentWp = f.currentWp ∧
      ∀ m ∈ f.restart.miners, m ∈ f.miners ∨ ∃ index, m = { index := index } := by
  unfold restart
  split_ifs
  · refine ⟨by rw [start_currentWp, stop_currentWp], fun m hm => ?_⟩
    exact (mem_start hm).imp_left mem_stop
  · exact ⟨start_currentWp f, fun m hm => mem_start hm⟩
  · exact ⟨rfl, fun m hm => Or.inl hm⟩

/-! ## `setWork` -/

/-- The miners that `setWork` leaves, if it comes back. -/
theorem mem_miners_setWork_iff {lib : EthashLibrary} {f g : Farm} {newWp : WorkPackage}
    {draw : BitVec 64} (h : f.setWork lib newWp draw = some g) (m' : Miner) :
    m' ∈ g.miners ↔ ∃ k, ∃ hk : k < (f.retrieveEpochContext lib newWp).miners.length,
      m' = ((f.retrieveEpochContext lib newWp).miners.get ⟨k, hk⟩).setWork
        ((f.setWorkBegin lib newWp draw).1.packageFor (f.setWorkBegin lib newWp draw).2
          (BitVec.ofNat 32 k)) := by
  rw [eq_of_setWork_eq_some h, handedOut, setWorkBegin_miners, List.mem_mapIdx]
  constructor
  · rintro ⟨k, hk, rfl⟩
    exact ⟨k, hk, by rw [if_pos (Nat.zero_le k)]; rfl⟩
  · rintro ⟨k, hk, rfl⟩
    exact ⟨k, hk, by rw [if_pos (Nat.zero_le k)]; rfl⟩

theorem packageFor_setWorkBegin_header (lib : EthashLibrary) (f : Farm) (newWp : WorkPackage)
    (draw startNonce : BitVec 64) (i : BitVec 32) :
    ((f.setWorkBegin lib newWp draw).1.packageFor startNonce i).header = newWp.header := by
  rw [packageFor, setWorkBegin_currentWp]

theorem packageFor_setWorkBegin_epoch (lib : EthashLibrary) (f : Farm) (newWp : WorkPackage)
    (draw startNonce : BitVec 64) (i : BitVec 32) :
    ((f.setWorkBegin lib newWp draw).1.packageFor startNonce i).epoch = newWp.epoch := by
  rw [packageFor, setWorkBegin_currentWp]

theorem setWork_currentWp_epoch {lib : EthashLibrary} {f g : Farm} {newWp : WorkPackage}
    {draw : BitVec 64} (h : f.setWork lib newWp draw = some g) :
    g.currentWp.epoch = newWp.epoch := by
  rw [eq_of_setWork_eq_some h, handedOut]
  dsimp only
  split_ifs
  · exact packageFor_setWorkBegin_epoch ..
  · rw [setWorkBegin_currentWp]

/-- After the context has been retrieved, every context is of the new epoch. -/
theorem contextsCurrent_retrieve {lib : EthashLibrary} {f : Farm} {newWp : WorkPackage}
    (h : f.ContextsCurrent) {m : Miner} (hm : m ∈ (f.retrieveEpochContext lib newWp).miners)
    {ec : EpochContext} (hec : m.epochContext = some ec) : ec.epochNumber = newWp.epoch := by
  unfold retrieveEpochContext at hm
  split_ifs at hm with hepoch
  · obtain ⟨m₀, -, rfl⟩ := List.mem_map.mp hm
    rw [← Option.some.inj hec, EthashLibrary.epochContext_epochNumber]
  · rw [← not_not.mp hepoch]
    exact h m hm ec hec

/-- **Every operation keeps the contexts current.** -/
theorem contextsCurrent_perform {lib : EthashLibrary} {f g : Farm} {op : Operation}
    (h : f.ContextsCurrent) (hop : f.perform lib op = some g) : g.ContextsCurrent := by
  -- a farm with the same package whose miners are old ones or new ones
  have hkeep : ∀ g : Farm, g.currentWp = f.currentWp →
      (∀ m ∈ g.miners, m ∈ f.miners ∨ ∃ index, m = { index := index }) →
      g.ContextsCurrent := by
    intro g hwp hmem m hm ec hec
    rw [hwp]
    rcases hmem m hm with hold | ⟨index, rfl⟩
    · exact h m hold ec hec
    · exact absurd hec (by simp)
  cases op with
  | start =>
    obtain rfl := Option.some.inj hop
    exact hkeep _ (start_currentWp f) fun m hm => mem_start hm
  | stop =>
    obtain rfl := Option.some.inj hop
    exact hkeep _ (stop_currentWp f) fun m hm => Or.inl (mem_stop hm)
  | restart =>
    obtain rfl := Option.some.inj hop
    exact hkeep _ (restart_spec f).1 (restart_spec f).2
  | pause | resume =>
    obtain rfl := Option.some.inj hop
    intro m hm ec hec
    obtain ⟨m₀, hm₀, rfl⟩ := List.mem_map.mp hm
    exact h m₀ hm₀ ec hec
  | setWork newWp draw =>
    intro m hm ec hec
    obtain ⟨k, hk, rfl⟩ := (mem_miners_setWork_iff hop m).mp hm
    rw [Miner.setWork_epochContext] at hec
    rw [setWork_currentWp_epoch hop]
    exact contextsCurrent_retrieve h (List.get_mem _ _) hec

/-- A call of `setWork` keeps the contexts with the work exactly when every miner,
as the first part of the call leaves it, may get the package. -/
theorem epochFollows_setWork_iff_retrieve {lib : EthashLibrary} {f g : Farm}
    {newWp : WorkPackage} {draw : BitVec 64} (hg : f.setWork lib newWp draw = some g) :
    g.EpochFollows ↔ ∀ m ∈ (f.retrieveEpochContext lib newWp).miners,
      newWp.header = FixedHash.zero 32 ∨ m.paused = true ∨
        ∃ ec, m.epochContext = some ec ∧ ec.epochNumber = newWp.epoch := by
  have hpackage := fun k m => Miner.follows_setWork_iff m
    ((f.setWorkBegin lib newWp draw).1.packageFor (f.setWorkBegin lib newWp draw).2
      (BitVec.ofNat 32 k))
  simp only [packageFor_setWorkBegin_header, packageFor_setWorkBegin_epoch] at hpackage
  constructor
  · intro h m hm
    obtain ⟨⟨k, hk⟩, rfl⟩ := List.get_of_mem hm
    exact (hpackage k _).mp (h _ ((mem_miners_setWork_iff hg _).mpr ⟨k, hk, rfl⟩))
  · intro h m hm
    obtain ⟨k, hk, rfl⟩ := (mem_miners_setWork_iff hg m).mp hm
    exact (hpackage k _).mpr (h _ (List.get_mem _ _))

/-- **A call of `setWork` keeps the contexts with the work exactly when** the package
is void or for another epoch, or no miner at work is without a context. -/
theorem epochFollows_setWork_iff {lib : EthashLibrary} {f g : Farm} {newWp : WorkPackage}
    {draw : BitVec 64} (h : f.ContextsCurrent) (hg : f.setWork lib newWp draw = some g) :
    g.EpochFollows ↔ f.Informs (.setWork newWp draw) := by
  rw [epochFollows_setWork_iff_retrieve hg, Informs]
  by_cases hz : newWp.header = FixedHash.zero 32
  · exact ⟨fun _ => Or.inl hz, fun _ _ _ => Or.inl hz⟩
  by_cases hepoch : f.currentWp.epoch = newWp.epoch
  · rw [retrieveEpochContext, if_neg (not_not.mpr hepoch)]
    constructor
    · intro hall
      refine Or.inr (Or.inr fun m hm => ?_)
      rcases hall m hm with hvoid | hp | ⟨ec, hec, -⟩
      · exact absurd hvoid hz
      · exact Or.inl hp
      · exact Or.inr (by rw [hec]; exact Option.some_ne_none ec)
    · rintro (hvoid | hother | hall) m hm
      · exact Or.inl hvoid
      · exact absurd hepoch hother
      · rcases hall m hm with hp | hsome
        · exact Or.inr (Or.inl hp)
        · obtain ⟨ec, hec⟩ := Option.ne_none_iff_exists'.mp hsome
          exact Or.inr (Or.inr ⟨ec, hec, (h m hm ec hec).trans hepoch⟩)
  · rw [retrieveEpochContext, if_pos hepoch]
    refine ⟨fun _ => Or.inr (Or.inl hepoch), fun _ m hm => ?_⟩
    obtain ⟨m₀, -, rfl⟩ := List.mem_map.mp hm
    exact Or.inr (Or.inr ⟨_, rfl, lib.epochContext_epochNumber newWp.epoch⟩)

/-- One operation keeps the contexts with the work exactly when it is one that
`Informs` admits. -/
theorem epochFollows_perform_iff {lib : EthashLibrary} {f g : Farm} {op : Operation}
    (hcur : f.ContextsCurrent) (h : f.EpochFollows) (hop : f.perform lib op = some g) :
    g.EpochFollows ↔ f.Informs op := by
  have hkeep : ∀ g : Farm,
      (∀ m ∈ g.miners, m ∈ f.miners ∨ ∃ index, m = { index := index }) →
      (g.EpochFollows ↔ True) := by
    refine fun g hmem => iff_true_intro fun m hm => ?_
    rcases hmem m hm with hold | ⟨index, rfl⟩
    · exact h m hold
    · exact Miner.follows_of_header_eq_zero rfl
  cases op with
  | start =>
    obtain rfl := Option.some.inj hop
    exact hkeep _ fun m hm => mem_start hm
  | stop =>
    obtain rfl := Option.some.inj hop
    exact hkeep _ fun m hm => Or.inl (mem_stop hm)
  | restart =>
    obtain rfl := Option.some.inj hop
    exact hkeep _ (restart_spec f).2
  | pause =>
    obtain rfl := Option.some.inj hop
    refine iff_true_intro fun m hm => ?_
    obtain ⟨m₀, -, rfl⟩ := List.mem_map.mp hm
    exact Miner.follows_of_header_eq_zero rfl
  | resume =>
    obtain rfl := Option.some.inj hop
    refine iff_true_intro fun m hm => ?_
    obtain ⟨m₀, hm₀, rfl⟩ := List.mem_map.mp hm
    exact h m₀ hm₀
  | setWork newWp draw => exact epochFollows_setWork_iff hcur hop

/-! ## Every sequence of operations -/

/-- **The epoch context follows the work, over every run.**  From a new farm, and for
every sequence of operations: every miner with real work has a context of the epoch of
that work, in every state, exactly when every call of `setWork` is one that `Informs`
admits. -/
theorem epochFollows_iff (lib : EthashLibrary) (settings : FarmSettings)
    (devices : List DeviceSubscriptionTypeEnum) (minerRestart : Bool)
    (scrambler : BitVec 64) (ops : List Operation) :
    Along (perform lib) EpochFollows (new settings devices minerRestart scrambler) ops ↔
      StepsMeet (perform lib) Informs (new settings devices minerRestart scrambler) ops := by
  refine along_iff_stepsMeet (I := ContextsCurrent) ?_ ?_ ops _ ?_ ?_
  · exact fun f op g hcur hop => contextsCurrent_perform hcur hop
  · exact fun f op g hcur h hop => epochFollows_perform_iff hcur h hop
  · exact fun m hm => absurd hm List.not_mem_nil
  · exact fun m hm => absurd hm List.not_mem_nil

/-- A real package for epoch `0`. -/
def epochZeroWork : WorkPackage := { header := Vector.replicate 32 1, epoch := 0 }

/-- One device, a package for epoch `0`, a restart, and a second package for epoch
`0`: the new miner is at work and has never been given a context. -/
theorem epochFollows_fails_after_restart :
    ∃ g, run (perform default) (new {} [.fpga] true 0)
        [.start, .setWork epochZeroWork 0, .restart, .setWork epochZeroWork 0] = some g ∧
      g.miners = [{ index := 0, work := epochZeroWork, epochContext := none }] ∧
      ¬ g.EpochFollows := by
  refine ⟨_, rfl, rfl, fun h => ?_⟩
  obtain ⟨ec, hec, -⟩ := h _ List.mem_cons_self (by decide)
  exact absurd hec (by simp)

end Farm
end Ethcore
end FpgaEthash
