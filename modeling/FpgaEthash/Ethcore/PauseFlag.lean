import FpgaEthash.Ethcore.EpochFollows

/-!
# The pause flag of the farm and of its miners

`Farm::pause` and `Farm::resume` write the farm's own flag and the flag
`PauseDueToFarmPaused` of the miners that there are.  `Farm::start` creates miners without
any flag, and it does not ask whether the farm is paused.  The pool manager pauses the
farm whenever a connection fails, and on the next one that succeeds it starts the farm if
it is not mining, and resumes it only otherwise.  So after a first connection that fails
the miners are at work in a paused farm.

`flagsMatch_iff` is the exact condition for every sequence of operations: no miners are
created, by `start` or by `restart`, while the farm is paused.
-/

namespace FpgaEthash
namespace Ethcore
namespace Farm

open Devcore Runs

/-- The flag of every miner is that of the farm. -/
def FlagsMatch (f : Farm) : Prop :=
  ∀ m ∈ f.miners, MinerPauseEnum.pauseDueToFarmPaused ∈ m.pauseFlags ↔ f.paused = true

/-- `start` finds miners to create. -/
def Creates (f : Farm) : Prop := f.miners = [] ∧ DeviceSubscriptionTypeEnum.fpga ∈ f.devices

/-- The operations that keep the flags together: miners are created only while the farm is
not paused. -/
def Unpaused (f : Farm) : Operation → Prop
  | .start => f.isMining = false → f.Creates → f.paused = false
  | .restart => f.minerRestart = true → (f.isMining = true ∨ f.miners = []) →
      DeviceSubscriptionTypeEnum.fpga ∈ f.devices → f.paused = false
  | _ => True

variable {f g : Farm}

/-! ## `start` and `restart` -/

theorem paused_foldl_addDevice (devices : List DeviceSubscriptionTypeEnum) (f : Farm) :
    (devices.foldl addDevice f).paused = f.paused := by
  induction devices generalizing f with
  | nil => rfl
  | cons d devices ih =>
    rw [List.foldl_cons, ih]
    cases d <;> rfl

/-- The loop of `start` leaves the farm without miners exactly if there were none and no
device is an FPGA. -/
theorem foldl_addDevice_eq_nil_iff (devices : List DeviceSubscriptionTypeEnum) (f : Farm) :
    (devices.foldl addDevice f).miners = [] ↔
      f.miners = [] ∧ DeviceSubscriptionTypeEnum.fpga ∉ devices := by
  induction devices generalizing f with
  | nil => simp
  | cons d devices ih =>
    rw [List.foldl_cons, ih]
    cases d <;> simp [addDevice]

theorem pauseFlags_of_mem_foldl {m : Miner} (hnil : f.miners = [])
    (hm : m ∈ (f.devices.foldl addDevice f).miners) : m.pauseFlags = ∅ := by
  rcases mem_foldl_addDevice hm with hold | ⟨index, rfl⟩
  · rw [hnil] at hold
    exact absurd hold List.not_mem_nil
  · rfl

/-- **`start` keeps the flags together** exactly when it creates no miners in a paused
farm. -/
theorem flagsMatch_start_iff (h : f.FlagsMatch) :
    f.start.FlagsMatch ↔ (f.isMining = false → f.Creates → f.paused = false) := by
  by_cases hmining : f.isMining = true
  · have hstart : f.start = f := by rw [start, if_pos hmining]
    rw [hstart]
    refine iff_of_true h fun hfalse => ?_
    rw [hmining] at hfalse
    cases hfalse
  by_cases hnil : f.miners = []
  · -- the miners are new
    have hstart : f.start.FlagsMatch ↔ ∀ m ∈ (f.devices.foldl addDevice f).miners,
        MinerPauseEnum.pauseDueToFarmPaused ∈ m.pauseFlags ↔ f.paused = true := by
      unfold FlagsMatch start
      rw [if_neg hmining, if_pos hnil]
      dsimp only
      rw [paused_foldl_addDevice]
    rw [hstart]
    constructor
    · intro hall _ hcreates
      have hne : (f.devices.foldl addDevice f).miners ≠ [] := fun hempty =>
        ((foldl_addDevice_eq_nil_iff _ _).mp hempty).2 hcreates.2
      obtain ⟨m, hm⟩ := List.exists_mem_of_ne_nil _ hne
      refine Bool.eq_false_iff.mpr fun hpaused => ?_
      have hflag := (hall m hm).mpr hpaused
      rw [pauseFlags_of_mem_foldl hnil hm] at hflag
      exact absurd hflag (Finset.notMem_empty _)
    · intro hpaused m hm
      have hfpga : DeviceSubscriptionTypeEnum.fpga ∈ f.devices := by
        by_contra hnone
        rw [(foldl_addDevice_eq_nil_iff _ _).mpr ⟨hnil, hnone⟩] at hm
        exact absurd hm List.not_mem_nil
      rw [pauseFlags_of_mem_foldl hnil hm,
        hpaused (Bool.eq_false_iff.mpr hmining) ⟨hnil, hfpga⟩]
      exact iff_of_false (Finset.notMem_empty _) Bool.false_ne_true
  · have hstart : f.start = { f with isMining := true } := by
      rw [start, if_neg hmining, if_neg hnil]
    rw [hstart]
    exact iff_of_true h fun _ hcreates => absurd hcreates.1 hnil

theorem flagsMatch_stop (h : f.FlagsMatch) : f.stop.FlagsMatch := by
  unfold stop
  split_ifs
  · exact fun m hm => absurd hm List.not_mem_nil
  · exact h

theorem flagsMatch_restart_iff (h : f.FlagsMatch) :
    f.restart.FlagsMatch ↔ f.Unpaused .restart := by
  by_cases hset : f.minerRestart = true
  · by_cases hmining : f.isMining = true
    · have hrestart : f.restart = f.stop.start := by
        rw [restart, if_pos hset, if_pos hmining]
      have hstop : f.stop = { f with miners := [], isMining := false } := by
        rw [stop, if_pos hmining]
      rw [hrestart, flagsMatch_start_iff (flagsMatch_stop h), hstop]
      constructor
      · exact fun hstart _ _ hfpga => hstart rfl ⟨rfl, hfpga⟩
      · exact fun hunpaused _ hcreates => hunpaused hset (Or.inl hmining) hcreates.2
    · have hrestart : f.restart = f.start := by
        rw [restart, if_pos hset, if_neg hmining]
      rw [hrestart, flagsMatch_start_iff h]
      constructor
      · exact fun hstart _ hnone hfpga =>
          hstart (Bool.eq_false_iff.mpr hmining) ⟨hnone.resolve_left hmining, hfpga⟩
      · exact fun hunpaused _ hcreates => hunpaused hset (Or.inr hcreates.1) hcreates.2
  · have hrestart : f.restart = f := by rw [restart, if_neg hset]
    rw [hrestart]
    exact iff_of_true h fun hrestarts => absurd hrestarts hset

/-! ## `setWork` -/

theorem pauseFlags_setWork (m : Miner) (work : WorkPackage) :
    (m.setWork work).pauseFlags = m.pauseFlags := by
  unfold Miner.setWork
  split_ifs <;> rfl

theorem paused_setWork {lib : EthashLibrary} {newWp : WorkPackage} {draw : BitVec 64}
    (hs : f.setWork lib newWp draw = some g) : g.paused = f.paused := by
  rw [eq_of_setWork_eq_some hs, handedOut]
  unfold setWorkBegin retrieveEpochContext shuffle
  dsimp only
  split_ifs <;> rfl

/-- The miners that `setWork` leaves have the flags of those that were there. -/
theorem exists_pauseFlags_of_mem_setWork {lib : EthashLibrary} {newWp : WorkPackage}
    {draw : BitVec 64} (hs : f.setWork lib newWp draw = some g) {m' : Miner}
    (hm' : m' ∈ g.miners) : ∃ m ∈ f.miners, m'.pauseFlags = m.pauseFlags := by
  obtain ⟨k, hk, rfl⟩ := (mem_miners_setWork_iff hs m').mp hm'
  rw [pauseFlags_setWork]
  have hmem := List.get_mem (f.retrieveEpochContext lib newWp).miners ⟨k, hk⟩
  revert hmem
  generalize (f.retrieveEpochContext lib newWp).miners.get ⟨k, hk⟩ = m
  unfold retrieveEpochContext
  split_ifs
  · intro hmem
    obtain ⟨m₀, hm₀, rfl⟩ := List.mem_map.mp hmem
    exact ⟨m₀, hm₀, rfl⟩
  · exact fun hmem => ⟨m, hmem, rfl⟩

theorem flagsMatch_setWork {lib : EthashLibrary} {newWp : WorkPackage} {draw : BitVec 64}
    (h : f.FlagsMatch) (hs : f.setWork lib newWp draw = some g) : g.FlagsMatch := by
  intro m' hm'
  obtain ⟨m, hm, hflags⟩ := exists_pauseFlags_of_mem_setWork hs hm'
  rw [hflags, paused_setWork hs]
  exact h m hm

/-! ## Sequences of operations -/

theorem flagsMatch_pause (f : Farm) : f.pause.FlagsMatch := by
  intro m hm
  obtain ⟨m₀, -, rfl⟩ := List.mem_map.mp hm
  exact iff_of_true (Finset.mem_insert_self _ _) rfl

theorem flagsMatch_resume (f : Farm) : f.resume.FlagsMatch := by
  intro m hm
  obtain ⟨m₀, -, rfl⟩ := List.mem_map.mp hm
  exact iff_of_false (Finset.notMem_erase _ _) Bool.false_ne_true

/-- **One operation keeps the flags together** exactly when it creates no miners in a
paused farm. -/
theorem flagsMatch_perform_iff {lib : EthashLibrary} {op : Operation} (h : f.FlagsMatch)
    (hg : f.perform lib op = some g) : g.FlagsMatch ↔ f.Unpaused op := by
  cases op with
  | start =>
    obtain rfl := Option.some.inj hg
    exact flagsMatch_start_iff h
  | restart =>
    obtain rfl := Option.some.inj hg
    exact flagsMatch_restart_iff h
  | stop =>
    obtain rfl := Option.some.inj hg
    exact iff_of_true (flagsMatch_stop h) trivial
  | pause =>
    obtain rfl := Option.some.inj hg
    exact iff_of_true (flagsMatch_pause f) trivial
  | resume =>
    obtain rfl := Option.some.inj hg
    exact iff_of_true (flagsMatch_resume f) trivial
  | setWork newWp draw => exact iff_of_true (flagsMatch_setWork h hg) trivial

/-- **The flag of every miner is that of the farm**, in every state between two operations,
exactly when no operation creates miners while the farm is paused. -/
theorem flagsMatch_iff (lib : EthashLibrary) (settings : FarmSettings)
    (devices : List DeviceSubscriptionTypeEnum) (minerRestart : Bool) (scrambler : BitVec 64)
    (ops : List Operation) :
    Along (perform lib) FlagsMatch (new settings devices minerRestart scrambler) ops ↔
      StepsMeet (perform lib) Unpaused (new settings devices minerRestart scrambler) ops :=
  along_iff_stepsMeet (I := fun _ => True) (fun _ _ _ _ _ => trivial)
    (fun _ _ _ _ h hg => flagsMatch_perform_iff h hg) ops _ trivial
    fun _ hm => absurd hm List.not_mem_nil

/-- The first connection fails and the second one succeeds: the farm is paused, and its
miner has no pause flag. -/
theorem miner_at_work_in_paused_farm :
    (run (perform default) (new {} [.fpga] true 0) [.pause, .start]).map
      (fun f => (f.paused, f.isMining, f.miners.map Miner.pauseFlags)) =
        some (true, true, [∅]) := by
  decide +kernel

end Farm
end Ethcore
end FpgaEthash
