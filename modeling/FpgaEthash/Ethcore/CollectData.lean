import FpgaEthash.Computation.Latch
import FpgaEthash.Ethcore.PauseFlag
import FpgaEthash.Ethcore.TelemetryEntries

/-!
# Collecting data about the miners

`Farm::collectData` runs on a timer for the whole life of the farm.  It writes the hash rate
and the sensors of every miner to the telemetry, and it pauses a miner that is too hot and
resumes it when it has cooled down.

A run is any sequence of the farm's operations, of miners that set what they know about their
monitor, and of rounds of `collectData`.  What a round reads from a miner, `RetrieveHashRate`,
and from the hardware monitors is arbitrary.  Rates are elements of any type with a zero and
an addition, so nothing rests on how floats round.

* `thermostat`: a miner is paused for overheating exactly if one of its readings since it was
  created reached `tempStop`, and all that came after it were above `tempStart`; it has no
  work then.
* `hashrate_sums_entries`: a round always finds the entries that it writes, and the hash rate
  of the farm is the sum of the entries of its miners.  Without miners it is left as it was.
* `fpga_never_overheats`: `FPGAMiner` sets a device type for which there is no monitor.
  Its temperature is always read as zero, and it is never paused for overheating.
-/

namespace FpgaEthash
namespace Ethcore

open Devcore Runs

/-! ## Monitors -/

/-- `HwMonitorInfoType`, as the source spells it. -/
inductive HwMonitorInfoType where
  | unknown
  | nvidia
  | amd
  | cpu
  | fgpa
  deriving DecidableEq, Repr

/-- `HwMonitorInfo`. -/
structure HwMonitorInfo where
  deviceType : HwMonitorInfoType := .unknown
  devicePciId : StdString := []
  deviceIndex : ℤ := -1
  deriving DecidableEq

/-- `TelemetryAccountType::sensors`; the power is in milliwatts, as it is read. -/
structure Sensors where
  tempC : ℕ := 0
  fanP : ℕ := 0
  powerW : ℕ := 0
  deriving DecidableEq, Repr

/-- The monitors that were found, with their maps from PCI identifiers to devices. -/
structure Monitors where
  nvml : Option (List (StdString × ℤ)) := none
  amdsysfs : Option (List (StdString × ℤ)) := none

/-- The members of `FarmSettings` for the monitors. -/
structure MonitorSettings where
  hwMon : ℕ := 0
  tempStart : ℕ := 40
  tempStop : ℕ := 0
  deriving DecidableEq, Repr

/-- What a round of `collectData` reads. -/
structure Round (ρ : Type) where
  hashRate : ℕ → ρ
  nvml : ℤ → Sensors := fun _ => {}
  amdsysfs : ℤ → Sensors := fun _ => {}

/-- Find the device of a miner that has not been looked for: what the miner keeps, and the
index to read from. -/
def HwMonitorInfo.locate (info : HwMonitorInfo) (map : List (StdString × ℤ)) :
    HwMonitorInfo × ℤ :=
  if info.deviceIndex = -1 ∧ info.devicePciId ≠ [] then
    match map.lookup info.devicePciId with
    | some devIdx => ({ info with deviceIndex := devIdx }, devIdx)
    -- this prevents further tries to map
    | none => ({ info with deviceIndex := -2 }, -1)
  else (info, info.deviceIndex)

/-- Read one device, if there is one. -/
def readSensors (hwMon : ℕ) (read : ℤ → Sensors) (devIdx : ℤ) : Sensors :=
  if 0 ≤ devIdx then
    { read devIdx with powerW := if hwMon = 2 then (read devIdx).powerW else 0 }
  else {}

/-- The monitor of a miner: what the miner keeps, and the sensors. -/
def sense {ρ : Type} (monitors : Monitors) (hwMon : ℕ) (round : Round ρ) (info : HwMonitorInfo) :
    HwMonitorInfo × Sensors :=
  match info.deviceType, monitors.nvml, monitors.amdsysfs with
  | .nvidia, some map, _ =>
    ((info.locate map).1, readSensors hwMon round.nvml (info.locate map).2)
  | .amd, _, some map =>
    ((info.locate map).1, readSensors hwMon round.amdsysfs (info.locate map).2)
  | _, _, _ => (info, {})

/-- The check of the thresholds. -/
def controlTemperature (settings : MonitorSettings) (tempC : ℕ) (m : Miner) : Miner :=
  if settings.tempStop ≠ 0 then
    let paused := decide (MinerPauseEnum.pauseDueToOverHeating ∈ m.pauseFlags)
    let m := if !paused ∧ settings.tempStop ≤ tempC then m.pause .pauseDueToOverHeating else m
    if paused ∧ tempC ≤ settings.tempStart then m.resume .pauseDueToOverHeating else m
  else m

/-! ## The rounds -/

/-- `TelemetryAccountType`, as far as `collectData` writes it. -/
structure TelemetryAccount (ρ : Type) where
  hashrate : ρ
  paused : Bool := false
  sensors : Sensors := {}
  deriving DecidableEq

/-- What the rounds write, beside the miners' flags: the monitor of each miner, the entries of
the telemetry and the hash rate of the farm.  `heat` keeps the temperatures that were read for
each miner since it was created. -/
structure Records (ρ : Type) where
  hwmon : ℕ → HwMonitorInfo := fun _ => {}
  heat : ℕ → List ℕ := fun _ => []
  telemetry : List (TelemetryAccount ρ) := []
  hashrate : ρ

section Collect

variable {ρ : Type} [Zero ρ] [Add ρ] (settings : MonitorSettings) (monitors : Monitors)
  (round : Round ρ)

/-- The rate of a miner: a paused one has none. -/
def rateOf (m : Miner) : ρ := if m.paused then 0 else round.hashRate m.index

/-- One turn of the loop over the miners, with the sum so far; `none` if `at` throws. -/
def collectMiner (farmHr : ρ) (s : Records ρ) (m : Miner) : Option (Miner × Records ρ) :=
  if m.index < s.telemetry.length then
    if settings.hwMon ≠ 0 then
      let sensed := sense monitors settings.hwMon round (s.hwmon m.index)
      some (controlTemperature settings sensed.2.tempC m,
        { hwmon := Function.update s.hwmon m.index sensed.1
          heat := Function.update s.heat m.index (s.heat m.index ++ [sensed.2.tempC])
          telemetry := s.telemetry.set m.index ⟨rateOf round m, m.paused, sensed.2⟩
          hashrate := farmHr })
    else
      some (m, { s with
        telemetry := s.telemetry.modify m.index fun entry =>
          { entry with hashrate := rateOf round m, paused := m.paused }
        hashrate := farmHr })
  else none

/-- The loop over the miners. -/
def collectMiners : ρ → Records ρ → List Miner → Option (List Miner × Records ρ)
  | _, s, [] => some ([], s)
  | farmHr, s, m :: ms => do
      let (m', s) ← collectMiner settings monitors round (farmHr + rateOf round m) s m
      let (ms', s) ← collectMiners (farmHr + rateOf round m) s ms
      some (m' :: ms', s)

end Collect

/-- A farm and what is collected about it. -/
structure MonitoredFarm (ρ : Type) where
  farm : Farm
  records : Records ρ

namespace MonitoredFarm

variable {ρ : Type} [Zero ρ]

/-- `collectData`, without an error; `none` if it throws. -/
def collectData [Add ρ] (settings : MonitorSettings) (monitors : Monitors) (w : MonitoredFarm ρ)
    (round : Round ρ) : Option (MonitoredFarm ρ) :=
  (collectMiners settings monitors round 0 w.records w.farm.miners).map fun p =>
    ⟨{ w.farm with miners := p.1 }, p.2⟩

/-- The farm is replaced; entries that it has pushed are added. -/
def withFarm (w : MonitoredFarm ρ) (farm : Farm) : MonitoredFarm ρ where
  farm
  records := { w.records with
    telemetry := w.records.telemetry ++
      List.replicate (farm.telemetryMiners.length - w.records.telemetry.length) { hashrate := 0 } }

/-- New miners know no monitor, and nothing has been read for them. -/
def forget (w : MonitoredFarm ρ) : MonitoredFarm ρ :=
  { w with records := { w.records with hwmon := fun _ => {}, heat := fun _ => [] } }

/-- `start`. -/
def start (w : MonitoredFarm ρ) : MonitoredFarm ρ :=
  (if w.farm.isMining = false ∧ w.farm.miners = [] then w.forget else w).withFarm w.farm.start

/-- `restart`. -/
def restart (w : MonitoredFarm ρ) : MonitoredFarm ρ :=
  if w.farm.minerRestart then (if w.farm.isMining then w.withFarm w.farm.stop else w).start else w

/-- One operation of the farm; `none` if it never comes back. -/
def perform (lib : EthashLibrary) (w : MonitoredFarm ρ) : Farm.Operation → Option (MonitoredFarm ρ)
  | .start => some w.start
  | .stop => some (w.withFarm w.farm.stop)
  | .restart => some w.restart
  | .pause => some (w.withFarm w.farm.pause)
  | .resume => some (w.withFarm w.farm.resume)
  | .setWork newWp draw => (w.farm.setWork lib newWp draw).map w.withFarm

/-- What can happen: an operation of the farm, a miner that sets its monitor, a round. -/
inductive Event (ρ : Type) where
  | operation (op : Farm.Operation)
  | initDevice (minerIdx : ℕ) (info : HwMonitorInfo)
  | collect (round : Round ρ)

/-- One event. -/
def step [Add ρ] (lib : EthashLibrary) (settings : MonitorSettings) (monitors : Monitors)
    (w : MonitoredFarm ρ) : Event ρ → Option (MonitoredFarm ρ)
  | .operation op => w.perform lib op
  | .initDevice minerIdx info => some { w with records := { w.records with
      hwmon := Function.update w.records.hwmon minerIdx info } }
  | .collect round => w.collectData settings monitors round

/-- A farm as its constructor leaves it. -/
def new (settings : FarmSettings) (devices : List DeviceSubscriptionTypeEnum)
    (minerRestart : Bool) (scrambler : BitVec 64) : MonitoredFarm ρ where
  farm := Farm.new settings devices minerRestart scrambler
  records := { hashrate := 0 }

end MonitoredFarm

/-! ## One round -/

/-- A paused miner has no work. -/
def Miner.VoidIfPaused (m : Miner) : Prop :=
  m.pauseFlags ≠ ∅ → m.work.header = FixedHash.zero 32

theorem Miner.voidIfPaused_pause (m : Miner) (what : MinerPauseEnum) :
    (m.pause what).VoidIfPaused := fun _ => rfl

theorem Miner.VoidIfPaused.resume {m : Miner} (h : m.VoidIfPaused) (fromwhat : MinerPauseEnum) :
    (m.resume fromwhat).VoidIfPaused := by
  intro hflags
  refine h fun hnone => hflags ?_
  show m.pauseFlags.erase fromwhat = ∅
  rw [hnone]
  rfl

theorem Miner.voidIfPaused_setWork (m : Miner) (work : WorkPackage) :
    (m.setWork work).VoidIfPaused := by
  intro hflags
  rw [Farm.pauseFlags_setWork] at hflags
  have hpaused : m.paused = true := decide_eq_true hflags
  rw [Miner.setWork, if_pos hpaused]

section Control

variable (settings : MonitorSettings) (tempC : ℕ) (m : Miner)

/-- The latch of the thresholds. -/
def overheated (heat : List ℕ) : Bool :=
  Latch.after (settings.tempStop ≤ ·) (· ≤ settings.tempStart) heat

theorem index_controlTemperature : (controlTemperature settings tempC m).index = m.index := by
  unfold controlTemperature
  dsimp only
  split_ifs <;> rfl

theorem voidIfPaused_controlTemperature (h : m.VoidIfPaused) :
    (controlTemperature settings tempC m).VoidIfPaused := by
  unfold controlTemperature
  dsimp only
  split_ifs
  · exact (m.voidIfPaused_pause _).resume _
  · exact h.resume _
  · exact m.voidIfPaused_pause _
  · exact h
  · exact h

/-- **The check of the thresholds** moves the latch. -/
theorem mem_controlTemperature_iff (hstop : settings.tempStop ≠ 0) :
    .pauseDueToOverHeating ∈ (controlTemperature settings tempC m).pauseFlags ↔
      Latch.step (settings.tempStop ≤ ·) (· ≤ settings.tempStart)
        (decide (.pauseDueToOverHeating ∈ m.pauseFlags)) tempC = true := by
  unfold controlTemperature Latch.step
  rw [if_pos hstop]
  by_cases hflag : MinerPauseEnum.pauseDueToOverHeating ∈ m.pauseFlags
  · by_cases hcool : tempC ≤ settings.tempStart
    · simp [hflag, hcool, Miner.resume]
    · simp [hflag, hcool]
  · by_cases hhot : settings.tempStop ≤ tempC
    · simp [hflag, hhot, Miner.pause]
    · simp [hflag, hhot]

end Control

section Loop

variable {ρ : Type}

theorem deviceType_locate (info : HwMonitorInfo) (map : List (StdString × ℤ)) :
    (info.locate map).1.deviceType = info.deviceType := by
  unfold HwMonitorInfo.locate
  split_ifs
  · split <;> rfl
  · rfl

theorem deviceType_sense (monitors : Monitors) (hwMon : ℕ) (round : Round ρ)
    (info : HwMonitorInfo) :
    (sense monitors hwMon round info).1.deviceType = info.deviceType := by
  unfold sense
  split
  · exact deviceType_locate _ _
  · exact deviceType_locate _ _
  · rfl

/-- The temperature that is read for a miner. -/
def tempRead (settings : MonitorSettings) (monitors : Monitors) (round : Round ρ) (s : Records ρ)
    (minerIdx : ℕ) : ℕ :=
  (sense monitors settings.hwMon round (s.hwmon minerIdx)).2.tempC

/-- Without a type of device nothing is read. -/
theorem tempRead_eq_zero {settings : MonitorSettings} {monitors : Monitors} {round : Round ρ}
    {s : Records ρ} {minerIdx : ℕ} (h : (s.hwmon minerIdx).deviceType = .unknown) :
    tempRead settings monitors round s minerIdx = 0 := by
  unfold tempRead sense
  rw [h]

/-- A miner after its turn. -/
def collectedMiner (settings : MonitorSettings) (monitors : Monitors) (round : Round ρ)
    (s : Records ρ) (m : Miner) : Miner :=
  if settings.hwMon = 0 then m
  else controlTemperature settings (tempRead settings monitors round s m.index) m

/-- The readings of a miner after its turn. -/
def collectedHeat (settings : MonitorSettings) (monitors : Monitors) (round : Round ρ)
    (s : Records ρ) (minerIdx : ℕ) : List ℕ :=
  if settings.hwMon = 0 then s.heat minerIdx
  else s.heat minerIdx ++ [tempRead settings monitors round s minerIdx]

/-- The records are the same for every miner but those given, and no type of device changes. -/
structure SameBut (minerIdxs : List ℕ) (s s' : Records ρ) : Prop where
  length : s'.telemetry.length = s.telemetry.length
  hwmon : ∀ i ∉ minerIdxs, s'.hwmon i = s.hwmon i
  heat : ∀ i ∉ minerIdxs, s'.heat i = s.heat i
  telemetry : ∀ i ∉ minerIdxs, s'.telemetry[i]? = s.telemetry[i]?
  deviceType : ∀ i, (s'.hwmon i).deviceType = (s.hwmon i).deviceType

/-- What is read for a miner does not depend on the turns of the others. -/
theorem SameBut.tempRead {minerIdxs : List ℕ} {s s' : Records ρ} (h : SameBut minerIdxs s s')
    {settings : MonitorSettings} {monitors : Monitors} {round : Round ρ} {i : ℕ}
    (hi : i ∉ minerIdxs) :
    tempRead settings monitors round s' i = tempRead settings monitors round s i := by
  unfold Ethcore.tempRead
  rw [h.hwmon i hi]

theorem SameBut.refl (s : Records ρ) : SameBut [] s s :=
  ⟨rfl, fun _ _ => rfl, fun _ _ => rfl, fun _ _ => rfl, fun _ => rfl⟩

theorem SameBut.trans {is js : List ℕ} {s s' s'' : Records ρ} (h : SameBut is s s')
    (h' : SameBut js s' s'') : SameBut (is ++ js) s s'' := by
  have hboth : ∀ i, i ∉ is ++ js → i ∉ is ∧ i ∉ js := by simp
  refine ⟨h'.length.trans h.length, fun i hi => ?_, fun i hi => ?_, fun i hi => ?_,
    fun i => (h'.deviceType i).trans (h.deviceType i)⟩
  · exact (h'.hwmon i (hboth i hi).2).trans (h.hwmon i (hboth i hi).1)
  · exact (h'.heat i (hboth i hi).2).trans (h.heat i (hboth i hi).1)
  · exact (h'.telemetry i (hboth i hi).2).trans (h.telemetry i (hboth i hi).1)

variable [Zero ρ] {s s' : Records ρ} (settings : MonitorSettings) (monitors : Monitors)
  (round : Round ρ)

/-- What a round has written for a miner. -/
structure Collects (s s' : Records ρ) (m : Miner) : Prop where
  heat : s'.heat m.index = collectedHeat settings monitors round s m.index
  rate : (s'.telemetry[m.index]?).map TelemetryAccount.hashrate = some (rateOf round m)

/-- **One turn of the loop.** -/
theorem collectMiner_spec (farmHr : ρ) {m : Miner} (hentry : m.index < s.telemetry.length) :
    ∃ s', collectMiner settings monitors round farmHr s m =
        some (collectedMiner settings monitors round s m, s') ∧
      Collects settings monitors round s s' m ∧ SameBut [m.index] s s' ∧
      s'.hashrate = farmHr := by
  have hother : ∀ i, i ∉ [m.index] → i ≠ m.index := fun i hi heq =>
    hi (List.mem_singleton.mpr heq)
  unfold collectMiner collectedMiner
  rw [if_pos hentry]
  by_cases hmon : settings.hwMon = 0
  · rw [if_neg (not_not.mpr hmon), if_pos hmon]
    refine ⟨_, rfl, ⟨by rw [collectedHeat, if_pos hmon], ?_⟩,
      ⟨List.length_modify .., fun _ _ => rfl, fun _ _ => rfl, fun i hi => ?_, fun _ => rfl⟩, rfl⟩
    · rw [List.getElem?_modify_eq, List.getElem?_eq_getElem hentry]
      rfl
    · exact List.getElem?_modify_ne _ _ (hother i hi).symm
  · rw [if_pos hmon, if_neg hmon]
    refine ⟨_, rfl, ⟨?_, ?_⟩,
      ⟨List.length_set .., fun i hi => ?_, fun i hi => ?_, fun i hi => ?_, fun i => ?_⟩, rfl⟩
    · rw [collectedHeat, if_neg hmon]
      exact Function.update_self ..
    · rw [List.getElem?_set_self hentry]
      rfl
    · exact Function.update_of_ne (hother i hi) ..
    · exact Function.update_of_ne (hother i hi) ..
    · exact List.getElem?_set_ne (hother i hi).symm
    · dsimp only
      by_cases heq : i = m.index
      · rw [heq, Function.update_self, deviceType_sense]
      · rw [Function.update_of_ne heq]

/-- **The loop**: every miner has its turn, and the sum of the rates is stored. -/
theorem collectMiners_spec [Add ρ] (farmHr : ρ) {ms : List Miner}
    (hnodup : (ms.map Miner.index).Nodup) (hentries : ∀ m ∈ ms, m.index < s.telemetry.length) :
    ∃ s', collectMiners settings monitors round farmHr s ms =
        some (ms.map (collectedMiner settings monitors round s), s') ∧
      (∀ m ∈ ms, Collects settings monitors round s s' m) ∧
      SameBut (ms.map Miner.index) s s' ∧
      s'.hashrate = if ms = [] then s.hashrate else
        ms.foldl (fun hr m => hr + rateOf round m) farmHr := by
  induction ms generalizing s farmHr with
  | nil =>
    exact ⟨s, rfl, fun _ hm => absurd hm List.not_mem_nil, .refl s, rfl⟩
  | cons m ms ih =>
    obtain ⟨hm, hnodup⟩ := List.nodup_cons.mp hnodup
    obtain ⟨s₁, hturn, hcollects, hsame, hhr⟩ := collectMiner_spec settings monitors
      round (farmHr + rateOf round m) (hentries m List.mem_cons_self)
    obtain ⟨s₂, hloop, hrest, hsame₂, hhr₂⟩ := ih (s := s₁)
      (farmHr + rateOf round m) hnodup
      (fun m' hm' => hsame.length ▸ hentries m' (List.mem_cons_of_mem _ hm'))
    -- the other miners are as they were before this turn
    have hother : ∀ m' ∈ ms, m'.index ∉ [m.index] := fun m' hm' heq =>
      hm (List.mem_singleton.mp heq ▸ List.mem_map_of_mem hm')
    have hmap : ms.map (collectedMiner settings monitors round s₁) =
        ms.map (collectedMiner settings monitors round s) :=
      List.map_congr_left fun m' hm' => by
        unfold collectedMiner
        rw [hsame.tempRead (hother m' hm')]
    refine ⟨s₂, ?_, fun m' hm' => ?_, hsame.trans hsame₂, ?_⟩
    · rw [collectMiners, hturn]
      show (collectMiners settings monitors round (farmHr + rateOf round m) s₁ ms).bind _ = _
      rw [hloop, hmap]
      rfl
    · rcases List.mem_cons.mp hm' with rfl | hm'
      · exact ⟨(hsame₂.heat _ hm).trans hcollects.heat,
          by rw [hsame₂.telemetry _ hm]; exact hcollects.rate⟩
      · refine ⟨(hrest m' hm').heat.trans ?_, (hrest m' hm').rate⟩
        unfold collectedHeat
        rw [hsame.heat _ (hother m' hm'), hsame.tempRead (hother m' hm')]
    · rw [if_neg (List.cons_ne_nil m ms), List.foldl_cons, hhr₂]
      split_ifs with hnil
      · rw [hnil, hhr]
        rfl
      · rfl

end Loop

theorem index_collectedMiner {ρ : Type} (settings : MonitorSettings) (monitors : Monitors)
    (round : Round ρ) (s : Records ρ) (m : Miner) :
    (collectedMiner settings monitors round s m).index = m.index := by
  unfold collectedMiner
  split_ifs
  · rfl
  · exact index_controlTemperature ..

namespace MonitoredFarm

variable {ρ : Type} [Zero ρ] {lib : EthashLibrary} {settings : MonitorSettings}
  {monitors : Monitors} {w w' : MonitoredFarm ρ}

/-! ## Entries -/

/-- There is an entry for every one that the farm has pushed, and one for every miner. -/
structure Sized (w : MonitoredFarm ρ) : Prop where
  indexed : w.farm.Indexed
  entries : w.records.telemetry.length = w.farm.telemetryMiners.length

/-- **A round comes back**, and this is what it leaves. -/
theorem Sized.collectData [Add ρ] (h : w.Sized) (settings : MonitorSettings)
    (monitors : Monitors) (round : Round ρ) :
    ∃ s', w.collectData settings monitors round = some ⟨{ w.farm with
        miners := w.farm.miners.map (collectedMiner settings monitors round w.records) }, s'⟩ ∧
      (∀ m ∈ w.farm.miners, Collects settings monitors round w.records s' m) ∧
      SameBut (w.farm.miners.map Miner.index) w.records s' ∧
      s'.hashrate = if w.farm.miners = [] then w.records.hashrate else
        w.farm.miners.foldl (fun hr m => hr + rateOf round m) 0 := by
  have hnodup : (w.farm.miners.map Miner.index).Nodup := by
    rw [h.indexed.index_eq]
    exact List.nodup_range
  have hentries : ∀ m ∈ w.farm.miners, m.index < w.records.telemetry.length := fun m hm => by
    rw [h.entries]
    exact h.indexed.index_lt hm
  obtain ⟨s', hloop, hcollects, hsame, hhr⟩ := collectMiners_spec settings monitors round 0
    hnodup hentries
  refine ⟨s', ?_, hcollects, hsame, hhr⟩
  unfold MonitoredFarm.collectData
  rw [hloop]
  rfl

theorem length_withFarm {f : Farm}
    (h : w.records.telemetry.length ≤ f.telemetryMiners.length) :
    (w.withFarm f).records.telemetry.length = f.telemetryMiners.length := by
  unfold withFarm
  rw [List.length_append, List.length_replicate]
  omega

theorem farm_start (w : MonitoredFarm ρ) : w.start.farm = w.farm.start := by
  unfold start
  split_ifs <;> rfl

theorem farm_restart (w : MonitoredFarm ρ) : w.restart.farm = w.farm.restart := by
  unfold restart Farm.restart
  split_ifs
  · exact farm_start _
  · exact farm_start _
  · rfl

/-- The records only watch: the farm does what it does without them. -/
theorem farm_perform (lib : EthashLibrary) (w : MonitoredFarm ρ) (op : Farm.Operation) :
    (w.perform lib op).map farm = w.farm.perform lib op := by
  cases op with
  | start => exact congrArg some (farm_start w)
  | restart => exact congrArg some (farm_restart w)
  | stop | pause | resume => rfl
  | setWork newWp draw =>
    rw [perform, Option.map_map]
    exact Option.map_id'

theorem telemetryMiners_stop (f : Farm) : f.stop.telemetryMiners = f.telemetryMiners := by
  unfold Farm.stop
  split_ifs <;> rfl

theorem length_start (h : w.records.telemetry.length = w.farm.telemetryMiners.length) :
    w.start.records.telemetry.length = w.farm.start.telemetryMiners.length := by
  have hle := h.trans_le (Farm.le_length_start w.farm)
  unfold start
  split_ifs
  · exact length_withFarm (w := w.forget) hle
  · exact length_withFarm hle

theorem Sized.perform (h : w.Sized) {op : Farm.Operation} (hw' : w.perform lib op = some w') :
    w'.Sized := by
  have hfarm : w.farm.perform lib op = some w'.farm := by
    rw [← farm_perform, hw']
    rfl
  refine ⟨h.indexed.perform hfarm, ?_⟩
  have hle := h.entries.trans_le (Farm.le_length_perform hfarm)
  cases op with
  | start =>
    obtain rfl := Option.some.inj hw'
    rw [farm_start]
    exact length_start h.entries
  | restart =>
    obtain rfl := Option.some.inj hw'
    rw [farm_restart]
    unfold restart Farm.restart
    split_ifs
    · refine length_start (w := w.withFarm w.farm.stop) (length_withFarm ?_)
      rw [telemetryMiners_stop]
      exact h.entries.le
    · exact length_start h.entries
    · exact h.entries
  | stop | pause | resume =>
    obtain rfl := Option.some.inj hw'
    exact length_withFarm hle
  | setWork newWp draw =>
    obtain ⟨f, -, rfl⟩ := Option.map_eq_some_iff.mp hw'
    exact length_withFarm hle

theorem Sized.step [Add ρ] (h : w.Sized) {e : Event ρ}
    (hw' : w.step lib settings monitors e = some w') : w'.Sized := by
  cases e with
  | operation op => exact h.perform hw'
  | initDevice minerIdx info =>
    obtain rfl := Option.some.inj hw'
    exact ⟨h.indexed, h.entries⟩
  | collect round =>
    obtain ⟨s', hcollect, -, hsame, -⟩ := h.collectData settings monitors round
    obtain rfl := Option.some.inj (hcollect.symm.trans hw')
    refine ⟨?_, hsame.length.trans h.entries⟩
    obtain ⟨own, hkept⟩ := h.indexed
    have hindex : (w.farm.miners.map (collectedMiner settings monitors round w.records)).map
        Miner.index = w.farm.miners.map Miner.index := by
      rw [List.map_map]
      exact List.map_congr_left fun m _ => index_collectedMiner ..
    exact ⟨own, (hkept.of_index (f := { w.farm with
      miners := w.farm.miners.map (collectedMiner settings monitors round w.records) })
      hindex rfl rfl).1⟩

theorem sized_new (farmSettings : FarmSettings) (devices : List DeviceSubscriptionTypeEnum)
    (minerRestart : Bool) (scrambler : BitVec 64) :
    (new farmSettings devices minerRestart scrambler : MonitoredFarm ρ).Sized :=
  ⟨Farm.indexed_new .., rfl⟩

/-- What a round does to the rates. -/
structure SumsEntries [Add ρ] (round : Round ρ) (w w' : MonitoredFarm ρ) : Prop where
  entries : (w'.records.telemetry.take w.farm.miners.length).map TelemetryAccount.hashrate =
    w.farm.miners.map (rateOf round)
  stale : w'.records.telemetry.drop w.farm.miners.length =
    w.records.telemetry.drop w.farm.miners.length
  total : w.farm.miners ≠ [] → w'.records.hashrate =
    ((w'.records.telemetry.take w.farm.miners.length).map TelemetryAccount.hashrate).foldl
      (· + ·) 0
  unchanged : w.farm.miners = [] → w'.records.hashrate = w.records.hashrate

/-- **A round of `collectData` sums up the entries that it writes.** -/
theorem Sized.sumsEntries [Add ρ] (h : w.Sized) (settings : MonitorSettings)
    (monitors : Monitors) (round : Round ρ) :
    ∃ w', w.collectData settings monitors round = some w' ∧ SumsEntries round w w' := by
  obtain ⟨s', hcollect, hcollects, hsame, hhr⟩ := h.collectData settings monitors round
  have hindex : ∀ k (hk : k < w.farm.miners.length), w.farm.miners[k].index = k := by
    intro k hk
    have hget := congrArg (fun l => l[k]?) h.indexed.index_eq
    rw [List.getElem?_map, List.getElem?_eq_getElem hk, List.getElem?_range hk] at hget
    exact Option.some.inj hget
  have hentries : (s'.telemetry.take w.farm.miners.length).map TelemetryAccount.hashrate =
      w.farm.miners.map (rateOf round) := by
    refine List.ext_getElem? fun k => ?_
    rw [List.getElem?_map, List.getElem?_map, List.getElem?_take]
    split_ifs with hk
    · have hrate := (hcollects _ (List.getElem_mem hk)).rate
      rw [hindex k hk] at hrate
      rw [hrate, List.getElem?_eq_getElem hk]
      rfl
    · rw [List.getElem?_eq_none (Nat.not_lt.mp hk)]
      rfl
  refine ⟨_, hcollect, hentries, ?_, fun hne => ?_, fun hnil => ?_⟩
  · refine List.ext_getElem? fun k => ?_
    rw [List.getElem?_drop, List.getElem?_drop]
    refine hsame.telemetry _ fun hmem => ?_
    rw [h.indexed.index_eq, List.mem_range] at hmem
    omega
  · rw [hentries, List.foldl_map, hhr, if_neg hne]
  · rw [hhr, if_pos hnil]

/-- **The hash rate of the farm is the sum of the entries of its miners.**  In every state that the
farm can reach, a round of `collectData` comes back.  It gives every miner's entry its rate, zero if
the miner is paused, and the farm their sum.  The entries behind them are not touched, and a farm
without miners keeps its last rate. -/
theorem hashrate_sums_entries [Add ρ] (lib : EthashLibrary) (settings : MonitorSettings)
    (monitors : Monitors) (farmSettings : FarmSettings) (devices : List DeviceSubscriptionTypeEnum)
    (minerRestart : Bool) (scrambler : BitVec 64) (es : List (Event ρ)) :
    Along (step lib settings monitors)
      (fun w => ∀ round, ∃ w', w.collectData settings monitors round = some w' ∧
        SumsEntries round w w')
      (new farmSettings devices minerRestart scrambler) es :=
  (along_of_invariant (fun _ _ _ h hw' => h.step hw') es _ (sized_new ..)).mono
    fun _ h round => h.sumsEntries settings monitors round

/-! ## Temperatures -/

/-- Where a miner comes from, in one operation of the farm: it is new, and nothing has been read
for it, or it was there, with the same flag for overheating. -/
inductive Descends (w w' : MonitoredFarm ρ) (m' : Miner) : Prop
  | created (index : ℕ) (hm' : m' = { index := index }) (hheat : ∀ i, w'.records.heat i = [])
  | kept (m : Miner) (hm : m ∈ w.farm.miners) (hindex : m'.index = m.index)
      (hflag : .pauseDueToOverHeating ∈ m'.pauseFlags ↔ .pauseDueToOverHeating ∈ m.pauseFlags)
      (hvoid : m.VoidIfPaused → m'.VoidIfPaused) (hheat : w'.records.heat = w.records.heat)

theorem descends_start {m' : Miner} (hm' : m' ∈ w.start.farm.miners) : Descends w w.start m' := by
  rw [farm_start] at hm'
  by_cases hcreate : w.farm.isMining = false ∧ w.farm.miners = []
  · rcases Farm.mem_start hm' with hold | ⟨index, hnew⟩
    · rw [hcreate.2] at hold
      exact absurd hold List.not_mem_nil
    · refine .created index hnew fun i => ?_
      rw [start, if_pos hcreate]
      rfl
  · have hsame : w.farm.start.miners = w.farm.miners := by
      unfold Farm.start
      split_ifs with hmining hnil
      · rfl
      · exact absurd ⟨Bool.eq_false_iff.mpr hmining, hnil⟩ hcreate
      · rfl
    rw [hsame] at hm'
    refine .kept m' hm' rfl Iff.rfl id ?_
    rw [start, if_neg hcreate]
    rfl

theorem descends_setWork {newWp : WorkPackage} {draw : BitVec 64} {f : Farm}
    (hf : w.farm.setWork lib newWp draw = some f) {m' : Miner} (hm' : m' ∈ f.miners) :
    Descends w (w.withFarm f) m' := by
  obtain ⟨k, hk, rfl⟩ := (Farm.mem_miners_setWork_iff hf m').mp hm'
  have hmem := List.get_mem (w.farm.retrieveEpochContext lib newWp).miners ⟨k, hk⟩
  have hold : ∃ m ∈ w.farm.miners,
      ((w.farm.retrieveEpochContext lib newWp).miners.get ⟨k, hk⟩).index = m.index ∧
      ((w.farm.retrieveEpochContext lib newWp).miners.get ⟨k, hk⟩).pauseFlags = m.pauseFlags := by
    revert hmem
    generalize (w.farm.retrieveEpochContext lib newWp).miners.get ⟨k, hk⟩ = m
    unfold Farm.retrieveEpochContext
    split_ifs
    · intro hmem
      obtain ⟨m₀, hm₀, rfl⟩ := List.mem_map.mp hmem
      exact ⟨m₀, hm₀, rfl, rfl⟩
    · exact fun hmem => ⟨m, hmem, rfl, rfl⟩
  obtain ⟨m, hm, hindex, hflags⟩ := hold
  refine .kept m hm ?_ ?_ (fun _ => Miner.voidIfPaused_setWork _ _) rfl
  · rw [Entries.index_setWork, hindex]
  · rw [Farm.pauseFlags_setWork, hflags]

theorem descends_perform {op : Farm.Operation} (hw' : w.perform lib op = some w') {m' : Miner}
    (hm' : m' ∈ w'.farm.miners) : Descends w w' m' := by
  cases op with
  | start =>
    obtain rfl := Option.some.inj hw'
    exact descends_start hm'
  | restart =>
    obtain rfl := Option.some.inj hw'
    unfold restart at hm' ⊢
    split_ifs at hm' ⊢
    · cases descends_start hm' with
      | created index hnew hheat => exact .created index hnew hheat
      | kept m hm hindex hflag hvoid hheat =>
        exact .kept m (Farm.mem_stop hm) hindex hflag hvoid hheat
    · exact descends_start hm'
    · exact .kept m' hm' rfl Iff.rfl id rfl
  | stop =>
    obtain rfl := Option.some.inj hw'
    exact .kept m' (Farm.mem_stop hm') rfl Iff.rfl id rfl
  | pause =>
    obtain rfl := Option.some.inj hw'
    obtain ⟨m, hm, rfl⟩ := List.mem_map.mp hm'
    refine .kept m hm rfl ?_ (fun _ => m.voidIfPaused_pause _) rfl
    simp [Miner.pause]
  | resume =>
    obtain rfl := Option.some.inj hw'
    obtain ⟨m, hm, rfl⟩ := List.mem_map.mp hm'
    refine .kept m hm rfl ?_ (fun h => h.resume _) rfl
    simp [Miner.resume]
  | setWork newWp draw =>
    obtain ⟨f, hf, rfl⟩ := Option.map_eq_some_iff.mp hw'
    exact descends_setWork hf hm'

/-- The flag of every miner is the latch of its readings, and a paused one has no work. -/
def Thermal (settings : MonitorSettings) (w : MonitoredFarm ρ) : Prop :=
  ∀ m ∈ w.farm.miners, (.pauseDueToOverHeating ∈ m.pauseFlags ↔
    overheated settings (w.records.heat m.index) = true) ∧ m.VoidIfPaused

theorem Thermal.perform (h : w.Thermal settings) {op : Farm.Operation}
    (hw' : w.perform lib op = some w') : w'.Thermal settings := by
  intro m' hm'
  cases descends_perform hw' hm' with
  | created index hnew hheat =>
    subst hnew
    rw [hheat]
    exact ⟨iff_of_false (Finset.notMem_empty _) Bool.false_ne_true,
      fun hflags => absurd rfl hflags⟩
  | kept m hm hindex hflag hvoid hheat =>
    rw [hflag, hheat, hindex]
    exact ⟨(h m hm).1, hvoid (h m hm).2⟩

theorem Thermal.collect [Add ρ] (h : w.Thermal settings) (hsized : w.Sized)
    (hstop : settings.tempStop ≠ 0) {round : Round ρ}
    (hw' : w.collectData settings monitors round = some w') : w'.Thermal settings := by
  obtain ⟨s', hcollect, hcollects, -, -⟩ := hsized.collectData settings monitors round
  obtain rfl := Option.some.inj (hcollect.symm.trans hw')
  intro m' hm'
  obtain ⟨m, hm, rfl⟩ := List.mem_map.mp hm'
  rw [index_collectedMiner, (hcollects m hm).heat]
  unfold collectedMiner collectedHeat
  split_ifs
  · exact h m hm
  · refine ⟨?_, voidIfPaused_controlTemperature _ _ _ (h m hm).2⟩
    have hlatch : decide (.pauseDueToOverHeating ∈ m.pauseFlags) =
        overheated settings (w.records.heat m.index) := by
      rw [Bool.eq_iff_iff, decide_eq_true_iff]
      exact (h m hm).1
    rw [mem_controlTemperature_iff _ _ _ hstop, hlatch, overheated, overheated,
      Latch.after_concat]

theorem Thermal.step [Add ρ] (h : w.Thermal settings) (hsized : w.Sized)
    (hstop : settings.tempStop ≠ 0) {e : Event ρ}
    (hw' : w.step lib settings monitors e = some w') : w'.Thermal settings := by
  cases e with
  | operation op => exact h.perform hw'
  | initDevice minerIdx info =>
    obtain rfl := Option.some.inj hw'
    exact h
  | collect round => exact h.collect hsized hstop hw'

/-- **The thermostat.**  With `tempStart` below `tempStop`, as the command line is required to have
them, a miner carries the flag for overheating exactly if, since it was created, a temperature of
at least `tempStop` was read for it, and every one that was read later was above `tempStart`.  No
other operation of the farm sets or clears the flag, and a miner that carries it has no work. -/
theorem thermostat [Add ρ] (lib : EthashLibrary) (settings : MonitorSettings)
    (hthresholds : settings.tempStart < settings.tempStop) (monitors : Monitors)
    (farmSettings : FarmSettings) (devices : List DeviceSubscriptionTypeEnum)
    (minerRestart : Bool) (scrambler : BitVec 64) (es : List (Event ρ)) :
    Along (step lib settings monitors)
      (fun w => ∀ m ∈ w.farm.miners,
        (.pauseDueToOverHeating ∈ m.pauseFlags ↔
          Latch.Holds (settings.tempStop ≤ ·) (· ≤ settings.tempStart)
            (w.records.heat m.index)) ∧
        (.pauseDueToOverHeating ∈ m.pauseFlags → m.work.header = FixedHash.zero 32))
      (new farmSettings devices minerRestart scrambler) es := by
  have halong : Along (step lib settings monitors) (fun w => w.Sized ∧ w.Thermal settings)
      (new farmSettings devices minerRestart scrambler) es :=
    along_of_invariant
      (fun _ _ _ h hw' => ⟨h.1.step hw', h.2.step h.1 (Nat.ne_zero_of_lt hthresholds) hw'⟩) es _
      ⟨sized_new .., fun _ hm => absurd hm List.not_mem_nil⟩
  refine halong.mono fun w h m hm => ?_
  obtain ⟨hflag, hvoid⟩ := h.2 m hm
  refine ⟨hflag.trans (Latch.after_iff _ _ (fun t hhot hcool => ?_) _), fun hmem => hvoid ?_⟩
  · omega
  · exact Finset.ne_empty_of_mem hmem

/-- A miner with a monitor is at 90 degrees in one round and at 50 in the next. -/
def hotThenWarm : List (Event ℕ) :=
  [.operation .start, .initDevice 0 ⟨.nvidia, "01:00.0".toList, -1⟩,
    .collect ⟨fun _ => 7, fun _ => ⟨90, 0, 0⟩, fun _ => {}⟩,
    .collect ⟨fun _ => 7, fun _ => ⟨50, 0, 0⟩, fun _ => {}⟩]

/-- It stays paused, since it has not come down to 40 degrees. -/
theorem thermostat_hotThenWarm :
    ∃ w, run (step default ⟨1, 40, 80⟩ ⟨some [("01:00.0".toList, 0)], none⟩)
        (new {} [.fpga] true 0) hotThenWarm = some w ∧
      w.records.heat 0 = [90, 50] ∧
      ∀ m ∈ w.farm.miners, (.pauseDueToOverHeating ∈ m.pauseFlags ↔
        Latch.Holds (80 ≤ ·) (· ≤ 40) (w.records.heat m.index)) := by
  have hend : (run (step default ⟨1, 40, 80⟩ ⟨some [("01:00.0".toList, 0)], none⟩)
      (new {} [.fpga] true 0) hotThenWarm).map (fun w => w.records.heat 0) = some [90, 50] := by
    decide +kernel
  obtain ⟨w, hw, hheat⟩ := Option.map_eq_some_iff.mp hend
  have halong := thermostat (ρ := ℕ) default ⟨1, 40, 80⟩ (by decide)
    ⟨some [("01:00.0".toList, 0)], none⟩ {} [.fpga] true 0 hotThenWarm
  exact ⟨w, hw, hheat, fun m hm => (halong.of_run hw m hm).1⟩

/-! ## The miners of this repository -/

/-- What `FPGAMiner::initDevice` sets. -/
def fpgaMonitorInfo (uniqueId : StdString) : HwMonitorInfo where
  deviceType := .unknown
  devicePciId := uniqueId
  deviceIndex := -1

/-- No miner has a monitor. -/
structure Unmonitored (w : MonitoredFarm ρ) : Prop where
  deviceType : ∀ i, (w.records.hwmon i).deviceType = .unknown
  heat : ∀ i, ∀ t ∈ w.records.heat i, t = 0
  flags : ∀ m ∈ w.farm.miners, .pauseDueToOverHeating ∉ m.pauseFlags

theorem start_records (w : MonitoredFarm ρ) :
    w.start.records.hwmon = w.records.hwmon ∧ w.start.records.heat = w.records.heat ∨
      w.start.records.hwmon = (fun _ => {}) ∧ w.start.records.heat = fun _ => [] := by
  unfold start
  split_ifs
  · exact .inr ⟨rfl, rfl⟩
  · exact .inl ⟨rfl, rfl⟩

/-- An operation leaves the monitors and the readings as they are, or forgets them all. -/
theorem perform_records {op : Farm.Operation} (hw' : w.perform lib op = some w') :
    w'.records.hwmon = w.records.hwmon ∧ w'.records.heat = w.records.heat ∨
      w'.records.hwmon = (fun _ => {}) ∧ w'.records.heat = fun _ => [] := by
  cases op with
  | start =>
    obtain rfl := Option.some.inj hw'
    exact start_records w
  | restart =>
    obtain rfl := Option.some.inj hw'
    unfold restart
    split_ifs
    · exact start_records (w.withFarm w.farm.stop)
    · exact start_records w
    · exact .inl ⟨rfl, rfl⟩
  | stop | pause | resume =>
    obtain rfl := Option.some.inj hw'
    exact .inl ⟨rfl, rfl⟩
  | setWork newWp draw =>
    obtain ⟨f, -, rfl⟩ := Option.map_eq_some_iff.mp hw'
    exact .inl ⟨rfl, rfl⟩

theorem Unmonitored.perform (h : w.Unmonitored) {op : Farm.Operation}
    (hw' : w.perform lib op = some w') : w'.Unmonitored := by
  refine ⟨fun i => ?_, fun i t ht => ?_, fun m' hm' => ?_⟩
  · rcases perform_records hw' with ⟨hhwmon, -⟩ | ⟨hhwmon, -⟩
    · rw [hhwmon]
      exact h.deviceType i
    · rw [hhwmon]
  · rcases perform_records hw' with ⟨-, hheat⟩ | ⟨-, hheat⟩
    · rw [hheat] at ht
      exact h.heat i t ht
    · rw [hheat] at ht
      exact absurd ht List.not_mem_nil
  · cases descends_perform hw' hm' with
    | created index hnew =>
      subst hnew
      exact Finset.notMem_empty _
    | kept m hm _ hflag =>
      rw [hflag]
      exact h.flags m hm

theorem Unmonitored.collect [Add ρ] (h : w.Unmonitored) (hsized : w.Sized) {round : Round ρ}
    (hw' : w.collectData settings monitors round = some w') : w'.Unmonitored := by
  obtain ⟨s', hcollect, hcollects, hsame, -⟩ := hsized.collectData settings monitors round
  obtain rfl := Option.some.inj (hcollect.symm.trans hw')
  refine ⟨fun i => (hsame.deviceType i).trans (h.deviceType i), fun i t ht => ?_,
    fun m' hm' => ?_⟩
  · by_cases hi : i ∈ w.farm.miners.map Miner.index
    · obtain ⟨m, hm, rfl⟩ := List.mem_map.mp hi
      rw [(hcollects m hm).heat, collectedHeat, tempRead_eq_zero (h.deviceType _)] at ht
      split_ifs at ht
      · exact h.heat _ t ht
      · rcases List.mem_append.mp ht with hold | hlast
        · exact h.heat _ t hold
        · exact List.mem_singleton.mp hlast
    · rw [hsame.heat i hi] at ht
      exact h.heat i t ht
  · obtain ⟨m, hm, rfl⟩ := List.mem_map.mp hm'
    unfold collectedMiner
    rw [tempRead_eq_zero (h.deviceType _)]
    split_ifs
    · exact h.flags m hm
    · by_cases hstop : settings.tempStop = 0
      · rw [controlTemperature, if_neg (not_not.mpr hstop)]
        exact h.flags m hm
      · rw [mem_controlTemperature_iff _ _ _ hstop, decide_eq_false (h.flags m hm)]
        simpa [Latch.step] using hstop

/-- **No FPGA is ever paused for overheating.**  The miners of this repository set a type of device
for which there is no monitor.  Whatever the thresholds and whatever the monitors would report,
every temperature is read as zero, and no miner gets the flag. -/
theorem fpga_never_overheats [Add ρ] (lib : EthashLibrary) (settings : MonitorSettings)
    (monitors : Monitors) (farmSettings : FarmSettings) (devices : List DeviceSubscriptionTypeEnum)
    (minerRestart : Bool) (scrambler : BitVec 64) (es : List (Event ρ))
    (hes : ∀ minerIdx info, .initDevice minerIdx info ∈ es →
      ∃ uniqueId, info = fpgaMonitorInfo uniqueId) :
    Along (step lib settings monitors)
      (fun w => ∀ m ∈ w.farm.miners, .pauseDueToOverHeating ∉ m.pauseFlags ∧
        ∀ t ∈ w.records.heat m.index, t = 0)
      (new farmSettings devices minerRestart scrambler) es := by
  have halong : Along (step lib settings monitors) (fun w => w.Sized ∧ w.Unmonitored)
      (new farmSettings devices minerRestart scrambler) es := by
    refine along_of_stepsMeet (Q := fun _ e => e ∈ es) (fun w e w' h he hw' => ?_) es _
      ⟨sized_new .., fun _ => rfl, fun _ _ ht => absurd ht List.not_mem_nil,
        fun _ hm => absurd hm List.not_mem_nil⟩ (stepsMeet_of_forall_mem fun e he _ => he)
    refine ⟨h.1.step hw', ?_⟩
    cases e with
    | operation op => exact h.2.perform hw'
    | initDevice minerIdx info =>
      obtain ⟨uniqueId, rfl⟩ := hes minerIdx info he
      obtain rfl := Option.some.inj hw'
      refine ⟨fun i => ?_, h.2.heat, h.2.flags⟩
      show (Function.update w.records.hwmon minerIdx (fpgaMonitorInfo uniqueId) i).deviceType = _
      by_cases hi : i = minerIdx
      · rw [hi, Function.update_self]
        rfl
      · rw [Function.update_of_ne hi]
        exact h.2.deviceType i
    | collect round => exact h.2.collect h.1 hw'
  exact halong.mono fun w h m hm => ⟨h.2.flags m hm, h.2.heat m.index⟩

/-- A round of an FPGA, with monitors that report 90 degrees for every device they know. -/
def hotRound : List (Event ℕ) :=
  [.operation .start, .initDevice 0 (fpgaMonitorInfo "01:00.0".toList),
    .collect ⟨fun _ => 7, fun _ => ⟨90, 0, 0⟩, fun _ => ⟨90, 0, 0⟩⟩]

/-- The temperature is not taken. -/
theorem fpga_never_overheats_hot :
    ∃ w, run (step default ⟨1, 40, 80⟩ ⟨some [("01:00.0".toList, 0)], none⟩)
        (new {} [.fpga] true 0) hotRound = some w ∧
      w.farm.miners.map Miner.index = [0] ∧
      ∀ m ∈ w.farm.miners, .pauseDueToOverHeating ∉ m.pauseFlags := by
  have hend : (run (step default ⟨1, 40, 80⟩ ⟨some [("01:00.0".toList, 0)], none⟩)
      (new {} [.fpga] true 0) hotRound).map (fun w => w.farm.miners.map Miner.index) =
        some [0] := by
    decide +kernel
  obtain ⟨w, hw, hminers⟩ := Option.map_eq_some_iff.mp hend
  have halong := fpga_never_overheats (ρ := ℕ) default ⟨1, 40, 80⟩
    ⟨some [("01:00.0".toList, 0)], none⟩ {} [.fpga] true 0 hotRound
    (fun _ _ hmem => ⟨"01:00.0".toList, by simp_all [hotRound]⟩)
  exact ⟨w, hw, hminers, fun m hm => (halong.of_run hw m hm).1⟩

end MonitoredFarm
end Ethcore
end FpgaEthash
