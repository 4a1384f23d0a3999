import FpgaEthash.Ethcore.EpochFollows

/-!
# The telemetry entries of the miners

`Farm::start` pushes an entry to `m_telemetry.miners` with every miner that it creates, and
`collectData` and `accountSolution` find the entry of a miner at its `Index()`.  That index
is the miner's position in `m_miners`.  `stop` clears `m_miners`; nothing clears the
telemetry.  So the entries of a second `start` come behind those of the first, and the
miners go on writing to the old ones.

`Entries` is a farm together with the positions that the entries of its miners were pushed
at.  The positions are a block at the end of the telemetry (`Blocked`), and the block is at
the front exactly if the telemetry was empty when the miners were created.
-/

namespace FpgaEthash
namespace Ethcore

open Devcore Runs

/-- A farm, and for every miner the position of the entry that was pushed with it. -/
structure Entries where
  farm : Farm
  own : List ℕ

namespace Entries

/-! ## The operations -/

/-- One device of the collection, in the loop of `start`. -/
def addDevice (w : Entries) (d : DeviceSubscriptionTypeEnum) : Entries where
  farm := w.farm.addDevice d
  own := if d = .fpga then w.own ++ [w.farm.telemetryMiners.length] else w.own

/-- `start`. -/
def start (w : Entries) : Entries where
  farm := w.farm.start
  own := if w.farm.isMining = false ∧ w.farm.miners = [] then
      (w.farm.devices.foldl addDevice w).own
    else w.own

/-- `stop`. -/
def stop (w : Entries) : Entries where
  farm := w.farm.stop
  own := if w.farm.isMining then [] else w.own

/-- `restart`. -/
def restart (w : Entries) : Entries :=
  if w.farm.minerRestart then (if w.farm.isMining then w.stop else w).start else w

/-- One operation; `none` if it never comes back. -/
def perform (lib : EthashLibrary) (w : Entries) : Farm.Operation → Option Entries
  | .start => some w.start
  | .stop => some w.stop
  | .restart => some w.restart
  | .pause => some { w with farm := w.farm.pause }
  | .resume => some { w with farm := w.farm.resume }
  | .setWork newWp draw => (w.farm.setWork lib newWp draw).map fun f => { w with farm := f }

theorem farm_restart (w : Entries) : w.restart.farm = w.farm.restart := by
  unfold restart Farm.restart
  split_ifs <;> rfl

/-- The positions are only watched: the farm does what it does without them. -/
theorem farm_perform (lib : EthashLibrary) (w : Entries) (op : Farm.Operation) :
    (w.perform lib op).map farm = w.farm.perform lib op := by
  cases op with
  | start | stop | pause | resume => rfl
  | restart => exact congrArg some (farm_restart w)
  | setWork newWp draw =>
    rw [perform, Option.map_map, Farm.perform]
    exact Option.map_id'

/-- There is an entry for every miner and no other, and entry `i` was pushed with the miner
whose `Index()` is `i`. -/
def Matches (w : Entries) : Prop :=
  w.farm.telemetryMiners.length = w.farm.miners.length ∧
    ∀ i < w.farm.telemetryMiners.length, ∃ (k : ℕ) (m : Miner),
      w.farm.miners[k]? = some m ∧ m.index = i ∧ w.own[k]? = some i

/-- The operations that create miners find no entries. -/
def Fresh (w : Entries) : Farm.Operation → Prop
  | .start => w.farm.isMining = false → w.farm.telemetryMiners = []
  | .restart => w.farm.minerRestart = true → w.farm.telemetryMiners = []
  | _ => True

/-! ## The entries are a block -/

/-- The miners have their positions as indices, and their entries are the last ones. -/
structure Blocked (w : Entries) : Prop where
  index : w.farm.miners.map Miner.index = List.range w.farm.miners.length
  le : w.farm.miners.length ≤ w.farm.telemetryMiners.length
  own : w.own = List.range' (w.farm.telemetryMiners.length - w.farm.miners.length)
    w.farm.miners.length

variable {w : Entries}

/-- **A block is in place** exactly if it is all there is. -/
theorem Blocked.matches_iff (h : Blocked w) :
    w.Matches ↔ w.farm.telemetryMiners.length = w.farm.miners.length := by
  refine ⟨fun hm => hm.1, fun heq => ⟨heq, fun i hi => ?_⟩⟩
  rw [heq] at hi
  refine ⟨i, w.farm.miners[i], List.getElem?_eq_getElem hi, ?_, ?_⟩
  · have hget := congrArg (fun l => l[i]?) h.index
    simpa [hi] using hget
  · rw [h.own, heq, Nat.sub_self]
    simp [hi]

theorem blocked_nil (h : w.farm.miners = []) (hown : w.own = []) : Blocked w := by
  refine ⟨?_, ?_, ?_⟩
  · rw [h]
    rfl
  · rw [h]
    exact Nat.zero_le _
  · rw [h, hown]
    rfl

/-- A miner more, and an entry more behind the others. -/
theorem Blocked.addDevice (h : Blocked w) (d : DeviceSubscriptionTypeEnum) :
    Blocked (w.addDevice d) := by
  cases d with
  | fpga =>
    have hle := h.le
    refine ⟨?_, ?_, ?_⟩
    · simp [Entries.addDevice, Farm.addDevice, h.index, List.range_succ]
    · simpa [Entries.addDevice, Farm.addDevice] using hle
    · simp only [Entries.addDevice, Farm.addDevice, if_true, List.length_append,
        List.length_singleton, h.own]
      rw [Nat.add_sub_add_right, List.range'_concat]
      congr 2
      omega
  | none | openCL | cuda | cpu => exact ⟨h.index, h.le, h.own⟩

theorem Blocked.foldl_addDevice (h : Blocked w) (devices : List DeviceSubscriptionTypeEnum) :
    Blocked (devices.foldl Entries.addDevice w) := by
  induction devices generalizing w with
  | nil => exact h
  | cons d devices ih => exact ih (h.addDevice d)

theorem farm_foldl_addDevice (devices : List DeviceSubscriptionTypeEnum) (w : Entries) :
    (devices.foldl addDevice w).farm = devices.foldl Farm.addDevice w.farm := by
  induction devices generalizing w with
  | nil => rfl
  | cons d devices ih => exact ih (w.addDevice d)

/-- Miners and entries come in the same number. -/
theorem length_foldl_addDevice (devices : List DeviceSubscriptionTypeEnum) (f : Farm) :
    (devices.foldl Farm.addDevice f).telemetryMiners.length + f.miners.length =
      f.telemetryMiners.length + (devices.foldl Farm.addDevice f).miners.length := by
  induction devices generalizing f with
  | nil => exact rfl
  | cons d devices ih =>
    have hrest := ih (f.addDevice d)
    cases d with
    | fpga =>
      simp only [Farm.addDevice, List.length_append, List.length_singleton] at hrest
      simp only [List.foldl_cons, Farm.addDevice]
      omega
    | none | openCL | cuda | cpu => exact hrest

/-! ## One operation -/

/-- What every operation keeps: the entries are a block, and a farm that is not mining has
no miners. -/
structure Kept (w : Entries) : Prop where
  blocked : Blocked w
  idle : w.farm.isMining = false → w.farm.miners = []

/-- In every state in which the farm is mining, entries and miners match. -/
def MatchesWhileMining (w : Entries) : Prop := w.farm.isMining = true → w.Matches

/-- The state of the miners plays no part. -/
theorem Blocked.of_index (h : Blocked w) {w' : Entries}
    (hindex : w'.farm.miners.map Miner.index = w.farm.miners.map Miner.index)
    (htelemetry : w'.farm.telemetryMiners = w.farm.telemetryMiners) (hown : w'.own = w.own) :
    Blocked w' := by
  have hlength : w'.farm.miners.length = w.farm.miners.length := by
    have hmap := congrArg List.length hindex
    rwa [List.length_map, List.length_map] at hmap
  refine ⟨?_, ?_, ?_⟩
  · rw [hindex, hlength, h.index]
  · rw [hlength, htelemetry]
    exact h.le
  · rw [hown, hlength, htelemetry, h.own]

theorem start_of_isMining (h : w.farm.isMining = true) : w.start = w := by
  rw [start, Farm.start, if_pos h, if_neg (by simp [h])]

/-- **`start` of a farm that is not mining** creates a block behind what there is. -/
theorem Kept.start (h : Kept w) (hidle : w.farm.isMining = false) :
    Kept w.start ∧ w.start.farm.isMining = true ∧
      (w.start.Matches ↔ w.farm.telemetryMiners = []) := by
  have hnil := h.idle hidle
  have hfarm : w.start.farm = { w.farm.devices.foldl Farm.addDevice w.farm with
      dagLoadInfo := ⟨(w.farm.devices.foldl Farm.addDevice w.farm).settings.dagLoadMode, 0,
        (w.farm.devices.foldl Farm.addDevice w.farm).miners.length⟩
      isMining := true } := by
    rw [Entries.start, Farm.start, if_neg (by simp [hidle]), if_pos hnil]
  have hown : w.start.own = (w.farm.devices.foldl addDevice w).own := if_pos ⟨hidle, hnil⟩
  have hblocked : Blocked w.start := by
    refine (h.blocked.foldl_addDevice w.farm.devices).of_index ?_ ?_ hown
    · rw [hfarm, farm_foldl_addDevice]
    · rw [hfarm, farm_foldl_addDevice]
  have hmining : w.start.farm.isMining = true := by rw [hfarm]
  refine ⟨⟨hblocked, fun hfalse => ?_⟩, hmining, ?_⟩
  · rw [hmining] at hfalse
    cases hfalse
  · have hlength := length_foldl_addDevice w.farm.devices w.farm
    rw [hnil, List.length_nil, Nat.add_zero] at hlength
    rw [hblocked.matches_iff, hfarm]
    dsimp only
    rw [hlength, ← List.length_eq_zero_iff]
    omega

theorem stop_of_isMining (h : w.farm.isMining = true) :
    w.stop = ⟨{ w.farm with miners := [], isMining := false }, []⟩ := by
  rw [stop, Farm.stop, if_pos h, if_pos h]

theorem stop_of_not_isMining (h : w.farm.isMining = false) : w.stop = w := by
  rw [stop, Farm.stop, if_neg (by simp [h]), if_neg (by simp [h])]

theorem Kept.stop (h : Kept w) : Kept w.stop ∧ w.stop.farm.isMining = false ∧
    w.stop.farm.telemetryMiners = w.farm.telemetryMiners := by
  by_cases hmining : w.farm.isMining = true
  · rw [stop_of_isMining hmining]
    exact ⟨⟨blocked_nil rfl rfl, fun _ => rfl⟩, rfl, rfl⟩
  · rw [stop_of_not_isMining (Bool.eq_false_iff.mpr hmining)]
    exact ⟨h, Bool.eq_false_iff.mpr hmining, rfl⟩

/-- **`restart`** is a `start` of a farm that is not mining. -/
theorem Kept.restart (h : Kept w) (hset : w.farm.minerRestart = true) :
    Kept w.restart ∧ w.restart.farm.isMining = true ∧
      (w.restart.Matches ↔ w.farm.telemetryMiners = []) := by
  have hstop : (if w.farm.isMining then w.stop else w) = w.stop := by
    by_cases hmining : w.farm.isMining = true
    · rw [if_pos hmining]
    · rw [if_neg hmining, stop_of_not_isMining (Bool.eq_false_iff.mpr hmining)]
  obtain ⟨hkept, hidle, htelemetry⟩ := h.stop
  rw [Entries.restart, if_pos hset, hstop, ← htelemetry]
  exact hkept.start hidle

theorem index_setWork (m : Miner) (work : WorkPackage) : (m.setWork work).index = m.index := by
  unfold Miner.setWork
  split_ifs <;> rfl

/-- What `setWork` leaves alone. -/
theorem setWork_frame {lib : EthashLibrary} {f g : Farm} {newWp : WorkPackage}
    {draw : BitVec 64} (hs : f.setWork lib newWp draw = some g) :
    g.miners.map Miner.index = f.miners.map Miner.index ∧
      g.telemetryMiners = f.telemetryMiners ∧ g.isMining = f.isMining := by
  have hbegin :
      (f.setWorkBegin lib newWp draw).1.miners.map Miner.index = f.miners.map Miner.index ∧
      (f.setWorkBegin lib newWp draw).1.telemetryMiners = f.telemetryMiners ∧
      (f.setWorkBegin lib newWp draw).1.isMining = f.isMining := by
    unfold Farm.setWorkBegin Farm.retrieveEpochContext Farm.shuffle
    dsimp only
    split_ifs <;> simp [Function.comp_def, Miner.setEpoch]
  rw [Farm.eq_of_setWork_eq_some hs]
  refine ⟨?_, hbegin.2⟩
  rw [← hbegin.1]
  refine List.ext_getElem (by simp [Farm.handedOut]) fun k hk hk' => ?_
  simp only [Farm.handedOut, List.getElem_map, List.getElem_mapIdx, Nat.zero_le, if_true]
  exact index_setWork _ _

/-- An operation that neither creates nor removes miners changes nothing here. -/
theorem Kept.of_index (h : Kept w) {f : Farm}
    (hindex : f.miners.map Miner.index = w.farm.miners.map Miner.index)
    (htelemetry : f.telemetryMiners = w.farm.telemetryMiners)
    (hmining : f.isMining = w.farm.isMining) :
    Kept { w with farm := f } ∧
      (MatchesWhileMining { w with farm := f } ↔ w.MatchesWhileMining) := by
  have hblocked : Blocked { w with farm := f } := h.blocked.of_index hindex htelemetry rfl
  have hlength : f.miners.length = w.farm.miners.length := by
    have hmap := congrArg List.length hindex
    rwa [List.length_map, List.length_map] at hmap
  refine ⟨⟨hblocked, fun hidle => ?_⟩, ?_⟩
  · rw [← List.length_eq_zero_iff, hlength, h.idle (hmining.symm.trans hidle)]
    rfl
  · rw [MatchesWhileMining, MatchesWhileMining, hblocked.matches_iff, h.blocked.matches_iff,
      htelemetry, hlength, hmining]

/-- **The step lemma.**  From a state in which entries and miners match, an operation leads
to such a state exactly if it creates no miners or finds no entries. -/
theorem Kept.perform (h : Kept w) {lib : EthashLibrary} {op : Farm.Operation} {w' : Entries}
    (hw' : w.perform lib op = some w') :
    Kept w' ∧ (w.MatchesWhileMining → (w'.MatchesWhileMining ↔ w.Fresh op)) := by
  cases op with
  | start =>
    obtain rfl := Option.some.inj hw'
    by_cases hmining : w.farm.isMining = true
    · rw [start_of_isMining hmining]
      refine ⟨h, fun hmatches => iff_of_true hmatches fun hidle => ?_⟩
      rw [hmining] at hidle
      cases hidle
    · have hidle := Bool.eq_false_iff.mpr hmining
      obtain ⟨hkept, hstarted, hiff⟩ := h.start hidle
      refine ⟨hkept, fun _ => ?_⟩
      rw [MatchesWhileMining, forall_prop_of_true hstarted, hiff, Fresh,
        forall_prop_of_true hidle]
  | stop =>
    obtain rfl := Option.some.inj hw'
    obtain ⟨hkept, hstopped, -⟩ := h.stop
    refine ⟨hkept, fun _ => iff_of_true (fun hmining => ?_) trivial⟩
    rw [hstopped] at hmining
    cases hmining
  | restart =>
    obtain rfl := Option.some.inj hw'
    by_cases hset : w.farm.minerRestart = true
    · obtain ⟨hkept, hstarted, hiff⟩ := h.restart hset
      refine ⟨hkept, fun _ => ?_⟩
      rw [MatchesWhileMining, forall_prop_of_true hstarted, hiff, Fresh,
        forall_prop_of_true hset]
    · rw [Entries.restart, if_neg hset]
      exact ⟨h, fun hmatches => iff_of_true hmatches fun hrestarts => absurd hrestarts hset⟩
  | pause =>
    obtain rfl := Option.some.inj hw'
    obtain ⟨hkept, hiff⟩ := h.of_index (f := w.farm.pause)
      (by simp [Farm.pause, Function.comp_def, Miner.pause]) rfl rfl
    exact ⟨hkept, fun hmatches => iff_of_true (hiff.mpr hmatches) trivial⟩
  | resume =>
    obtain rfl := Option.some.inj hw'
    obtain ⟨hkept, hiff⟩ := h.of_index (f := w.farm.resume)
      (by simp [Farm.resume, Function.comp_def, Miner.resume]) rfl rfl
    exact ⟨hkept, fun hmatches => iff_of_true (hiff.mpr hmatches) trivial⟩
  | setWork newWp draw =>
    obtain ⟨g, hg, rfl⟩ := Option.map_eq_some_iff.mp hw'
    obtain ⟨hindex, htelemetry, hmining⟩ := setWork_frame hg
    obtain ⟨hkept, hiff⟩ := h.of_index hindex htelemetry hmining
    exact ⟨hkept, fun hmatches => iff_of_true (hiff.mpr hmatches) trivial⟩

/-- A new farm: no miners and no entries. -/
def new (settings : FarmSettings) (devices : List DeviceSubscriptionTypeEnum)
    (minerRestart : Bool) (scrambler : BitVec 64) : Entries :=
  ⟨Farm.new settings devices minerRestart scrambler, []⟩

/-- **Entries and miners.**  For every sequence of operations on a new farm: entries and
miners match in every state in which the farm is mining, exactly when every `start` of a farm
that is not mining, and every `restart`, finds `m_telemetry.miners` empty. -/
theorem matchesWhileMining_iff (lib : EthashLibrary) (settings : FarmSettings)
    (devices : List DeviceSubscriptionTypeEnum) (minerRestart : Bool) (scrambler : BitVec 64)
    (ops : List Farm.Operation) :
    Along (perform lib) MatchesWhileMining (new settings devices minerRestart scrambler) ops ↔
      StepsMeet (perform lib) Fresh (new settings devices minerRestart scrambler) ops := by
  refine along_iff_stepsMeet (I := Kept) (fun w op w' h hw' => (h.perform hw').1)
    (fun w op w' h hmatches hw' => (h.perform hw').2 hmatches) ops _ ?_ fun hmining => ?_
  · exact ⟨blocked_nil rfl rfl, fun _ => rfl⟩
  · cases hmining

/-- One device, started, stopped and started again: two entries for one miner, which has
index 0 and wrote entry 1. -/
theorem entries_after_second_start :
    (run (perform default) (new {} [.fpga] true 0) [.start, .stop, .start]).map
      (fun w => (w.farm.isMining, w.farm.telemetryMiners.length, w.farm.miners.map Miner.index,
        w.own)) = some (true, 2, [0], [1]) := by
  decide +kernel

end Entries

/-! ## Indices

For the farm alone: whatever was stopped and started, the index of a miner is below the
number of entries, and that number never falls. -/

namespace Farm

/-- The entries of the miners are a block, wherever it is. -/
def Indexed (f : Farm) : Prop := ∃ own, Entries.Kept ⟨f, own⟩

theorem indexed_new (settings : FarmSettings) (devices : List DeviceSubscriptionTypeEnum)
    (minerRestart : Bool) (scrambler : BitVec 64) :
    (Farm.new settings devices minerRestart scrambler).Indexed :=
  ⟨[], Entries.blocked_nil rfl rfl, fun _ => rfl⟩

variable {f : Farm}

theorem Indexed.index_lt (h : f.Indexed) {m : Miner} (hm : m ∈ f.miners) :
    m.index < f.telemetryMiners.length := by
  obtain ⟨own, hblocked, -⟩ := h
  have hindex : m.index ∈ List.range f.miners.length :=
    hblocked.index ▸ List.mem_map_of_mem hm
  exact Nat.lt_of_lt_of_le (List.mem_range.mp hindex) hblocked.le

theorem Indexed.index_eq (h : f.Indexed) :
    f.miners.map Miner.index = List.range f.miners.length := by
  obtain ⟨own, hblocked, -⟩ := h
  exact hblocked.index

theorem Indexed.perform (h : f.Indexed) {lib : EthashLibrary} {op : Operation} {g : Farm}
    (hg : f.perform lib op = some g) : g.Indexed := by
  obtain ⟨own, hkept⟩ := h
  rw [← Entries.farm_perform lib ⟨f, own⟩ op] at hg
  obtain ⟨w, hw, rfl⟩ := Option.map_eq_some_iff.mp hg
  exact ⟨w.own, (hkept.perform hw).1⟩

theorem Indexed.shuffle (h : f.Indexed) (draw : BitVec 64) : (f.shuffle draw).Indexed := by
  obtain ⟨own, hkept⟩ := h
  exact ⟨own, hkept.of_index (f := f.shuffle draw) rfl rfl rfl |>.1⟩

theorem le_length_foldl_addDevice (devices : List DeviceSubscriptionTypeEnum) (f : Farm) :
    f.telemetryMiners.length ≤ (devices.foldl addDevice f).telemetryMiners.length := by
  induction devices generalizing f with
  | nil => exact Nat.le_refl _
  | cons d devices ih =>
    refine Nat.le_trans ?_ (ih (f.addDevice d))
    cases d with
    | fpga => simp [addDevice]
    | none | openCL | cuda | cpu => exact Nat.le_refl _

theorem le_length_start (f : Farm) :
    f.telemetryMiners.length ≤ f.start.telemetryMiners.length := by
  unfold start
  split_ifs
  · exact Nat.le_refl _
  · exact le_length_foldl_addDevice f.devices f
  · exact Nat.le_refl _

/-- **No operation removes an entry.** -/
theorem le_length_perform {lib : EthashLibrary} {op : Operation} {g : Farm}
    (hg : f.perform lib op = some g) :
    f.telemetryMiners.length ≤ g.telemetryMiners.length := by
  have hstop : f.stop.telemetryMiners = f.telemetryMiners := by
    unfold stop
    split_ifs <;> rfl
  cases op with
  | start =>
    obtain rfl := Option.some.inj hg
    exact le_length_start f
  | stop =>
    obtain rfl := Option.some.inj hg
    rw [hstop]
  | restart =>
    obtain rfl := Option.some.inj hg
    unfold restart
    split_ifs
    · rw [← hstop]
      exact le_length_start f.stop
    · exact le_length_start f
    · exact Nat.le_refl _
  | pause | resume =>
    obtain rfl := Option.some.inj hg
    exact Nat.le_refl _
  | setWork newWp draw => rw [(Entries.setWork_frame hg).2.1]

end Farm
end Ethcore
end FpgaEthash
