import Mathlib.Data.Char
import Mathlib.Data.List.Lex
import FpgaEthash.Computation.OrderedMap
import FpgaEthash.Computation.Throwing
import FpgaEthash.Ethcore.TelemetryEntries

/-!
# From the command line to the miners

`MinerCLI::execute` asks `FPGAMiner::enumDevices` for the devices, subscribes those that
`--fpga-devices` names, or all of them, and gives the collection to the farm.  `Farm::start`
creates a miner for every device that is subscribed, and the miner drives the device that its
descriptor has the ordinal of.

The collection is a `std::map` with keys such as `Xil:0.2`, and the numbers on the command line
are positions in it.  The keys are texts, and so the order is that of texts: behind `Xil:0.1` comes
`Xil:0.10`.

* `miners_of_command_line`: which devices get a miner, for every list of numbers, and when the
  program stops instead.
* `miners_drive_distinct_devices`: every miner finds the device of its descriptor when it starts,
  and no two miners drive the same one.
* `position_eq_ordinal_iff`: the number of a device on the command line is its ordinal for all of
  them exactly if there are at most ten.
-/

namespace FpgaEthash
namespace Ethminer

open Devcore Ethcore Throwing

/-! ## Devices -/

inductive ClPlatformTypeEnum where
  | unknown
  | amd
  | clover
  | nvidia
  | intel
  | xilinx
  deriving DecidableEq, Repr

/-- `DeviceDescriptor`, as far as it is read on the way to a miner. -/
structure DeviceDescriptor where
  uniqueId : StdString := []
  fpgaDetected : Bool := false
  subscriptionType : DeviceSubscriptionTypeEnum := .none
  clPlatformId : ℕ := 0
  clPlatformType : ClPlatformTypeEnum := .unknown
  clDeviceOrdinal : ℕ := 0
  deriving DecidableEq

/-- `m_DevicesCollection`. -/
abbrev Collection := OrderedMap StdString DeviceDescriptor

/-- A platform of OpenCL, and how many accelerators it has. -/
structure Platform where
  name : StdString
  accelerators : ℕ

/-- How the program ends before it mines: `enumDevices` leaves with `EXIT_FAILURE`, or `execute`
throws. -/
inductive Refusal where
  | noPlatform
  | noAccelerator
  | noUsableDevices
  | notDetected
  | alreadySubscribed
  | noneSelected
  deriving DecidableEq, Repr

/-- The key of a device. -/
def uniqueId (platform dIdx : ℕ) : StdString :=
  "Xil:".toList ++ (toString platform).toList ++ ".".toList ++ (toString dIdx).toList

/-- One turn of the loop of `enumDevices`: a descriptor that is there already is filled in. -/
def enumDevice (platform : ℕ) (collection : Collection) (dIdx : ℕ) : Collection :=
  collection.insert (uniqueId platform dIdx)
    { (collection.find? (uniqueId platform dIdx)).getD {} with
      uniqueId := uniqueId platform dIdx
      fpgaDetected := true
      clPlatformId := platform
      clPlatformType := .xilinx
      clDeviceOrdinal := dIdx }

/-- `FPGAMiner::enumDevices`. -/
def enumDevices (platforms : List Platform) (collection : Collection) :
    Except Refusal Collection :=
  match platforms.findIdx? (·.name == "Xilinx".toList) with
  | none => .error .noPlatform
  | some platform =>
    match platforms[platform]?.map Platform.accelerators with
    | some (n + 1) => .ok ((List.range (n + 1)).foldl (enumDevice platform) collection)
    | _ => .error .noAccelerator

/-! ## Subscriptions -/

/-- `subscriptionType = Fpga`. -/
def DeviceDescriptor.subscribe (d : DeviceDescriptor) : DeviceDescriptor :=
  { d with subscriptionType := .fpga }

/-- A number of the command line.  Where there is no such position, it is ignored. -/
def subscribeIndex (collection : Collection) (index : ℕ) : Except Refusal Collection :=
  match collection.values[index]? with
  | none => .ok collection
  | some d =>
    if !d.fpgaDetected then .error .notDetected
    else if d.subscriptionType ≠ .none then .error .alreadySubscribed
    else .ok (collection.mapIdx fun i d => if i = index then d.subscribe else d)

/-- Subscribe all detected devices. -/
def subscribeAll (collection : Collection) : Collection :=
  collection.mapIdx fun _ d =>
    if !d.fpgaDetected || d.subscriptionType != .none then d else d.subscribe

/-- The subscriptions: discrete ones, if there are any, or all. -/
def subscribe (devices : List ℕ) (collection : Collection) : Except Refusal Collection :=
  if devices ≠ [] then devices.foldlM subscribeIndex collection
  else .ok (subscribeAll collection)

/-- The count of the subscribed devices. -/
def subscribedDevices (collection : Collection) : ℕ :=
  (collection.values.filter (·.subscriptionType ≠ .none)).length

/-- `execute`, up to the construction of the farm, with the numbers of `--fpga-devices`. -/
def execute (platforms : List Platform) (devices : List ℕ) : Except Refusal Collection := do
  let collection ← enumDevices platforms .empty
  if collection.entries = [] then .error .noUsableDevices
  else do
    let collection ← subscribe devices collection
    if subscribedDevices collection = 0 then .error .noneSelected else .ok collection

/-- The devices that `Farm::start` creates miners for, in order. -/
def minerDevices (collection : Collection) : List DeviceDescriptor :=
  collection.values.filter (·.subscriptionType = .fpga)

/-- How `initDevice` ends. -/
inductive Init where
  /-- It returns false, and the work loop of the miner ends. -/
  | failed
  /-- `devices[clDeviceOrdinal]` is behind the end of the vector. -/
  | outOfRange
  /-- `m_device` is this accelerator of this platform. -/
  | drives (platform ordinal : ℕ)
  deriving DecidableEq, Repr

/-- `FPGAMiner::initDevice`, in the miner of a device.  Where no platform has the name, the search
stops at the last one. -/
def initDevice (platforms : List Platform) (d : DeviceDescriptor) : Init :=
  let pIdx := platforms.findIdx (·.name == "Xilinx".toList)
  let last := min pIdx (platforms.length - 1)
  match platforms[last]? with
  | none => .failed
  | some platform =>
    if platform.accelerators = 0 then .failed
    else if platform.accelerators ≤ d.clDeviceOrdinal then .outOfRange
    else if d.clPlatformType = .xilinx then .drives last d.clDeviceOrdinal
    else .failed

/-- The farm that the collection is given to. -/
def farm (settings : FarmSettings) (minerRestart : Bool) (scrambler : BitVec 64)
    (collection : Collection) : Farm :=
  Farm.new settings (collection.values.map DeviceDescriptor.subscriptionType) minerRestart scrambler

/-! ## The collection -/

/-- The text of a number determines it. -/
theorem toString_toList_injective {m n : ℕ} (h : (toString m).toList = (toString n).toList) :
    m = n := by
  rw [Nat.toString_eq_repr, Nat.toString_eq_repr, Nat.repr_eq_ofList_toDigits,
    Nat.repr_eq_ofList_toDigits, String.toList_ofList, String.toList_ofList] at h
  have hvalue := congrArg (Nat.ofDigitChars 10 · 0) h
  rwa [Nat.ofDigitChars_toDigits (by decide) (by decide),
    Nat.ofDigitChars_toDigits (by decide) (by decide)] at hvalue

theorem uniqueId_injective (platform : ℕ) : Function.Injective (uniqueId platform) := by
  intro d d' h
  exact toString_toList_injective (List.append_cancel_left h)

section Enumerated

variable (platform : ℕ)

/-- The descriptor of a device that has been found. -/
def device (dIdx : ℕ) : DeviceDescriptor where
  uniqueId := uniqueId platform dIdx
  fpgaDetected := true
  clPlatformId := platform
  clPlatformType := .xilinx
  clDeviceOrdinal := dIdx

/-- The collection of `n` devices. -/
def enumerated (n : ℕ) : Collection := (List.range n).foldl (enumDevice platform) .empty

/-- The ordinals of the devices, in the order of the collection. -/
def order (n : ℕ) : List ℕ := (enumerated platform n).values.map DeviceDescriptor.clDeviceOrdinal

/-- **What `enumDevices` collects**: every device, once. -/
theorem perm_enumerated (n : ℕ) :
    (enumerated platform n).entries.Perm
      ((List.range n).map fun d => (uniqueId platform d, device platform d)) := by
  induction n with
  | zero => exact .refl _
  | succ n ih =>
    have hkey : uniqueId platform n ∉ (enumerated platform n).keys := by
      intro hmem
      have hkeys := ih.map Prod.fst
      rw [List.map_map] at hkeys
      obtain ⟨d, hd, heq⟩ := List.mem_map.mp (hkeys.mem_iff.mp hmem)
      have hlt := List.mem_range.mp hd
      rw [uniqueId_injective platform heq] at hlt
      exact Nat.lt_irrefl n hlt
    have hstep : enumerated platform (n + 1) =
        (enumerated platform n).insert (uniqueId platform n) (device platform n) := by
      unfold enumerated
      rw [List.range_succ, List.foldl_append, List.foldl_cons, List.foldl_nil]
      show enumDevice platform (enumerated platform n) n = _
      rw [enumDevice, OrderedMap.find?_eq_none hkey]
      rfl
    rw [hstep, List.range_succ, List.map_append]
    exact (OrderedMap.perm_insert _ hkey).trans
      ((ih.cons _).trans (List.perm_append_singleton _ _).symm)

/-- The entries follow from the order of the ordinals. -/
theorem entries_enumerated (n : ℕ) :
    (enumerated platform n).entries =
      (order platform n).map fun d => (uniqueId platform d, device platform d) := by
  unfold order OrderedMap.values
  rw [List.map_map, List.map_map]
  refine (List.map_id _).symm.trans (List.map_congr_left fun e he => ?_)
  obtain ⟨d, -, rfl⟩ := List.mem_map.mp ((perm_enumerated platform n).mem_iff.mp he)
  rfl

theorem values_enumerated (n : ℕ) :
    (enumerated platform n).values = (order platform n).map (device platform) := by
  rw [OrderedMap.values, entries_enumerated, List.map_map]
  rfl

/-- The order is a permutation of the ordinals. -/
theorem perm_order (n : ℕ) : (order platform n).Perm (List.range n) := by
  have hordinals := (perm_enumerated platform n).map fun e => e.2.clDeviceOrdinal
  rw [entries_enumerated, List.map_map, List.map_map] at hordinals
  simpa [Function.comp_def, device] using hordinals

@[simp] theorem length_order (n : ℕ) : (order platform n).length = n := by
  rw [(perm_order platform n).length_eq, List.length_range]

end Enumerated

/-! ## Subscribing -/

/-- The collection with the devices at the given positions subscribed. -/
def marked (collection : Collection) (positions : List ℕ) : Collection :=
  collection.mapIdx fun i d => if i ∈ positions then d.subscribe else d

/-- What is at the given positions of a list. -/
def chosen (l positions : List ℕ) : List ℕ :=
  (l.zipIdx.filter fun x => x.2 ∈ positions).map Prod.fst

section Subscribe

variable {platform n : ℕ} {positions : List ℕ}

theorem getElem?_values_marked (i : ℕ) :
    (marked (enumerated platform n) positions).values[i]? =
      ((order platform n)[i]?.map (device platform)).map fun d =>
        if i ∈ positions then d.subscribe else d := by
  rw [marked, OrderedMap.values_mapIdx, List.getElem?_mapIdx, values_enumerated, List.getElem?_map]

/-- A number that is no position is ignored. -/
theorem subscribeIndex_of_le {index : ℕ} (h : n ≤ index) :
    subscribeIndex (marked (enumerated platform n) positions) index =
      .ok (marked (enumerated platform n) positions) := by
  unfold subscribeIndex
  rw [getElem?_values_marked, List.getElem?_eq_none (by rwa [length_order])]
  rfl

/-- A number that was there before is refused. -/
theorem subscribeIndex_of_mem {index : ℕ} (h : index < n) (hmem : index ∈ positions) :
    subscribeIndex (marked (enumerated platform n) positions) index =
      .error .alreadySubscribed := by
  unfold subscribeIndex
  rw [getElem?_values_marked, List.getElem?_eq_getElem (by rwa [length_order])]
  simp [hmem, device, DeviceDescriptor.subscribe]

/-- Any other number is subscribed. -/
theorem subscribeIndex_of_notMem {index : ℕ} (h : index < n) (hmem : index ∉ positions) :
    subscribeIndex (marked (enumerated platform n) positions) index =
      .ok (marked (enumerated platform n) (positions ++ [index])) := by
  have hmarked : (marked (enumerated platform n) positions).mapIdx
      (fun i d => if i = index then d.subscribe else d) =
      marked (enumerated platform n) (positions ++ [index]) := by
    unfold marked
    rw [OrderedMap.mapIdx_mapIdx]
    refine OrderedMap.mapIdx_congr fun i d _ => ?_
    by_cases heq : i = index
    · simp [heq, hmem]
    · simp [heq]
  unfold subscribeIndex
  rw [getElem?_values_marked, List.getElem?_eq_getElem (by rwa [length_order]), hmarked]
  simp [hmem, device]

/-- **The numbers of the command line**, one after the other. -/
theorem foldlM_subscribeIndex (devices : List ℕ) (hnodup : positions.Nodup) :
    devices.foldlM subscribeIndex (marked (enumerated platform n) positions) =
      if (positions ++ devices.filter (· < n)).Nodup then
        .ok (marked (enumerated platform n) (positions ++ devices.filter (· < n)))
      else .error .alreadySubscribed := by
  induction devices generalizing positions with
  | nil =>
    rw [List.filter_nil, List.append_nil, if_pos hnodup]
    rfl
  | cons index devices ih =>
    rw [List.foldlM_cons]
    by_cases hrange : index < n
    · rw [List.filter_cons_of_pos (by simpa using hrange)]
      by_cases hmem : index ∈ positions
      · rw [subscribeIndex_of_mem hrange hmem, if_neg]
        · rfl
        · intro hall
          exact (List.nodup_append.mp hall).2.2 index hmem index List.mem_cons_self rfl
      · have hnext : (positions ++ [index]).Nodup := by
          rw [← List.concat_eq_append, List.nodup_concat]
          exact ⟨hmem, hnodup⟩
        rw [List.append_cons positions index (devices.filter _),
          subscribeIndex_of_notMem hrange hmem]
        exact ih hnext
    · rw [subscribeIndex_of_le (Nat.not_lt.mp hrange),
        List.filter_cons_of_neg (by simpa using hrange)]
      exact ih hnodup

/-- Without numbers all positions are subscribed. -/
theorem subscribeAll_enumerated :
    subscribeAll (enumerated platform n) = marked (enumerated platform n) (List.range n) := by
  refine OrderedMap.mapIdx_congr fun i d hd => ?_
  rw [values_enumerated] at hd
  obtain ⟨o, ho, rfl⟩ := Option.map_eq_some_iff.mp (List.getElem?_map .. ▸ hd)
  have hlt : i < n := by
    obtain ⟨hi, -⟩ := List.getElem?_eq_some_iff.mp ho
    rwa [length_order] at hi
  simp [device, hlt]

/-! ## Miners -/

theorem values_marked :
    (marked (enumerated platform n) positions).values =
      (order platform n).zipIdx.map fun x =>
        if x.2 ∈ positions then (device platform x.1).subscribe else device platform x.1 := by
  refine List.ext_getElem? fun i => ?_
  rw [getElem?_values_marked, List.getElem?_map, List.getElem?_zipIdx, Nat.zero_add,
    Option.map_map, Option.map_map]
  rfl

/-- **What is subscribed** is what is at the subscribed positions. -/
theorem filter_values_marked {p : DeviceDescriptor → Bool}
    (hin : ∀ o, p (device platform o).subscribe = true)
    (hout : ∀ o, p (device platform o) = false) :
    (marked (enumerated platform n) positions).values.filter p =
      (chosen (order platform n) positions).map fun o => (device platform o).subscribe := by
  have hp : ∀ x : ℕ × ℕ, p (if x.2 ∈ positions then (device platform x.1).subscribe
      else device platform x.1) = decide (x.2 ∈ positions) := by
    intro x
    split_ifs with hmem <;> simp [hin, hout, hmem]
  rw [values_marked, List.filter_map, chosen, List.map_map]
  simp only [Function.comp_def, hp]
  refine List.map_congr_left fun x hx => if_pos ?_
  simpa using (List.mem_filter.mp hx).2

theorem minerDevices_marked :
    minerDevices (marked (enumerated platform n) positions) =
      (chosen (order platform n) positions).map fun o => (device platform o).subscribe :=
  filter_values_marked (fun _ => rfl) fun _ => rfl

theorem ordinals_marked :
    (minerDevices (marked (enumerated platform n) positions)).map
      DeviceDescriptor.clDeviceOrdinal = chosen (order platform n) positions := by
  rw [minerDevices_marked, List.map_map]
  exact List.map_id _

theorem subscribedDevices_marked :
    subscribedDevices (marked (enumerated platform n) positions) =
      (chosen (order platform n) positions).length := by
  rw [subscribedDevices, filter_values_marked (fun _ => rfl) fun _ => rfl, List.length_map]

theorem chosen_eq_nil_iff {l : List ℕ} :
    chosen l positions = [] ↔ ∀ i ∈ positions, l.length ≤ i := by
  unfold chosen
  rw [List.map_eq_nil_iff, List.filter_eq_nil_iff]
  constructor
  · intro h i hi
    by_contra hlt
    have hlt := Nat.not_le.mp hlt
    refine h (l[i], i) ?_ (decide_eq_true hi)
    exact List.mem_zipIdx_iff_getElem?.mpr (List.getElem?_eq_getElem hlt)
  · intro h x hx hmem
    have hlt := List.snd_lt_of_mem_zipIdx hx
    exact absurd (h x.2 (of_decide_eq_true hmem)) (Nat.not_le.mpr hlt)

theorem chosen_range {l : List ℕ} (h : l.length = n) : chosen l (List.range n) = l := by
  unfold chosen
  rw [List.filter_eq_self.mpr]
  · exact List.zipIdx_map_fst 0 l
  · intro x hx
    simpa [← h] using List.snd_lt_of_mem_zipIdx hx

theorem chosen_filter {l devices : List ℕ} (h : l.length = n) :
    chosen l (devices.filter (· < n)) = chosen l devices := by
  unfold chosen
  refine congrArg (List.map Prod.fst) (List.filter_congr fun x hx => ?_)
  have hlt := List.snd_lt_of_mem_zipIdx hx
  rw [Nat.add_zero, h] at hlt
  simp [hlt]

theorem chosen_sublist (l positions : List ℕ) : (chosen l positions).Sublist l := by
  have hsub := (List.filter_sublist (p := fun x : ℕ × ℕ => x.2 ∈ positions)
    (l := l.zipIdx)).map Prod.fst
  rwa [List.zipIdx_map_fst] at hsub

end Subscribe

/-! ## The whole way -/

section Execute

variable {platforms : List Platform} {devices : List ℕ} {platform n : ℕ}

/-- The platform is the first one of that name, and it has `n` accelerators. -/
structure Found (platforms : List Platform) (platform n : ℕ) : Prop where
  name : platforms.findIdx? (·.name == "Xilinx".toList) = some platform
  accelerators : platforms[platform]?.map Platform.accelerators = some n
  pos : 0 < n

theorem enumDevices_of_found (h : Found platforms platform n) :
    enumDevices platforms .empty = .ok (enumerated platform n) := by
  obtain ⟨k, rfl⟩ := Nat.exists_eq_add_of_lt h.pos
  have haccelerators := h.accelerators
  rw [Nat.zero_add] at haccelerators ⊢
  unfold enumDevices
  rw [h.name]
  dsimp only
  rw [haccelerators]
  rfl

/-- The positions that `execute` subscribes, where it refuses none of them. -/
def positionsOf (n : ℕ) (devices : List ℕ) : List ℕ :=
  if devices = [] then List.range n else devices.filter (· < n)

theorem subscribe_enumerated :
    subscribe devices (enumerated platform n) =
      if (positionsOf n devices).Nodup then
        .ok (marked (enumerated platform n) (positionsOf n devices))
      else .error .alreadySubscribed := by
  unfold subscribe positionsOf
  by_cases hdevices : devices = []
  · rw [if_neg (not_not.mpr hdevices), if_pos hdevices, if_pos List.nodup_range,
      subscribeAll_enumerated]
  · have hmarked : marked (enumerated platform n) [] = enumerated platform n := by
      refine OrderedMap.ext (List.ext_getElem (by simp [marked, OrderedMap.mapIdx]) ?_)
      intro i hi hi'
      simp [marked, OrderedMap.mapIdx]
    rw [if_pos hdevices, if_neg hdevices, ← hmarked,
      foldlM_subscribeIndex devices List.nodup_nil, hmarked, List.nil_append]

/-- **`execute`**, with the devices that were found. -/
theorem execute_of_found (h : Found platforms platform n) (devices : List ℕ) :
    execute platforms devices =
      if ¬ (positionsOf n devices).Nodup then .error .alreadySubscribed
      else if chosen (order platform n) (positionsOf n devices) = [] then .error .noneSelected
      else .ok (marked (enumerated platform n) (positionsOf n devices)) := by
  have hsome : (enumerated platform n).entries ≠ [] := by
    intro hnil
    have hlength := congrArg List.length (values_enumerated platform n)
    rw [List.length_map, length_order, OrderedMap.values, hnil] at hlength
    exact Nat.ne_of_lt h.pos hlength
  unfold execute
  rw [enumDevices_of_found h]
  show (if (enumerated platform n).entries = [] then _
    else subscribe devices (enumerated platform n) >>= _) = _
  rw [if_neg hsome, subscribe_enumerated]
  by_cases hnodup : (positionsOf n devices).Nodup
  · rw [if_pos hnodup, if_neg (not_not.mpr hnodup)]
    show (if subscribedDevices (marked (enumerated platform n) (positionsOf n devices)) = 0
      then _ else _) = _
    simp only [subscribedDevices_marked, List.length_eq_zero_iff]
  · rw [if_neg hnodup, if_pos hnodup]
    rfl

/-- **Which devices get a miner.**  Without numbers on the command line, all of them, in the order
of the collection.  With numbers, those at these positions, in the same order; numbers that are no
positions are ignored.  The program stops if a position is given twice, or if none is given. -/
theorem miners_of_command_line (h : Found platforms platform n) (devices : List ℕ) :
    (execute platforms devices).map (fun c =>
        (minerDevices c).map DeviceDescriptor.clDeviceOrdinal) =
      if devices = [] then .ok (order platform n)
      else if ¬ (devices.filter (· < n)).Nodup then .error .alreadySubscribed
      else if ∀ i ∈ devices, n ≤ i then .error .noneSelected
      else .ok (chosen (order platform n) devices) := by
  rw [execute_of_found h]
  by_cases hdevices : devices = []
  · have hchosen := chosen_range (length_order platform n)
    have hsome : order platform n ≠ [] := by
      intro hnil
      have hlength := length_order platform n
      rw [hnil] at hlength
      exact Nat.ne_of_lt h.pos hlength
    rw [if_pos hdevices, positionsOf, if_pos hdevices, hchosen, if_neg hsome,
      if_neg (not_not.mpr List.nodup_range)]
    exact congrArg Except.ok (ordinals_marked.trans hchosen)
  · have hchosen : chosen (order platform n) (devices.filter (· < n)) =
        chosen (order platform n) devices := chosen_filter (length_order platform n)
    rw [if_neg hdevices, positionsOf, if_neg hdevices]
    by_cases hnodup : (devices.filter (· < n)).Nodup
    · rw [if_neg (not_not.mpr hnodup), if_neg (not_not.mpr hnodup), hchosen]
      simp only [chosen_eq_nil_iff, length_order]
      split_ifs
      · rfl
      · exact congrArg Except.ok (ordinals_marked.trans hchosen)
    · rw [if_pos hnodup, if_pos hnodup]
      rfl

theorem exists_of_enumDevices {c : Collection} (h : enumDevices platforms .empty = .ok c) :
    ∃ platform n, Found platforms platform n := by
  unfold enumDevices at h
  split at h
  · cases h
  · next platform hplatform =>
      split at h
      · next n hn => exact ⟨platform, n + 1, hplatform, hn, Nat.succ_pos n⟩
      · cases h

theorem length_miners_foldl (types : List DeviceSubscriptionTypeEnum) (f : Farm) :
    (types.foldl Farm.addDevice f).miners.length =
      f.miners.length + (types.filter (· = .fpga)).length := by
  induction types generalizing f with
  | nil => rfl
  | cons d types ih =>
    rw [List.foldl_cons, ih]
    cases d with
    | fpga =>
      simp only [Farm.addDevice, List.length_append, decide_true,
        List.filter_cons_of_pos, List.length_cons, List.length_nil]
      omega
    | none | openCL | cuda | cpu => simp [Farm.addDevice]

/-- `Farm::start` creates a miner for every device of `minerDevices`. -/
theorem miners_start_farm (settings : FarmSettings) (minerRestart : Bool) (scrambler : BitVec 64)
    (c : Collection) :
    (farm settings minerRestart scrambler c).start.miners.map Miner.index =
      List.range (minerDevices c).length := by
  have hperform : (farm settings minerRestart scrambler c).perform default .start =
      some (farm settings minerRestart scrambler c).start := rfl
  have hindexed := (Farm.indexed_new ..).perform hperform
  have hlength : (farm settings minerRestart scrambler c).start.miners.length =
      (minerDevices c).length := by
    show ((c.values.map DeviceDescriptor.subscriptionType).foldl Farm.addDevice _).miners.length = _
    rw [length_miners_foldl, List.filter_map, List.length_map]
    exact Nat.zero_add _
  rw [hindexed.index_eq, hlength]

/-- A device that was found is found again. -/
theorem initDevice_device (h : Found platforms platform n) {o : ℕ} (ho : o < n) :
    initDevice platforms (device platform o).subscribe = .drives platform o := by
  obtain ⟨hlt, -⟩ := List.findIdx?_eq_some_iff_getElem.mp h.name
  have haccelerators := h.accelerators
  have hlast : min (platforms.findIdx (·.name == "Xilinx".toList)) (platforms.length - 1) =
      platform := by
    rw [(List.findIdx?_eq_some_iff_findIdx_eq.mp h.name).2]
    omega
  rw [List.getElem?_eq_getElem hlt, Option.map_some, Option.some.injEq] at haccelerators
  unfold initDevice
  simp only [hlast, List.getElem?_eq_getElem hlt, haccelerators, DeviceDescriptor.subscribe, device]
  rw [if_neg (by omega), if_neg (by omega), if_pos trivial]

/-- **No two miners drive the same device.**  Whatever `execute` is given, if it goes on, then the
farm starts at least one miner.  Each of them finds the accelerator of its descriptor on the
platform, and these are different ones. -/
theorem miners_drive_distinct_devices {c : Collection} (h : execute platforms devices = .ok c)
    (settings : FarmSettings) (minerRestart : Bool) (scrambler : BitVec 64) :
    ∃ platform ordinals,
      platforms.findIdx? (·.name == "Xilinx".toList) = some platform ∧
      (minerDevices c).map (initDevice platforms) = ordinals.map (.drives platform) ∧
      ordinals.Nodup ∧ ordinals ≠ [] ∧
      (farm settings minerRestart scrambler c).start.miners.map Miner.index =
        List.range ordinals.length := by
  obtain ⟨c₀, henum, -⟩ := except_bind_eq_ok.mp h
  obtain ⟨platform, n, hfound⟩ := exists_of_enumDevices henum
  have hexecute := execute_of_found hfound devices
  rw [h] at hexecute
  split_ifs at hexecute with hnodup hnone
  obtain rfl := Except.ok.inj hexecute
  have hsub := chosen_sublist (order platform n) (positionsOf n devices)
  have hperm := perm_order platform n
  refine ⟨platform, chosen (order platform n) (positionsOf n devices), hfound.name, ?_, ?_,
    hnone, ?_⟩
  · rw [minerDevices_marked, List.map_map]
    refine List.map_congr_left fun o ho => initDevice_device hfound ?_
    exact List.mem_range.mp (hperm.mem_iff.mp (hsub.subset ho))
  · exact hsub.nodup (hperm.nodup_iff.mpr List.nodup_range)
  · rw [miners_start_farm, ← ordinals_marked, List.length_map]

end Execute

/-- The devices 2 and 0 of three; there is no device 7. -/
theorem miners_of_command_line_three :
    (execute [⟨"Xilinx".toList, 3⟩] [2, 0, 7]).map (fun c =>
      (minerDevices c).map DeviceDescriptor.clDeviceOrdinal) = .ok [0, 2] := by
  have hfound : Found [⟨"Xilinx".toList, 3⟩] 0 3 := ⟨by decide, rfl, by decide⟩
  exact (miners_of_command_line hfound [2, 0, 7]).trans (by decide)

/-- All of three devices. -/
theorem miners_drive_distinct_devices_three :
    ∃ c ordinals, execute [⟨"Xilinx".toList, 3⟩] [] = .ok c ∧
      (minerDevices c).map (initDevice [⟨"Xilinx".toList, 3⟩]) = ordinals.map (.drives 0) ∧
      ordinals.Nodup ∧ ordinals ≠ [] := by
  have hend : ((execute [⟨"Xilinx".toList, 3⟩] []).toOption).isSome = true := by decide
  obtain ⟨c, hc⟩ := Option.isSome_iff_exists.mp hend
  have hexecute := toOption_eq_some.mp hc
  obtain ⟨platform, ordinals, hplatform, hdrives, hnodup, hsome, -⟩ :=
    miners_drive_distinct_devices hexecute {} true 0
  obtain rfl : platform = 0 := Option.some.inj (hplatform.symm.trans (by decide))
  exact ⟨c, ordinals, hexecute, hdrives, hnodup, hsome⟩

/-! ## Positions and ordinals -/

theorem sorted_order (platform n : ℕ) :
    ((order platform n).map (uniqueId platform)).Pairwise (· < ·) := by
  have hsorted := (enumerated platform n).sorted
  rw [entries_enumerated, List.map_map] at hsorted
  exact hsorted

/-- The texts of two numbers of one digit are in the order of the numbers. -/
theorem uniqueId_lt_of_lt_ten {platform d d' : ℕ} (h : d < d') (h' : d' < 10) :
    uniqueId platform d < uniqueId platform d' := by
  have hdigits : ∀ b < 10, ∀ a < b, (toString a).toList < (toString b).toList := by decide
  exact List.append_left_lt (hdigits d' h' d h)

/-- The text of ten is before that of two. -/
theorem uniqueId_ten_lt (platform : ℕ) : uniqueId platform 10 < uniqueId platform 2 := by
  have htexts : (toString 10).toList < (toString 2).toList := by decide
  exact List.append_left_lt htexts

/-- **The numbers on the command line are the ordinals of the devices** exactly if there are at
most ten of them. -/
theorem position_eq_ordinal_iff (platform n : ℕ) : order platform n = List.range n ↔ n ≤ 10 := by
  constructor
  · intro hrange
    by_contra hn
    have hsorted := sorted_order platform n
    rw [hrange, List.pairwise_map] at hsorted
    have hlt := List.pairwise_iff_getElem.mp hsorted 2 10 (by simp; omega) (by simp; omega)
      (by decide)
    rw [List.getElem_range, List.getElem_range] at hlt
    exact lt_asymm hlt (uniqueId_ten_lt platform)
  · intro hn
    have hsorted : (((List.range n).map fun d => (uniqueId platform d, device platform d)).map
        Prod.fst).Pairwise (· < ·) := by
      rw [List.map_map, List.pairwise_map]
      refine List.pairwise_lt_range.imp_of_mem fun _ hd' hlt => ?_
      exact uniqueId_lt_of_lt_ten hlt (Nat.lt_of_lt_of_le (List.mem_range.mp hd') hn)
    have hentries := OrderedMap.entries_eq_of_perm hsorted (perm_enumerated platform n)
    unfold order OrderedMap.values
    rw [hentries, List.map_map, List.map_map]
    exact List.map_id _

/-- Position 2 of eleven devices is the device with the ordinal 10. -/
example : (order 0 11)[2]? = some 10 := by decide

end Ethminer
end FpgaEthash
