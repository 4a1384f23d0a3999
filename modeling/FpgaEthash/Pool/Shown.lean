import FpgaEthash.Devcore.ScaledSize
import FpgaEthash.Ethcore.SolutionAccount
import FpgaEthash.Pool.Manager

/-!
# What is shown of rates and difficulties

Two lines of the log have a number with the suffix of its scale in them: the difficulty of
new work (`showMiningAt`) and the hash rate of the farm (`TelemetryType::str`).  The second
has a copy of the loop of `getScaledSize`, because the rates of the single miners are to be
on the scale of the farm's.

Neither number is bounded.  `suffix_in_table_iff` says that the suffix is read from the table
exactly if the number is at most `1000 ^ 4`.  The difficulty of a network is far above.
-/

namespace FpgaEthash
namespace Pool

open Checked Devcore Ethcore Stratum Throwing

/-! ## Telemetry -/

/-- `to_string`. -/
def decimalText (i : ℤ) : StdString := (toString i).toList

/-- `SolutionAccountType::str`. -/
def solutionsText (a : SolutionAccountType) : StdString :=
  let part (letter : StdString) (n : BitVec 32) : StdString :=
    if n = 0 then [] else letter ++ decimalText n.toNat
  'A' :: decimalText a.accepted.toNat ++ part ":W".toList a.wasted ++
    part ":R".toList a.rejected ++ part ":F".toList a.failed

/-- `HwSensorsType`. -/
structure HwSensorsType where
  tempC : ℤ := 0
  fanP : ℤ := 0
  powerW : ℚ := 0

/-- `HwSensorsType::str`. -/
def HwSensorsType.str (fixed : FixedText) (s : HwSensorsType) : StdString :=
  decimalText s.tempC ++ "C ".toList ++ decimalText s.fanP ++ ['%'] ++
    if s.powerW = 0 then [] else ' ' :: fixed 2 s.powerW ++ ['W']

/-- `TelemetryAccountType`. -/
structure TelemetryAccountType where
  prefixText : StdString := []
  hashrate : ℚ := 0
  paused : Bool := false
  sensors : HwSensorsType := {}
  solutions : SolutionAccountType := {}

/-- `TelemetryType`. -/
structure TelemetryType where
  hwmon : Bool := false
  start : TimePoint
  farm : TelemetryAccountType := {}
  miners : List TelemetryAccountType := []

namespace TelemetryType

def ethRed : StdString := "\x1b[91m".toList
def ethGreen : StdString := "\x1b[32m".toList
def ethTeal : StdString := "\x1b[36m".toList
def ethTealBold : StdString := "\x1b[1;36m".toList
def ethWhiteBold : StdString := "\x1b[1;97m".toList
def ethReset : StdString := "\x1b[0m".toList

/-- The time that the batch has run, in hours and minutes. -/
def durationText (duration : ℤ) : StdString :=
  let hours := duration.tdiv (3600 * 10 ^ 9)
  let hoursSize := if 9 < hours then if 99 < hours then 3 else 2 else 1
  let minutes := (duration - hours * (3600 * 10 ^ 9)).tdiv (60 * 10 ^ 9)
  padLeft (decimalText hours) hoursSize ' ' ++ ':' :: padLeft (decimalText minutes) 2 '0'

/-- One miner, its rate on the scale of the farm's. -/
def minerText (fixed : FixedText) (t : TelemetryType) (logPerGpu : Bool) (magnitude : ℕ)
    (miner : TelemetryAccountType) (i : ℕ) : StdString :=
  let hr := if 0 < miner.hashrate then miner.hashrate / 1000 ^ magnitude else miner.hashrate
  (if miner.paused then ethRed else []) ++ miner.prefixText ++ decimalText i ++ ' ' :: ethTeal ++
    fixed 2 hr ++ ethReset ++
    (if t.hwmon then ' ' :: ethTeal ++ miner.sensors.str fixed ++ ethReset else []) ++
    (if logPerGpu then ' ' :: ethTeal ++ solutionsText miner.solutions ++ ethReset else []) ++
    -- separator if not the last miner index
    if i + 1 < t.miners.length then ", ".toList else []

/-- `TelemetryType::str`. -/
def str (fixed : FixedText) (logPerGpu : Bool) (now : TimePoint) (t : TelemetryType) :
    Except Fault StdString := do
  let (hr, magnitude) := scale 1000 3 t.farm.hashrate 0
  let suffix ← load #["h".toList, "Kh".toList, "Mh".toList, "Gh".toList] magnitude
  return ethGreen ++ durationText (now - t.start) ++ ethReset ++ ethWhiteBold ++
    ' ' :: solutionsText t.farm.solutions ++ ethReset ++ ' ' :: ethTealBold ++ fixed 2 hr ++
    ' ' :: suffix ++ ethReset ++ " - ".toList ++
    t.miners.zipIdx.flatMap fun m => t.minerText fixed logPerGpu magnitude m.1 m.2

end TelemetryType

/-! ## The difficulty of new work -/

namespace PoolManager

def ethWhite : StdString := "\x1b[97m".toList

/-- The line that `showMiningAt` writes for a real package. -/
def miningAt (fixed : FixedText) (p : PoolManager) : Except Abort (Except Fault StdString) := do
  let d ← getHashesToTarget (p.currentWp.boundary.hex .add)
  return do
    let hashes ← getFormattedHashes fixed d .add 2
    return "Epoch : ".toList ++ ethWhite ++ decimalText p.currentWp.epoch ++
      TelemetryType.ethReset ++ " Difficulty : ".toList ++ ethWhite ++ hashes ++
      TelemetryType.ethReset

end PoolManager

/-! ## Suffixes -/

/-- The copy of the loop has the bound of a table of four. -/
theorem scale_four_iff (hr : ℚ) : (scale 1000 3 hr 0).2 < 4 ↔ hr ≤ 1000 ^ 4 := by
  rw [Nat.lt_succ_iff, scale_snd_le_iff (by norm_num), and_iff_right (Nat.zero_le _)]

theorem exists_str_iff (fixed : FixedText) (logPerGpu : Bool) (now : TimePoint)
    (t : TelemetryType) :
    (∃ text, t.str fixed logPerGpu now = .ok text) ↔ t.farm.hashrate ≤ 1000 ^ 4 := by
  rw [← scale_four_iff]
  exact (exists_bind_pure_iff (load #["h".toList, "Kh".toList, "Mh".toList, "Gh".toList] _) _).trans
    exists_load_iff

theorem exists_getFormattedHashes_iff (fixed : FixedText) (hr : ℚ) (precision : ℤ) :
    (∃ text, getFormattedHashes fixed hr .add precision = .ok text) ↔ hr ≤ 1000 ^ 4 := by
  have hdivisor : (1 : ℚ) < 1000 := by norm_num
  have hsizes : 0 < #["h".toList, "Kh".toList, "Mh".toList, "Gh".toList].size := by decide
  exact exists_getScaledSize_iff fixed precision hdivisor hsizes hr

/-- **The suffix is read from the table** exactly if the number is at most the divisor to the
power of the size of the table: in `getScaledSize` for every table, in `TelemetryType::str`
for the rate of the farm, and in `showMiningAt` for the difficulty of the work. -/
theorem suffix_in_table_iff (fixed : FixedText) {divisor : ℚ} (hdivisor : 1 < divisor)
    {sizes : Array StdString} (hsizes : 0 < sizes.size) (value : ℚ) (precision : ℤ) :
    (((scale divisor (sizes.size - 1) value 0).2 < sizes.size ↔ value ≤ divisor ^ sizes.size) ∧
        ((∃ text, getScaledSize fixed value divisor precision sizes sizes.size .add = .ok text) ↔
          value ≤ divisor ^ sizes.size)) ∧
      (∀ hr : ℚ, (scale 1000 3 hr 0).2 < 4 ↔ hr ≤ 1000 ^ 4) ∧
      (∀ logPerGpu now (t : TelemetryType),
        (∃ text, t.str fixed logPerGpu now = .ok text) ↔ t.farm.hashrate ≤ 1000 ^ 4) ∧
      ∀ (p : PoolManager) (d : ℕ),
        PoolManager.getHashesToTarget (p.currentWp.boundary.hex .add) = .ok d →
          ((∃ text, p.miningAt fixed = .ok (.ok text)) ↔ d ≤ 1000 ^ 4) := by
  refine ⟨⟨?_, exists_getScaledSize_iff fixed precision hdivisor hsizes value⟩, scale_four_iff,
    exists_str_iff fixed, ?_⟩
  · exact scale_snd_lt_iff hdivisor hsizes value
  · intro p d hd
    have hcast : d ≤ 1000 ^ 4 ↔ (d : ℚ) ≤ 1000 ^ 4 := by exact_mod_cast Iff.rfl
    rw [PoolManager.miningAt, hd, hcast, ← exists_getFormattedHashes_iff fixed d 2,
      ← exists_bind_pure_iff (getFormattedHashes fixed d .add 2)]
    constructor
    · rintro ⟨text, h⟩
      exact ⟨text, Except.ok.inj h⟩
    · rintro ⟨text, h⟩
      exact ⟨text, congrArg Except.ok h⟩

/-- A farm of 31 Mh, and a table of two suffixes. -/
theorem suffix_in_table_megahashes :
    (∃ text, getScaledSize (fun _ _ => []) 1500 1000 2 #["g".toList, "kg".toList] 2 .add =
        .ok text) ∧
      ∃ text, ({ start := 0, farm := { hashrate := 31000000 } } : TelemetryType).str
        (fun _ _ => []) false 0 = .ok text := by
  have hdivisor : (1 : ℚ) < 1000 := by norm_num
  have hsizes : 0 < #["g".toList, "kg".toList].size := by decide
  have hall := suffix_in_table_iff (fun _ _ => []) hdivisor hsizes 1500 2
  exact ⟨hall.1.2.mpr (by norm_num), (hall.2.2.1 false 0 _).mpr (by norm_num)⟩

/-- Work with a boundary of `2 ^ 200`, as in solo mining. -/
def soloManager : PoolManager where
  currentWp := { boundary := Vector.ofFn fun i => if i.val = 6 then 1 else 0 }

/-- Its difficulty is above the last suffix, and a farm of a little more than 1000 Gh is too. -/
theorem suffix_out_of_table :
    PoolManager.getHashesToTarget (soloManager.currentWp.boundary.hex .add) =
        .ok (0xffff * 2 ^ 40) ∧
      soloManager.miningAt (fun _ _ => []) = .ok (.error .outOfBounds) ∧
      (scale 1000 3 1000000061440 0).2 = 4 ∧
      ({ start := 0, farm := { hashrate := 1000000061440 } } : TelemetryType).str
        (fun _ _ => []) false 0 = .error .outOfBounds := by
  decide +kernel

end Pool
end FpgaEthash
