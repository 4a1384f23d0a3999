import FpgaEthash.Computation.Checked
import FpgaEthash.Computation.Throwing
import FpgaEthash.Devcore.StdString
import Mathlib.Algebra.Order.Field.Rat
import Mathlib.Tactic.FieldSimp

/-!
# Numbers with the suffix of their scale

`getScaledSize` divides a number by 1000, or 1024, as long as it is larger than that, and
then writes it with the suffix of the scale it has come to.  Its loop tests the index of the
suffix before it counts it up, so that the last turn can leave it one behind the table.
`scale_snd_le_iff` says when: for a number above the divisor to the power of the size of the
table.  The table is then read out of its bounds, unless the caller wants no suffix
(`exists_getScaledSize_iff`).

Numbers are exact here, and their texts are those of a stream with `fixed` set.
-/

namespace FpgaEthash
namespace Devcore

open Checked Throwing

/-! ## The loop -/

/-- The loop `while (newvalue > divisor && i <= last)`, with the number and the index that it
ends with. -/
def scale (divisor : ℚ) (last : ℕ) (newvalue : ℚ) (i : ℕ) : ℚ × ℕ :=
  if newvalue > divisor ∧ i ≤ last then scale divisor last (newvalue / divisor) (i + 1)
  else (newvalue, i)
termination_by last + 1 - i

section Loop

variable {divisor : ℚ}

/-- **The index stays in the table** exactly if the number is within the largest scale. -/
theorem scale_snd_le_iff (hdivisor : 1 < divisor) (last : ℕ) (newvalue : ℚ) (i : ℕ) :
    (scale divisor last newvalue i).2 ≤ last ↔
      i ≤ last ∧ newvalue ≤ divisor ^ (last + 1 - i) := by
  have hpos : 0 < divisor := zero_lt_one.trans hdivisor
  fun_induction scale divisor last newvalue i with
  | case1 newvalue i hturn ih =>
    -- one turn: the number and the power are divided together
    have hexp : last + 1 - (i + 1) + 1 = last + 1 - i := by omega
    refine ih.trans ?_
    rw [div_le_iff₀ hpos, ← pow_succ, hexp]
    refine ⟨fun h => ⟨hturn.2, h.2⟩, fun h => ⟨?_, h.2⟩⟩
    by_contra hlast
    have hone : last + 1 - i = 1 := by omega
    rw [hone, pow_one] at h
    exact absurd hturn.1 (not_lt.mpr h.2)
  | case2 newvalue i hstop =>
    refine ⟨fun h => ⟨h, ?_⟩, fun h => h.1⟩
    have hsmall : newvalue ≤ divisor := not_lt.mp fun hlt => hstop ⟨hlt, h⟩
    exact hsmall.trans (le_self_pow₀ hdivisor.le (by omega))

/-- The same, for a table that has as many entries as the loop is told. -/
theorem scale_snd_lt_iff (hdivisor : 1 < divisor) {numsizes : ℕ} (hnumsizes : 0 < numsizes)
    (value : ℚ) :
    (scale divisor (numsizes - 1) value 0).2 < numsizes ↔ value ≤ divisor ^ numsizes := by
  have hlast : numsizes - 1 + 1 = numsizes := by omega
  have hindex := scale_snd_le_iff hdivisor (numsizes - 1) value 0
  rw [Nat.sub_zero, hlast, and_iff_right (Nat.zero_le _)] at hindex
  rw [← hindex]
  omega

/-- The number that is left is the given one, on the scale of the index. -/
theorem exists_scale_eq (divisor : ℚ) (last : ℕ) (newvalue : ℚ) (i : ℕ) :
    ∃ k, scale divisor last newvalue i = (newvalue / divisor ^ k, i + k) := by
  fun_induction scale divisor last newvalue i with
  | case1 newvalue i _ ih =>
    obtain ⟨k, hk⟩ := ih
    refine ⟨k + 1, ?_⟩
    rw [hk, div_div, ← pow_succ', Nat.add_assoc, Nat.add_comm 1 k]
  | case2 newvalue i _ => exact ⟨0, by rw [pow_zero, div_one, Nat.add_zero]⟩

end Loop

/-! ## The text -/

/-- `ScaleSuffix`. -/
inductive ScaleSuffix where
  | dontAdd
  | add
  deriving DecidableEq, Repr

/-- What a stream with `fixed` and this precision writes for a number. -/
abbrev FixedText := ℤ → ℚ → StdString

/-- `getScaledSize`.  The tables are not empty, so that `_numsizes - 1` does not wrap. -/
def getScaledSize (fixed : FixedText) (value divisor : ℚ) (precision : ℤ)
    (sizes : Array StdString) (numsizes : ℕ) (suffix : ScaleSuffix) :
    Except Fault StdString := do
  let (newvalue, i) := scale divisor (numsizes - 1) value 0
  let ret := fixed precision newvalue
  if suffix = .add then
    let size ← load sizes i
    return ret ++ ' ' :: size
  else return ret

/-- `getFormattedHashes`. -/
def getFormattedHashes (fixed : FixedText) (hr : ℚ) (suffix : ScaleSuffix) (precision : ℤ) :
    Except Fault StdString :=
  getScaledSize fixed hr 1000 precision #["h".toList, "Kh".toList, "Mh".toList, "Gh".toList] 4
    suffix

section Text

variable (fixed : FixedText) {divisor : ℚ} (precision : ℤ) {sizes : Array StdString}

/-- A number within the largest scale is written with the suffix of its own. -/
theorem getScaledSize_of_le (hdivisor : 1 < divisor) (hsizes : 0 < sizes.size) {value : ℚ}
    (hvalue : value ≤ divisor ^ sizes.size) :
    ∃ (k : ℕ) (hk : k < sizes.size),
      getScaledSize fixed value divisor precision sizes sizes.size .add =
        .ok (fixed precision (value / divisor ^ k) ++ ' ' :: sizes[k]) := by
  obtain ⟨k, hscale⟩ := exists_scale_eq divisor (sizes.size - 1) value 0
  have hk := (scale_snd_lt_iff hdivisor hsizes value).mpr hvalue
  rw [hscale, Nat.zero_add] at hk
  refine ⟨k, hk, ?_⟩
  rw [getScaledSize, hscale, Nat.zero_add]
  show (load sizes k >>= fun _ => _) = _
  rw [load_of_lt hk]
  rfl

/-- **A text with a suffix** comes back exactly if the number is within the largest scale. -/
theorem exists_getScaledSize_iff (hdivisor : 1 < divisor) (hsizes : 0 < sizes.size) (value : ℚ) :
    (∃ text, getScaledSize fixed value divisor precision sizes sizes.size .add = .ok text) ↔
      value ≤ divisor ^ sizes.size := by
  constructor
  · rintro ⟨text, h⟩
    obtain ⟨size, hload, -⟩ := except_bind_eq_ok.mp (show (load sizes _ >>= fun _ => _) = _ from h)
    exact (scale_snd_lt_iff hdivisor hsizes value).mp (exists_load_iff.mp ⟨size, hload⟩)
  · intro hvalue
    obtain ⟨k, hk, htext⟩ := getScaledSize_of_le fixed precision hdivisor hsizes hvalue
    exact ⟨_, htext⟩

end Text

end Devcore
end FpgaEthash
