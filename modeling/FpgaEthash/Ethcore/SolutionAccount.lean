import FpgaEthash.Computation.Throwing
import FpgaEthash.Ethcore.WorkPackage
import Mathlib.Data.BitVec

/-!
# Accounting for solutions

`Farm::accountSolution` and the counters of `m_telemetry` that it writes.  The counter of
the farm comes first, and the counter of the miner is behind a bounds check: an index
without an entry leaves the farm one ahead, and an exception in flight.
-/

namespace FpgaEthash
namespace Ethcore

open Devcore Throwing

/-- `SolutionAccountingEnum`. -/
inductive SolutionAccountingEnum where
  | accepted
  | rejected
  | wasted
  | failed
  deriving DecidableEq, Repr

/-- `SolutionAccountType`, without its time stamp. -/
structure SolutionAccountType where
  accepted : BitVec 32 := 0
  rejected : BitVec 32 := 0
  wasted : BitVec 32 := 0
  failed : BitVec 32 := 0
  deriving DecidableEq, Repr

namespace SolutionAccountType

/-- The counter of one kind. -/
def counter (a : SolutionAccountType) : SolutionAccountingEnum → BitVec 32
  | .accepted => a.accepted
  | .rejected => a.rejected
  | .wasted => a.wasted
  | .failed => a.failed

/-- One of the counters, plus one. -/
def count (a : SolutionAccountType) : SolutionAccountingEnum → SolutionAccountType
  | .accepted => { a with accepted := a.accepted + 1 }
  | .rejected => { a with rejected := a.rejected + 1 }
  | .wasted => { a with wasted := a.wasted + 1 }
  | .failed => { a with failed := a.failed + 1 }

theorem counter_count (a : SolutionAccountType) (what kind : SolutionAccountingEnum) :
    (a.count what).counter kind = a.counter kind + if what = kind then 1 else 0 := by
  cases what <;> cases kind <;> simp [count, counter]

theorem counter_default (kind : SolutionAccountingEnum) :
    SolutionAccountType.counter {} kind = 0 := by
  cases kind <;> rfl

end SolutionAccountType

/-- The accounts of `m_telemetry`: the farm's, and one in each entry of `miners`. -/
structure Telemetry where
  farm : SolutionAccountType := {}
  miners : List SolutionAccountType := []
  deriving DecidableEq, Repr

/-- `accountSolution`. -/
def accountSolution (minerIdx : ℕ) (accounting : SolutionAccountingEnum) :
    EStateM StdException Telemetry Unit := do
  modify fun t => { t with farm := t.farm.count accounting }
  let t ← get
  -- m_telemetry.miners.at(_minerIdx)
  if minerIdx < t.miners.length then
    set { t with miners := t.miners.modify minerIdx (·.count accounting) }
  else throw .outOfRange

namespace Telemetry

/-- The sum of a counter over the miners, in the arithmetic of the counters. -/
def sumOf (t : Telemetry) (kind : SolutionAccountingEnum) : BitVec 32 :=
  (t.miners.map (·.counter kind)).sum

/-- The same sum, of the numbers. -/
def natSumOf (t : Telemetry) (kind : SolutionAccountingEnum) : ℕ :=
  (t.miners.map fun a => (a.counter kind).toNat).sum

/-- The two sums agree but for what goes beyond 32 bits. -/
theorem toNat_sumOf (t : Telemetry) (kind : SolutionAccountingEnum) :
    (t.sumOf kind).toNat = t.natSumOf kind % 2 ^ 32 := by
  unfold sumOf natSumOf
  induction t.miners with
  | nil => rfl
  | cons a as ih =>
    simp only [List.map_cons, List.sum_cons, BitVec.toNat_add, ih]
    exact Nat.add_mod_mod ..

/-- The sum with one of the accounts counted on. -/
theorem sum_modify_count (what kind : SolutionAccountingEnum) (as : List SolutionAccountType)
    {i : ℕ} (hi : i < as.length) :
    ((as.modify i (·.count what)).map (·.counter kind)).sum =
      (as.map (·.counter kind)).sum + if what = kind then 1 else 0 := by
  induction as generalizing i with
  | nil => cases hi
  | cons a as ih =>
    cases i with
    | zero =>
      simp only [List.modify_zero_cons, List.map_cons, List.sum_cons,
        SolutionAccountType.counter_count]
      ac_rfl
    | succ i =>
      simp only [List.modify_succ_cons, List.map_cons, List.sum_cons,
        ih (Nat.lt_of_succ_lt_succ hi)]
      ac_rfl

/-- Empty accounts add nothing. -/
theorem sum_append_replicate (kind : SolutionAccountingEnum) (as : List SolutionAccountType)
    (n : ℕ) :
    ((as ++ List.replicate n ({} : SolutionAccountType)).map (·.counter kind)).sum =
      (as.map (·.counter kind)).sum := by
  have hzero : ((List.replicate n ({} : SolutionAccountType)).map (·.counter kind)).sum = 0 := by
    rw [List.map_replicate, SolutionAccountType.counter_default]
    induction n with
    | zero => rfl
    | succ n ih =>
      rw [List.replicate_succ, List.sum_cons, ih]
      rfl
  induction as with
  | nil => exact hzero
  | cons a as ih => simp only [List.cons_append, List.map_cons, List.sum_cons, ih]

/-- **`accountSolution` with an index that has an entry** returns, and counts for the farm
and for the miner. -/
theorem accountSolution_of_lt {t : Telemetry} {minerIdx : ℕ} (accounting : SolutionAccountingEnum)
    (h : minerIdx < t.miners.length) :
    accountSolution minerIdx accounting t = .ok ()
      { farm := t.farm.count accounting
        miners := t.miners.modify minerIdx (·.count accounting) } := by
  show (if minerIdx < t.miners.length then _ else _ : EStateM StdException Telemetry Unit) _ = _
  rw [if_pos h]
  rfl

/-- The farm's counter comes first, whatever the index. -/
theorem farm_accountSolution (t : Telemetry) (minerIdx : ℕ)
    (accounting : SolutionAccountingEnum) :
    (leaves (accountSolution minerIdx accounting) t).farm = t.farm.count accounting := by
  by_cases h : minerIdx < t.miners.length
  · rw [leaves_of_ok (accountSolution_of_lt accounting h)]
  · have hthrows : accountSolution minerIdx accounting t =
        .error .outOfRange { t with farm := t.farm.count accounting } := by
      show (if minerIdx < t.miners.length then _ else _ : EStateM StdException Telemetry Unit) _ = _
      rw [if_neg h]
      rfl
    rw [leaves_of_error hthrows]

end Telemetry
end Ethcore
end FpgaEthash
