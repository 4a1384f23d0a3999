import FpgaEthash.Devcore.HashOrder
import FpgaEthash.Ethcore.SolutionAccount

/-!
# What becomes of a solution

`Farm::submitProofAsync` evaluates a solution again, over any function in the place of
`EthashAux::eval`, and passes it on if the result is not above the boundary.  The test is
an `operator>` on hashes; by `Devcore.HashOrder` it is the order of the integers that the
hashes stand for.
-/

namespace FpgaEthash
namespace Ethcore

open Devcore

/-- `Result`. -/
structure Result where
  value : H256
  mixHash : H256
  deriving DecidableEq

/-- What `submitProofAsync` does with a solution: a call of `accountSolution`, or a call of
`m_onSolutionFound`. -/
inductive ProofOutcome where
  | accounted (minerIdx : ℕ) (accounting : SolutionAccountingEnum)
  | found (s : Solution)
  deriving DecidableEq

/-- `submitProofAsync`, with `m_Settings.noEval`. -/
def submitProofAsync (noEval : Bool) (eval : ℤ → H256 → BitVec 64 → Result) (s : Solution) :
    ProofOutcome :=
  if !noEval then
    let r := eval s.work.epoch s.work.header s.nonce
    if r.value.gt s.work.boundary then .accounted s.midx .failed
    else .found { s with mixHash := r.mixHash }
  else .found s

/-- The evaluation finds a result above the boundary. -/
def Misses (noEval : Bool) (eval : ℤ → H256 → BitVec 64 → Result) (s : Solution) : Prop :=
  noEval = false ∧ (eval s.work.epoch s.work.header s.nonce).value.gt s.work.boundary = true

instance (noEval : Bool) (eval : ℤ → H256 → BitVec 64 → Result) (s : Solution) :
    Decidable (Misses noEval eval s) := inferInstanceAs (Decidable (_ ∧ _))

/-- **What becomes of a solution**: it has failed, or it is passed on with a mix hash. -/
theorem submitProofAsync_cases (noEval : Bool) (eval : ℤ → H256 → BitVec 64 → Result)
    (s : Solution) :
    (Misses noEval eval s ∧ submitProofAsync noEval eval s = .accounted s.midx .failed) ∨
      (¬ Misses noEval eval s ∧
        ∃ mixHash, submitProofAsync noEval eval s = .found { s with mixHash }) := by
  unfold Misses submitProofAsync
  cases noEval with
  | true => exact .inr ⟨by simp, s.mixHash, rfl⟩
  | false =>
    dsimp only
    rw [if_pos (by decide)]
    split_ifs with habove
    · exact .inl ⟨⟨rfl, habove⟩, rfl⟩
    · exact .inr ⟨fun hmiss => habove hmiss.2, _, rfl⟩

theorem exists_submitProofAsync_found_iff (eval : ℤ → H256 → BitVec 64 → Result)
    (s : Solution) :
    (∃ found, submitProofAsync false eval s = .found found) ↔
      (eval s.work.epoch s.work.header s.nonce).value.toArith.toNat ≤
        s.work.boundary.toArith.toNat := by
  rw [← not_lt, ← FixedHash.gt_iff, submitProofAsync, if_pos (Bool.not_false)]
  dsimp only
  by_cases habove : (eval s.work.epoch s.work.header s.nonce).value.gt s.work.boundary
  · rw [if_pos habove]
    simp [habove]
  · rw [if_neg habove]
    simp [habove]

/-- **Hashes are integers.**  For every `N`, a hash and its `Arith` are converted into each
other without loss, all four comparisons are those of the integers, and `++` adds one
modulo `256 ^ N`.  So `submitProofAsync`, when it evaluates, passes on exactly the
solutions whose final hash is at most the boundary. -/
theorem fixedHash_arith_correspondence :
    (∀ N : ℕ,
      (∀ h data : FixedHash N, FixedHash.ofArith h.toArith data = h) ∧
      (∀ (val : FixedHash.Arith N) (data : FixedHash N),
        (FixedHash.ofArith val data).toArith = val) ∧
      (∀ h g : FixedHash N,
        (h.lt g ↔ h.toArith.toNat < g.toArith.toNat) ∧
        (h.le g ↔ h.toArith.toNat ≤ g.toArith.toNat) ∧
        (h.gt g ↔ g.toArith.toNat < h.toArith.toNat) ∧
        (h.ge g ↔ g.toArith.toNat ≤ h.toArith.toNat)) ∧
      ∀ h : FixedHash N, h.increment.toArith.toNat = (h.toArith.toNat + 1) % 256 ^ N) ∧
    ∀ (eval : ℤ → H256 → BitVec 64 → Result) (s : Solution),
      (∃ found, submitProofAsync false eval s = .found found) ↔
        (eval s.work.epoch s.work.header s.nonce).value.toArith.toNat ≤
          s.work.boundary.toArith.toNat :=
  ⟨fun _ => ⟨FixedHash.ofArith_toArith, FixedHash.toArith_ofArith,
    fun h g => ⟨FixedHash.lt_iff h g, FixedHash.le_iff h g, FixedHash.gt_iff h g,
      FixedHash.ge_iff h g⟩, FixedHash.toNat_toArith_increment⟩,
    exists_submitProofAsync_found_iff⟩

end Ethcore
end FpgaEthash
