import Mathlib.Data.BitVec
import Mathlib.Tactic.Ring

/-!
# Loops that need not end

One turn of a loop comes to a result or to the state of the next turn.  `run` takes turns as
long as its fuel lasts, and `Returns` says that some fuel is enough.  A result does not depend
on the fuel (`Returns.unique`), so a loop that returns has one result.

A loop returns if its states are known up to a turn with a result (`returns_along`).  It does
not if each of its states has a next one (`not_returns`).

A counter that is compared with `!=` always gets to its bound, if need be all around: `countTo`
lists the values on the way, and `foldlM_countTo` is the rule for such loops.
-/

namespace FpgaEthash
namespace Loops

universe u v

variable {σ : Type u} {ρ : Type v}

/-- The loop, with fuel for a number of turns. -/
def run (turn : σ → ρ ⊕ σ) : ℕ → σ → Option ρ
  | 0, _ => none
  | fuel + 1, s =>
    match turn s with
    | .inl r => some r
    | .inr s' => run turn fuel s'

/-- The loop comes back from `s`, with `r`. -/
def Returns (turn : σ → ρ ⊕ σ) (s : σ) (r : ρ) : Prop := ∃ fuel, run turn fuel s = some r

variable {turn : σ → ρ ⊕ σ} {s s' : σ} {r r' : ρ}

theorem run_of_inl (h : turn s = .inl r) (fuel : ℕ) : run turn (fuel + 1) s = some r := by
  rw [run, h]

theorem run_of_inr (h : turn s = .inr s') (fuel : ℕ) :
    run turn (fuel + 1) s = run turn fuel s' := by
  rw [run, h]

theorem returns_of_inl (h : turn s = .inl r) : Returns turn s r := ⟨1, run_of_inl h 0⟩

/-- One turn more. -/
theorem Returns.of_inr (h : turn s = .inr s') (hr : Returns turn s' r) : Returns turn s r := by
  obtain ⟨fuel, hfuel⟩ := hr
  exact ⟨fuel + 1, by rw [run_of_inr h, hfuel]⟩

/-- More fuel does not change a result. -/
theorem run_of_le {fuel fuel' : ℕ} (hle : fuel ≤ fuel') (h : run turn fuel s = some r) :
    run turn fuel' s = some r := by
  induction fuel generalizing fuel' s with
  | zero => exact nomatch h
  | succ fuel ih =>
    obtain ⟨more, rfl⟩ : ∃ more, fuel' = more + 1 := ⟨fuel' - 1, by omega⟩
    cases hs : turn s with
    | inl r₁ => rwa [run_of_inl hs] at h ⊢
    | inr s₁ =>
      rw [run_of_inr hs] at h ⊢
      exact ih (by omega) h

theorem Returns.unique (h : Returns turn s r) (h' : Returns turn s r') : r = r' := by
  obtain ⟨fuel, hfuel⟩ := h
  obtain ⟨fuel', hfuel'⟩ := h'
  have hmax := run_of_le (Nat.le_max_left fuel fuel') hfuel
  rw [run_of_le (Nat.le_max_right fuel fuel') hfuel'] at hmax
  exact (Option.some.inj hmax).symm

/-- **A loop whose states are known** up to a turn with a result returns it. -/
theorem returns_along (f : ℕ → σ) {k : ℕ} (hnext : ∀ j < k, turn (f j) = .inr (f (j + 1)))
    (hlast : turn (f k) = .inl r) : Returns turn (f 0) r := by
  induction k generalizing f with
  | zero => exact returns_of_inl hlast
  | succ k ih =>
    have htail : Returns turn (f 1) r :=
      ih (fun j => f (j + 1)) (fun j hj => hnext (j + 1) (by omega)) hlast
    exact htail.of_inr (hnext 0 (by omega))

/-- **A loop that never comes to a result**, since each of its states has a next one. -/
theorem not_returns {I : σ → Prop} (hnext : ∀ s, I s → ∃ s', turn s = .inr s' ∧ I s')
    (hs : I s) (r : ρ) : ¬ Returns turn s r := by
  rintro ⟨fuel, hfuel⟩
  induction fuel generalizing s with
  | zero => exact nomatch hfuel
  | succ fuel ih =>
    obtain ⟨s', hs', hI⟩ := hnext s hs
    rw [run_of_inr hs'] at hfuel
    exact ih hI hfuel

/-! ## Counters -/

variable {w : ℕ} {ε : Type*}

/-- The values of `i` in the loop `for (i = a; i != b; ++i)`. -/
def countTo (a b : BitVec w) : List (BitVec w) :=
  (List.range (b - a).toNat).map fun k => a + BitVec.ofNat w k

theorem toNat_eq_pred_succ {d : BitVec w} (h : d ≠ 0) : d.toNat = (d - 1).toNat + 1 := by
  have hpos : 0 < d.toNat := Nat.pos_of_ne_zero fun h0 => h (BitVec.toNat_inj.mp h0)
  have hone : (1 : BitVec w).toNat = 1 := Nat.mod_eq_of_lt (Nat.lt_of_le_of_lt hpos d.isLt)
  rw [BitVec.toNat_sub_of_le (by rw [BitVec.le_def, hone]; exact hpos), hone]
  omega

/-- **The loop with `!=`**: no turn at the bound, and one turn more before it. -/
theorem countTo_eq (a b : BitVec w) :
    countTo a b = if a = b then [] else a :: countTo (a + 1) b := by
  by_cases hab : a = b
  · rw [if_pos hab, countTo, hab, BitVec.sub_self]
    rfl
  · have hne : b - a ≠ 0 := fun h => hab (sub_eq_zero.mp h).symm
    have hnext : b - a - 1 = b - (a + 1) := by ring
    rw [if_neg hab, countTo, toNat_eq_pred_succ hne, hnext, List.range_succ_eq_map, List.map_cons,
      List.map_map, countTo]
    congr 1
    · exact BitVec.add_zero a
    · refine List.map_congr_left fun k _ => ?_
      show a + BitVec.ofNat w (k + 1) = a + 1 + BitVec.ofNat w k
      rw [BitVec.ofNat_add, BitVec.add_assoc, BitVec.add_comm (BitVec.ofNat w k)]
      rfl

/-- **A counting loop whose states are known**: `state k` when the counter is `k`. -/
theorem foldlM_countTo {f : σ → BitVec w → Except ε σ} (state : ℕ → σ) {a n : ℕ} (han : a ≤ n)
    (hn : n < 2 ^ w)
    (hf : ∀ k, a ≤ k → k < n → f (state k) (BitVec.ofNat w k) = .ok (state (k + 1))) :
    (countTo (BitVec.ofNat w a) (BitVec.ofNat w n)).foldlM f (state a) = .ok (state n) := by
  -- By induction on the number of turns that are left.
  obtain ⟨d, rfl⟩ := Nat.exists_eq_add_of_le han
  induction d generalizing a with
  | zero =>
    rw [Nat.add_zero, countTo_eq, if_pos rfl]
    rfl
  | succ d ih =>
    have hne : BitVec.ofNat w a ≠ BitVec.ofNat w (a + (d + 1)) := fun h => by
      have hnat := congrArg BitVec.toNat h
      rw [BitVec.toNat_ofNat, BitVec.toNat_ofNat, Nat.mod_eq_of_lt (by omega),
        Nat.mod_eq_of_lt hn] at hnat
      omega
    have hsucc : BitVec.ofNat w a + 1 = BitVec.ofNat w (a + 1) := (BitVec.ofNat_add a 1).symm
    have hrest : a + (d + 1) = a + 1 + d := by omega
    rw [countTo_eq, if_neg hne, List.foldlM_cons, hf a le_rfl (by omega), hsucc, hrest]
    exact ih (by omega) (hrest ▸ hn) fun k hk hlt => hf k (by omega) (by omega)

end Loops
end FpgaEthash
