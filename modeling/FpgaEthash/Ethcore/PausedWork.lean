import FpgaEthash.Computation.Runs
import FpgaEthash.Ethcore.Farm

/-!
# The work of a paused miner

`Miner::setWork` holds `x_work` from its beginning to its end, but it only *asks* whether
the miner is paused under `x_pause`, and then assigns the work.  `Miner::pause` sets the
flag and voids the work under `x_pause` alone.  So a pause can come between the question
and the assignment, and then the work that it voided is followed by a real package.

Here each part that a lock protects is one step: the test and the assignment of
`setWork`, and the bodies of `pause` and `resume`.  `x_work` admits one `setWork` at a
time, which is the optional field of `Shared`.  `voidWhilePaused_iff` is the exact
condition.
-/

namespace FpgaEthash
namespace Ethcore

open Devcore Runs

/-- A miner that several threads use: the `setWork` that is in progress, if there is one,
with its package and with what `paused()` returned to it. -/
structure Shared where
  miner : Miner
  setting : Option (WorkPackage × Bool) := none

namespace Shared

/-- The parts that a lock protects.  `test` is the call of `paused()` in `setWork`, and
`assign` the rest of it. -/
inductive Section where
  | test (work : WorkPackage)
  | assign
  | pause (what : MinerPauseEnum)
  | resume (fromwhat : MinerPauseEnum)

/-- The assignment of `setWork`: void work if the miner was paused. -/
def assigned (m : Miner) (work : WorkPackage) (paused : Bool) : Miner :=
  if paused then { m with work := { m.work with header := FixedHash.zero 32 } }
  else { m with work := work }

/-- One section; `none` if the lock does not admit it. -/
def step (s : Shared) : Section → Option Shared
  | .test work =>
    match s.setting with
    | none => some { s with setting := some (work, s.miner.paused) }
    | some _ => none
  | .assign => s.setting.map fun p => ⟨assigned s.miner p.1 p.2, none⟩
  | .pause what => some { s with miner := s.miner.pause what }
  | .resume fromwhat => some { s with miner := s.miner.resume fromwhat }

/-- Without anything in between the two sections are `setWork`. -/
theorem run_test_assign (m : Miner) (work : WorkPackage) :
    run step ⟨m, none⟩ [.test work, .assign] = some ⟨m.setWork work, none⟩ := rfl

/-- A miner with a pause flag has no work. -/
def Void (s : Shared) : Prop :=
  s.miner.pauseFlags ≠ ∅ → s.miner.work.header = FixedHash.zero 32

/-- The same, between two calls of `setWork`. -/
def VoidWhilePaused (s : Shared) : Prop := s.setting = none → s.Void

/-- The steps that keep a paused miner without work: no real package is assigned that was
admitted before the pause. -/
def Admits (s : Shared) : Section → Prop
  | .assign => ∀ work, s.setting = some (work, false) → work.header ≠ FixedHash.zero 32 →
      s.miner.pauseFlags = ∅
  | _ => True

variable {s s' : Shared} {e : Section}

theorem setting_of_assign (h : s.step .assign = some s') :
    ∃ work paused, s.setting = some (work, paused) ∧
      s' = ⟨assigned s.miner work paused, none⟩ := by
  obtain ⟨⟨work, paused⟩, hsetting, rfl⟩ := Option.map_eq_some_iff.mp h
  exact ⟨work, paused, hsetting, rfl⟩

/-- Every section but the assignment keeps a paused miner without work. -/
theorem void_step (hs : s.Void) (he : e ≠ .assign) (h : s.step e = some s') : s'.Void := by
  cases e with
  | assign => exact absurd rfl he
  | test work =>
    rw [step] at h
    cases hsetting : s.setting with
    | none =>
      rw [hsetting] at h
      obtain rfl := Option.some.inj h
      exact hs
    | some p =>
      rw [hsetting] at h
      cases h
  | pause what =>
    obtain rfl := Option.some.inj h
    exact fun _ => rfl
  | resume fromwhat =>
    obtain rfl := Option.some.inj h
    intro hflags
    refine hs fun hnone => hflags ?_
    show s.miner.pauseFlags.erase fromwhat = ∅
    rw [hnone]
    rfl

/-- **The assignment of `setWork`** leaves a paused miner without work exactly when it was
paused at the test already, or its package is void, or it is not paused now. -/
theorem void_assign_iff (h : s.step .assign = some s') : s'.Void ↔ s.Admits .assign := by
  obtain ⟨work, paused, hsetting, rfl⟩ := setting_of_assign h
  unfold Void Admits
  cases paused with
  | true =>
    refine iff_of_true (fun _ => rfl) fun work' hwork' => ?_
    rw [hsetting] at hwork'
    cases hwork'
  | false =>
    constructor
    · intro hvoid work' hwork' hreal
      rw [hsetting] at hwork'
      obtain ⟨rfl, -⟩ := Prod.mk.inj (Option.some.inj hwork')
      by_contra hflags
      exact hreal (hvoid hflags)
    · intro hadmits hflags
      by_contra hreal
      exact hflags (hadmits work hsetting hreal)

/-- **A paused miner has no work**, whenever no `setWork` is in progress, in an
interleaving of `setWork`, `pause` and `resume`, exactly when no assignment of a real
package that was admitted finds a pause flag. -/
theorem voidWhilePaused_iff (index : ℕ) (es : List Section) :
    Along step VoidWhilePaused ⟨{ index }, none⟩ es ↔
      StepsMeet step Admits ⟨{ index }, none⟩ es := by
  refine along_iff_stepsMeet_while (I := Void) ?_ ?_ es _ (fun h => absurd rfl h)
    fun _ h => absurd rfl h
  · intro s e s' hI _ hP h
    by_cases he : e = .assign
    · rw [he] at h
      obtain ⟨work, paused, -, rfl⟩ := setting_of_assign h
      exact hP rfl
    · exact void_step hI he h
  · intro s e s' hI _ h
    by_cases he : e = .assign
    · rw [he] at h ⊢
      rw [← void_assign_iff h]
      obtain ⟨work, paused, -, rfl⟩ := setting_of_assign h
      exact ⟨fun hP => hP rfl, fun hvoid _ => hvoid⟩
    · refine iff_of_true (fun _ => void_step hI he h) ?_
      cases e with
      | assign => exact absurd rfl he
      | test work => trivial
      | pause what => trivial
      | resume fromwhat => trivial

/-- The miner overheats between the test and the assignment: it is paused, and it has
work. -/
theorem work_assigned_after_pause :
    (run step ⟨{ index := 0 }, none⟩
      [.test { header := Vector.replicate 32 1 }, .pause .pauseDueToOverHeating, .assign]).map
        (fun s => (s.miner.paused, s.miner.work.header, s.setting)) =
      some (true, Vector.replicate 32 1, none) := by
  decide +kernel

end Shared
end Ethcore
end FpgaEthash
