import FpgaEthash.Fpga.WorkLoop

/-!
# What the kernel is launched with

A launch is for the package that the turn got from `work`: its target should be that of
the package, and the nonces it covers should be new ones of the package's share.  Two
things stand in the way.

The size of a launch is `globalWorkSize`.  `FPGASettings` sets it to zero, no option of
the command line changes it, and `initDevice`, which works it out in the miners for other
devices, leaves it alone.  So every launch covers the empty range: `launches_conform_iff`
says that a run conforms exactly when it launches nothing.

The arguments of the kernel are set only when the header is a new one.  A package with
the header of the last one and another boundary or start nonce is launched with the
arguments of the last one (`arguments_of_same_header`), whatever the settings are;
`targets_true_iff` is the exact condition for the targets.
-/

namespace FpgaEthash
namespace Fpga

open Devcore Ethcore Runs

/-- The settings that `MinerCLI` builds: no option of the command line is for a member
that the loop reads. -/
def minerCLISettings : FPGASettings := {}

/-- A launch, and the package that it is for. -/
structure Launched where
  work : WorkPackage
  run : Launch

/-- The nonces that a launch covers. -/
def Launched.Covers (settings : FPGASettings) (l : Launched) (nonce : BitVec 64) : Prop :=
  ∃ i < settings.globalWorkSize.toNat, nonce = l.run.startNonce + BitVec.ofNat 64 i

/-- The launch has the target of its package, and it covers nonces, none of them before
the start nonce of the package or covered by an earlier launch for it. -/
structure Launched.Conforms (settings : FPGASettings) (earlier : List Launched)
    (l : Launched) : Prop where
  target : l.run.target = State.upper64 l.work.boundary
  nonempty : ∃ nonce, l.Covers settings nonce
  start : l.work.startNonce ≤ l.run.startNonce
  apart : ∀ l' ∈ earlier, l'.work = l.work → ∀ nonce, l.Covers settings nonce →
    ¬ l'.Covers settings nonce

/-- What the last run was launched with, as a turn that launched leaves it. -/
def State.lastRun (s : State) : Launch := ⟨s.header, s.target, s.current.startNonce⟩

/-- The loop, and its launches so far. -/
structure Logged where
  state : State
  launches : List Launched := []

namespace Logged

/-- One turn. -/
def iterate (settings : FPGASettings) (index : ℕ) (s : Logged) (t : Turn) : Option Logged :=
  (s.state.iterate settings index t).map fun state =>
    { state
      launches :=
        if t.work.isReal then s.launches ++ [⟨t.work, state.lastRun⟩] else s.launches }

/-- Every launch so far conforms. -/
def Conform (settings : FPGASettings) (s : Logged) : Prop :=
  ∀ earlier l later, s.launches = earlier ++ l :: later → l.Conforms settings earlier

/-- Every launch so far has the target of its package. -/
def TargetsTrue (s : Logged) : Prop :=
  ∀ l ∈ s.launches, l.run.target = State.upper64 l.work.boundary

end Logged

/-! ## What a turn launches -/

namespace State

variable {settings : FPGASettings} {index : ℕ} {s s' : State} {t : Turn}

/-- **What a turn with real work launches** is still there when it ends. -/
theorem launched_of_isReal (hreal : t.work.isReal = true)
    (h : s.iterate settings index t = some s') :
    ∃ s₁, (s.cleanResults settings).switchJob settings t.work t.initEpoch = some s₁ ∧
      s'.lastRun = s₁.nextRun ∧ s'.current = { t.work with startNonce := s₁.startNonce } ∧
      s₁.queue = true ∧ s'.startNonce = s₁.startNonce + settings.globalWorkSize.setWidth 64 := by
  obtain ⟨s₁, hs₁, hqueue, rfl⟩ := (iterate_eq_some_iff hreal).mp h
  obtain ⟨lastNonce, submitted, hreport⟩ := report_foldl_frame index s.results
    { s₁ with searchBuffer := s₁.searchBuffer.afterRun s₁.nextRun t.found }
  rw [hreport]
  exact ⟨s₁, hs₁, rfl, rfl, hqueue, rfl⟩

/-- A header that is not the current one sets the target. -/
theorem target_of_new_header {s₁ : State} {w : WorkPackage} {init : InitEpoch}
    (hheader : s.current.header ≠ w.header) (h : s.switchJob settings w init = some s₁) :
    s₁.target = upper64 w.boundary ∧ s₁.startNonce = w.startNonce := by
  have hset : ∀ s₀ : State, s₀.setJob settings w = some s₁ →
      s₁.target = upper64 w.boundary ∧ s₁.startNonce = w.startNonce := by
    intro s₀ h₀
    obtain rfl := setJob_eq_some h₀
    exact ⟨rfl, rfl⟩
  unfold switchJob at h
  rw [if_neg hheader] at h
  split_ifs at h with hepoch
  · exact hset _ h
  · obtain ⟨s₀, -, h₀⟩ := Option.bind_eq_some_iff.mp h
    exact hset s₀ h₀

/-- **A package with the current header** is launched with the target of the last job and
from where that one got to. -/
theorem arguments_of_same_header (hreal : t.work.isReal = true)
    (hheader : s.current.header = t.work.header)
    (h : s.iterate settings index t = some s') :
    s'.lastRun.target = s.target ∧ s'.lastRun.startNonce = s.startNonce := by
  obtain ⟨b, hclean, -⟩ := s.cleanResults_spec settings
  obtain ⟨s₁, hs₁, hrun, -, -, -⟩ := launched_of_isReal hreal h
  rw [hclean, switchJob, if_pos hheader] at hs₁
  obtain rfl := Option.some.inj hs₁
  rw [hrun]
  exact ⟨rfl, rfl⟩

/-- A package with another header is launched with its own target. -/
theorem target_of_other_header (hreal : t.work.isReal = true)
    (hheader : s.current.header ≠ t.work.header)
    (h : s.iterate settings index t = some s') :
    s'.lastRun.target = upper64 t.work.boundary := by
  obtain ⟨b, hclean, -⟩ := s.cleanResults_spec settings
  obtain ⟨s₁, hs₁, hrun, -, -, -⟩ := launched_of_isReal hreal h
  rw [hclean] at hs₁
  rw [hrun]
  exact (target_of_new_header (s := { s with searchBuffer := b }) hheader hs₁).1

end State

namespace Logged

variable {settings : FPGASettings} {index : ℕ} {s s' : Logged} {t : Turn}

theorem iterate_eq_some (h : s.iterate settings index t = some s') :
    s.state.iterate settings index t = some s'.state ∧
      s'.launches =
        if t.work.isReal then s.launches ++ [⟨t.work, s'.state.lastRun⟩] else s.launches := by
  obtain ⟨state, hstate, rfl⟩ := Option.map_eq_some_iff.mp h
  exact ⟨hstate, rfl⟩

/-! ## With the settings of the command line -/

theorem not_covers_minerCLISettings (l : Launched) (nonce : BitVec 64) :
    ¬ l.Covers minerCLISettings nonce := by
  rintro ⟨i, hi, -⟩
  exact absurd hi (Nat.not_lt_zero i)

theorem conform_iff_nil (s : Logged) : s.Conform minerCLISettings ↔ s.launches = [] := by
  constructor
  · intro h
    cases hl : s.launches with
    | nil => rfl
    | cons l later =>
      obtain ⟨nonce, hnonce⟩ := (h [] l later hl).nonempty
      exact absurd hnonce (not_covers_minerCLISettings l nonce)
  · intro hnil earlier l later hl
    rw [hnil] at hl
    exact absurd hl.symm (List.append_ne_nil_of_right_ne_nil _ (List.cons_ne_nil _ _))

/-- **With the settings of the command line a run conforms exactly when it launches
nothing**: when each turn that comes to its end finds a void package. -/
theorem launches_conform_iff (index : ℕ) (header : H256) (searchBuffer : SearchBuffer)
    (target : BitVec 64) (turns : List Turn) :
    Along (iterate minerCLISettings index) (Conform minerCLISettings)
        ⟨State.start header searchBuffer target, []⟩ turns ↔
      StepsMeet (iterate minerCLISettings index) (fun _ t => t.work.isReal = false)
        ⟨State.start header searchBuffer target, []⟩ turns := by
  refine along_iff_stepsMeet (I := fun _ => True) (fun _ _ _ _ _ => trivial) ?_ turns _ trivial
    ((conform_iff_nil _).mpr rfl)
  intro s t s' _ hs h
  obtain ⟨-, hlaunches⟩ := iterate_eq_some h
  rw [conform_iff_nil] at hs ⊢
  rw [hlaunches, hs]
  cases hreal : t.work.isReal with
  | true => simp
  | false => simp

/-- A first job, and a device on which everything succeeds. -/
def firstTurn : Turn :=
  ⟨{ header := Vector.replicate 32 1, boundary := Vector.replicate 32 1, epoch := 0 },
    .ready (FixedHash.zero 32), []⟩

/-- A device as the loop finds it. -/
def blankBuffer : SearchBuffer :=
  ⟨Vector.replicate 4 ⟨⟨0, Vector.replicate 8 0⟩, none⟩, 0, 0, 0⟩

/-- The first launch covers no nonce. -/
theorem first_launch_empty :
    ¬ Along (iterate minerCLISettings 0) (Conform minerCLISettings)
      ⟨State.start (FixedHash.zero 32) blankBuffer 0, []⟩ [firstTurn] := by
  intro h
  have hlast := (conform_iff_nil _).mp (h.2 _ rfl)
  cases hlast

/-! ## The targets, with any settings -/

/-- The turns that keep the targets true: a package with the current header has the
current target. -/
def TargetKept (s : Logged) (t : Turn) : Prop :=
  t.work.isReal = true → s.state.current.header = t.work.header →
    State.upper64 s.state.current.boundary = State.upper64 t.work.boundary

/-- Once there is a current job it has been launched, with the target that is set. -/
def LastLogged (s : Logged) : Prop :=
  s.state.current.header ≠ FixedHash.zero 32 →
    ∃ l ∈ s.launches, l.run.target = s.state.target ∧
      l.work.boundary = s.state.current.boundary

theorem lastLogged_iterate (hs : s.LastLogged) (h : s.iterate settings index t = some s') :
    s'.LastLogged := by
  obtain ⟨hstate, hlaunches⟩ := iterate_eq_some h
  unfold LastLogged at hs ⊢
  cases hreal : t.work.isReal with
  | false =>
    obtain ⟨b, hclean, -⟩ := s.state.cleanResults_spec settings
    rw [hlaunches, hreal, if_neg Bool.false_ne_true, State.iterate_of_void hreal hstate, hclean]
    exact hs
  | true =>
    obtain ⟨s₁, -, -, hcurrent, -, -⟩ := State.launched_of_isReal hreal hstate
    intro _
    rw [hlaunches, hreal, if_pos rfl, hcurrent]
    exact ⟨_, List.mem_append_right _ List.mem_cons_self, rfl, rfl⟩

theorem targetsTrue_iterate_iff (hI : s.LastLogged) (hs : s.TargetsTrue)
    (h : s.iterate settings index t = some s') : s'.TargetsTrue ↔ s.TargetKept t := by
  obtain ⟨hstate, hlaunches⟩ := iterate_eq_some h
  cases hreal : t.work.isReal with
  | false =>
    rw [hreal, if_neg Bool.false_ne_true] at hlaunches
    refine iff_of_true ?_ fun htrue => ?_
    · rw [TargetsTrue, hlaunches]
      exact hs
    · rw [hreal] at htrue
      cases htrue
  | true =>
    have hlast : s'.TargetsTrue ↔
        s'.state.lastRun.target = State.upper64 t.work.boundary := by
      rw [TargetsTrue, hlaunches, hreal, if_pos rfl, List.forall_mem_append,
        List.forall_mem_singleton]
      exact ⟨fun hall => hall.2, fun hnew => ⟨hs, hnew⟩⟩
    rw [hlast]
    by_cases hheader : s.state.current.header = t.work.header
    · -- the target is still that of the current job, which was launched
      obtain ⟨htarget, -⟩ := State.arguments_of_same_header hreal hheader hstate
      have hcurrent : s.state.current.header ≠ FixedHash.zero 32 := by
        rw [hheader]
        exact bne_iff_ne.mp hreal
      obtain ⟨l, hl, hset, hboundary⟩ := hI hcurrent
      rw [htarget, ← hset, hs l hl, hboundary]
      exact ⟨fun heq _ _ => heq, fun hkept => hkept hreal hheader⟩
    · exact iff_of_true (State.target_of_other_header hreal hheader hstate)
        fun _ hsame => absurd hsame hheader

/-- **Every launch has the target of its package** exactly when each package that comes
with the current header has the upper 64 bits of the current boundary. -/
theorem targets_true_iff (settings : FPGASettings) (index : ℕ) (header : H256)
    (searchBuffer : SearchBuffer) (target : BitVec 64) (turns : List Turn) :
    Along (iterate settings index) TargetsTrue
        ⟨State.start header searchBuffer target, []⟩ turns ↔
      StepsMeet (iterate settings index) TargetKept
        ⟨State.start header searchBuffer target, []⟩ turns :=
  along_iff_stepsMeet (fun _ _ _ hs h => lastLogged_iterate hs h)
    (fun _ _ _ hI hs h => targetsTrue_iterate_iff hI hs h) turns _
    (fun hne => absurd rfl hne) fun _ hl => absurd hl List.not_mem_nil

end Logged
end Fpga
end FpgaEthash
