import FpgaEthash.Fpga.Device

/-!
# The epoch of the DAG under a launch

A launch uses whatever DAG the buffers hold: that of the last call of
`initEpoch_internal` that got through to the upload of the light cache.  The loop calls
`initEpoch` for a package whose header *and* epoch differ from the current ones, and
takes `true` for an answer.  But `initEpoch_internal` also returns `true` when the device
has too little memory, and when a DAG buffer could not be created: the miner is then
paused, so that the *next* turn finds no work, while the turn at hand goes on with its
own copy of the package and launches the kernel on the DAG of the epoch before.

The runs are those in which the elements that are indexed exist.  The search buffer,
which nobody creates, is assumed: the runs start from a miner that has one of any size.
`dagMatches_iff` is the exact condition on the turns.
-/

namespace FpgaEthash
namespace Fpga

open Devcore Ethcore Runs

/-- The loop, and for each launch the epoch of its package and the epoch of the DAG. -/
structure Mined where
  loop : Loop
  launches : List (ℤ × Option ℤ) := []

namespace Mined

/-- One turn; `none` if it indexes an element that does not exist. -/
def step (settings : FPGASettings) (totalMemory : ℕ) (m : Mined) (t : DeviceTurn) :
    Option Mined :=
  (m.loop.step settings totalMemory t).bind fun loop =>
    if loop.trace.accesses.all fun p => p.2.Exists p.1 then
      some
        { loop
          launches :=
            if t.work.isReal && loop.running then
              m.launches ++ [(t.work.epoch, loop.trace.dagEpoch)]
            else m.launches }
    else none

/-- A miner that has search buffers of these sizes, and nothing else yet. -/
def start (searchBuffer : List ℕ) : Mined := { loop := { trace := { device := { searchBuffer } } } }

/-- Every launch found the DAG of the epoch of its package. -/
def DagMatches (m : Mined) : Prop := ∀ p ∈ m.launches, p.2 = some p.1

/-- The turns that keep the DAG with the packages: a package of another epoch has another
header, and `initEpoch` gets through for its epoch or ends the loop. -/
def Follows (totalMemory : ℕ) (m : Mined) (t : DeviceTurn) : Prop :=
  t.work.isReal = true → m.loop.current.epoch = t.work.epoch ∨
    m.loop.current.header ≠ t.work.header ∧
      (t.init.outcome totalMemory = .failed ∨
        (∃ content, t.init.outcome totalMemory = .ready content) ∧
          t.init.epochContext.epochNumber = t.work.epoch)

/-- What is known between two turns: nothing has been launched and there is no queue, or
the last launch was for the current package on the DAG that is there. -/
def Known (m : Mined) : Prop :=
  m.loop.current = {} ∧ m.loop.trace.dagEpoch = none ∧ m.loop.trace.device.queue = [] ∨
    (m.loop.current.epoch, m.loop.trace.dagEpoch) ∈ m.launches

variable {settings : FPGASettings} {totalMemory : ℕ} {m m' : Mined} {t : DeviceTurn}

theorem step_eq_some (h : m.step settings totalMemory t = some m') :
    m.loop.running = true ∧ m'.loop = m.loop.turn settings totalMemory t ∧
      m'.loop.ElementsExist ∧
      m'.launches =
        if t.work.isReal && m'.loop.running then
          m.launches ++ [(t.work.epoch, m'.loop.trace.dagEpoch)]
        else m.launches := by
  obtain ⟨loop, hloop, h⟩ := Option.bind_eq_some_iff.mp h
  unfold Loop.step at hloop
  split_ifs at hloop with hrunning
  obtain rfl := Option.some.inj hloop
  by_cases hexist : (m.loop.turn settings totalMemory t).trace.accesses.all
      (fun p => p.2.Exists p.1) = true
  · rw [if_pos hexist] at h
    obtain rfl := Option.some.inj h
    exact ⟨hrunning, rfl, List.all_eq_true.mp hexist, rfl⟩
  · rw [if_neg hexist] at h
    cases h

/-- A loop that is still running was running all along. -/
theorem running_of_run {turns : List DeviceTurn}
    (hrun : run (step settings totalMemory) m turns = some m')
    (hrunning : m'.loop.running = true) : m.loop.running = true := by
  cases turns with
  | nil =>
    obtain rfl := Option.some.inj hrun
    exact hrunning
  | cons t turns =>
    obtain ⟨m₁, hstep, -⟩ := (run_cons_eq_some _).mp hrun
    exact (step_eq_some hstep).1

/-- **These runs are runs of the loop that submits solutions**, on the same packages and
with the outcomes of `initEpoch` for what its calls met, whatever the kernel finds. -/
theorem exists_run_iterate (index : ℕ) (found : DeviceTurn → List SearchResult)
    {turns : List DeviceTurn} {s : State} (h : m.loop.Alike s)
    (hrun : run (step settings totalMemory) m turns = some m')
    (hrunning : m'.loop.running = true) :
    ∃ s', run (State.iterate settings index) s
        (turns.map fun t => ⟨t.work, t.init.outcome totalMemory, found t⟩) = some s' ∧
      m'.loop.Alike s' := by
  induction turns generalizing m s with
  | nil =>
    obtain rfl := Option.some.inj hrun
    exact ⟨s, rfl, h⟩
  | cons t turns ih =>
    obtain ⟨m₁, hstep, hrest⟩ := (run_cons_eq_some _).mp hrun
    obtain ⟨-, hloop, hexist, -⟩ := step_eq_some hstep
    have hrunning₁ := running_of_run hrest hrunning
    rw [hloop] at hexist hrunning₁
    obtain ⟨s₁, hs₁, halike⟩ := Loop.alike_turn h index (found t) hrunning₁ hexist
    rw [← hloop] at halike
    obtain ⟨s', hs', hfinal⟩ := ih halike hrest
    exact ⟨s', (run_cons_eq_some _).mpr ⟨s₁, hs₁, hs'⟩, hfinal⟩

/-- A package that was launched is the current one, on the DAG that is there. -/
theorem known_step (hm : m.Known) (h : m.step settings totalMemory t = some m')
    (hrunning : m'.loop.running = true) : m'.Known := by
  obtain ⟨-, hloop, -, hlaunches⟩ := step_eq_some h
  cases hreal : t.work.isReal with
  | false =>
    rw [hreal, Bool.false_and, if_neg Bool.false_ne_true] at hlaunches
    rw [Known, hlaunches, hloop, Loop.turn_of_isReal_eq_false settings totalMemory _ hreal,
      Loop.device_readResults, Loop.dagEpoch_readResults]
    exact hm
  | true =>
    have hcurrent : m'.loop.current = t.work := by
      rw [hloop]
      rcases Loop.turn_cases settings totalMemory m.loop hreal with
        ⟨-, hturn⟩ | ⟨-, -, hturn⟩ | ⟨-, -, -, hturn⟩ | ⟨-, -, -, hturn⟩
      · rw [hturn]
      · rw [hturn]
      · rw [hturn]
      · rw [hloop, hturn] at hrunning
        cases hrunning
    rw [hreal, hrunning, Bool.and_self, if_pos rfl] at hlaunches
    refine Or.inr ?_
    rw [hlaunches, hcurrent]
    exact List.mem_append_right _ List.mem_cons_self

/-- What a call of `initEpoch` that returns `true` does to the DAG: it gets through and
makes that of its epoch, or it leaves the old one. -/
theorem dagEpoch_initEpoch {r : InitRun} {t : Trace}
    (htrue : (r.initEpoch totalMemory t).1 = true) :
    r.outcome totalMemory ≠ .failed ∧
      ((∃ content, r.outcome totalMemory = .ready content) ∧
          (r.initEpoch totalMemory t).2.dagEpoch = some r.epochContext.epochNumber ∨
        (∀ content, r.outcome totalMemory ≠ .ready content) ∧
          (r.initEpoch totalMemory t).2.dagEpoch = t.dagEpoch) := by
  have hleaves := r.leaves_initEpoch totalMemory t
  cases houtcome : r.outcome totalMemory with
  | insufficientMemory =>
    rw [houtcome] at hleaves
    refine ⟨by simp, Or.inr ⟨by simp, ?_⟩⟩
    rw [show r.initEpoch totalMemory t = (true, t) from hleaves]
  | dagBufferFailed =>
    rw [houtcome] at hleaves
    exact ⟨by simp, Or.inr ⟨by simp, hleaves.2.2⟩⟩
  | ready content =>
    rw [houtcome] at hleaves
    exact ⟨by simp, Or.inl ⟨⟨content, rfl⟩, hleaves.2.2⟩⟩
  | failed =>
    rw [houtcome] at hleaves
    exact absurd (hleaves.symm.trans htrue) Bool.false_ne_true

/-- A package of another epoch with another header, for which `initEpoch` returns `true`:
the DAG that was there is not its own, so `initEpoch` has to make it. -/
theorem dagEpoch_initEpoch_iff {trace : Trace} (hreal : t.work.isReal = true)
    (hheader : m.loop.current.header ≠ t.work.header)
    (hepoch : m.loop.current.epoch ≠ t.work.epoch)
    (htrue : (t.init.initEpoch totalMemory trace).1 = true)
    (hold : trace.dagEpoch ≠ some t.work.epoch) :
    (t.init.initEpoch totalMemory trace).2.dagEpoch = some t.work.epoch ↔
      m.Follows totalMemory t := by
  obtain ⟨hnot, ⟨hready, hdag⟩ | ⟨hquiet, hdag⟩⟩ := dagEpoch_initEpoch htrue
  · rw [hdag, Option.some_inj]
    refine ⟨fun heq _ => Or.inr ⟨hheader, Or.inr ⟨hready, heq⟩⟩, fun hfollows => ?_⟩
    rcases hfollows hreal with hsame | ⟨-, hfailed | ⟨-, heq⟩⟩
    · exact absurd hsame hepoch
    · exact absurd hfailed hnot
    · exact heq
  · rw [hdag]
    refine iff_of_false hold fun hfollows => ?_
    rcases hfollows hreal with hsame | ⟨-, hfailed | ⟨⟨content, hthrough⟩, -⟩⟩
    · exact hepoch hsame
    · exact hnot hfailed
    · exact hquiet content hthrough

/-- **One turn keeps the DAG with the packages** exactly when it follows. -/
theorem dagMatches_step_iff (hI : m.Known) (hm : m.DagMatches)
    (h : m.step settings totalMemory t = some m') : m'.DagMatches ↔ m.Follows totalMemory t := by
  obtain ⟨hrun, hloop, hexist, hlaunches⟩ := step_eq_some h
  cases hreal : t.work.isReal with
  | false =>
    rw [hreal, Bool.false_and, if_neg Bool.false_ne_true] at hlaunches
    refine iff_of_true ?_ fun htrue => ?_
    · rw [DagMatches, hlaunches]
      exact hm
    · rw [hreal] at htrue
      cases htrue
  | true =>
    have hlast : m'.loop.running = true →
        (m'.DagMatches ↔ m'.loop.trace.dagEpoch = some t.work.epoch) := by
      intro hrunning
      rw [hreal, hrunning, Bool.and_self, if_pos rfl] at hlaunches
      rw [DagMatches, hlaunches, List.forall_mem_append, List.forall_mem_singleton]
      exact ⟨fun hall => hall.2, fun hnew => ⟨hm, hnew⟩⟩
    have hknown : m.loop.current = {} ∧ m.loop.trace.dagEpoch = none ∧
        m.loop.trace.device.queue = [] ∨ m.loop.trace.dagEpoch = some m.loop.current.epoch :=
      hI.imp_right fun hlaunched => hm _ hlaunched
    have hread := Loop.dagEpoch_readResults settings t.count m.loop.trace
    rw [hloop] at hexist hlast
    rcases Loop.turn_cases settings totalMemory m.loop hreal with
      ⟨hheader, hturn⟩ | ⟨hheader, hepoch, hturn⟩ | ⟨hheader, hepoch, hinit, hturn⟩ |
        ⟨hheader, hepoch, hinit, hturn⟩
    · -- the current header: the DAG is that of the current package
      rw [hturn] at hlast
      rcases hknown with ⟨hcurrent, -, -⟩ | hdag
      · rw [hcurrent] at hheader
        exact absurd hheader.symm (bne_iff_ne.mp hreal)
      · rw [hlast hrun]
        show (Loop.readResults settings t.count m.loop.trace).dagEpoch = _ ↔ _
        rw [hread, hdag, Option.some_inj]
        refine ⟨fun heq _ => Or.inl heq, fun hfollows => ?_⟩
        exact (hfollows hreal).resolve_right fun hother => hother.1 hheader
    · -- another header, the same epoch
      rw [hturn] at hlast hexist
      rcases hknown with ⟨-, -, hqueue⟩ | hdag
      · have hne := Loop.queue_ne_nil hexist
        rw [Loop.device_readResults] at hne
        exact absurd hqueue hne
      · rw [hlast hrun]
        refine iff_of_true ?_ fun _ => Or.inl hepoch
        show (Loop.readResults settings t.count m.loop.trace).dagEpoch = _
        rw [hread, hdag, hepoch]
    · -- `initEpoch` returned `true`
      rw [hturn] at hlast
      rw [hlast hrun]
      refine dagEpoch_initEpoch_iff hreal hheader hepoch hinit ?_
      rw [hread]
      rcases hknown with ⟨-, hnone, -⟩ | hold
      · simp [hnone]
      · rw [hold]
        exact fun heq => hepoch (Option.some.inj heq)
    · -- the loop is left, without a launch
      have hfailed := (t.init.initEpoch_fst_eq_false_iff totalMemory _).mp hinit
      rw [hloop, hturn, Bool.and_false, if_neg Bool.false_ne_true] at hlaunches
      refine iff_of_true ?_ fun _ => Or.inr ⟨hheader, Or.inl hfailed⟩
      rw [DagMatches, hlaunches]
      exact hm

/-- **Every launch finds the DAG of the epoch of its package**, in a run that only indexes
elements that exist, exactly when each package of another epoch comes with another header
and a call of `initEpoch` that gets through for its epoch, or ends the loop. -/
theorem dagMatches_iff (settings : FPGASettings) (totalMemory : ℕ) (searchBuffer : List ℕ)
    (turns : List DeviceTurn) :
    Along (step settings totalMemory) DagMatches (start searchBuffer) turns ↔
      StepsMeet (step settings totalMemory) (Follows totalMemory) (start searchBuffer) turns :=
  along_iff_stepsMeet (I := fun m : Mined => m.loop.running = true → m.Known)
    (fun _ _ _ hI h hrunning => known_step (hI (step_eq_some h).1) h hrunning)
    (fun _ _ _ hI hm h => dagMatches_step_iff (hI (step_eq_some h).1) hm h) turns _
    (fun _ => Or.inl ⟨rfl, rfl, rfl⟩) fun _ hp => absurd hp List.not_mem_nil

/-- A job of an epoch, for a device on which every call succeeds. -/
def jobOf (epoch : ℤ) (header : BitVec 8) (dagSize : ℕ) : DeviceTurn where
  count := 0
  work := { header := Vector.replicate 32 header, epoch }
  init := { epochContext := ⟨epoch, 262139, 16776896, [], 8388593, dagSize⟩ }

/-- The DAG of epoch 1 does not fit: its job is launched on the DAG of epoch 0. -/
theorem old_dag_after_insufficient_memory :
    (run (step {} 1073739904) (start [268])
      [jobOf 0 1 1073739904, jobOf 1 2 1082130304]).map launches =
        some [(0, some 0), (1, some 0)] := by
  decide +kernel

end Mined
end Fpga
end FpgaEthash
