import FpgaEthash.Computation.Runs
import Mathlib.Tactic.Common

/-!
# The life cycle of a worker

A `Worker` has one thread, which it tells what to do by the atomic `m_state`.  Its functions are
called from anywhere; they are serialised by `x_work`, and `startWorking`, `stopWorking` and the
destructor keep that lock while they wait for the thread.  The thread does not take the lock.
It runs `workLoop` again and again, and between two of its runs it stores `Stopped` over
whatever was there, puts `Killing` or `Starting` back if it was one of these, and waits.

A run of the whole is a list of events: a caller gets the lock, the caller that has it takes a
step, or the thread takes one.  Every access to `m_state` is a step of its own.  What a caller
does before it has the lock cannot be seen, so only the caller that has it is part of the state.

Where the thread is and what is in `m_state` belong together, in one of three ways.  It is
`Calm` while neither `Starting` nor `Killing` is there, `Waking` while `Starting` is, and `Dying`
once `Killing` has been stored.  Each is kept by the thread, or left for the first
(`Calm.threadStep`, `Waking.threadStep`, `Dying.threadStep`), and each change from the first is
made by a caller that then keeps the lock.  That is the invariant, `Sound`.  So `Starting` is
never there when `workLoop` returns, and what is put back is `Killing`, and nothing else.
-/

namespace FpgaEthash
namespace Devcore

open Runs

/-! ## States -/

/-- `WorkerState`. -/
inductive WorkerState where
  | starting
  | started
  | stopping
  | stopped
  | killing
  deriving DecidableEq, Repr

/-- Where the thread is: before the test of its outer loop, before it sets `Started`, in
`workLoop`, before it stores `Stopped`, before it puts back what was there, or before the test
of its inner loop. -/
inductive ThreadPc where
  | absent
  | outerTest
  | setStarted
  | workLoop
  | setStopped
  | putBack (ex : WorkerState)
  | innerTest
  | finished
  deriving DecidableEq, Repr

/-- The functions that take the lock. -/
inductive Call where
  | startWorking
  | triggerStopWorking
  | stopWorking
  | destructor
  deriving DecidableEq, Repr

/-- Where the caller is that has the lock: before the test of `m_work`, before it creates the
thread or assigns it to `m_work`, in one of the loops that wait, after that of `stopWorking`,
in `join`, or before it gives the lock back. -/
inductive CallerPc where
  | testWork (f : Call)
  | createThread
  | assignWork
  | awaitStarted
  | awaitStopped
  | seenStopped
  | join
  | unlock
  deriving DecidableEq, Repr

/-- `m_state`, whether `m_work` is set, the thread, and the caller that has `x_work`. -/
structure Worker where
  state : WorkerState := .starting
  work : Bool := false
  thread : ThreadPc := .absent
  caller : Option CallerPc := none
  deriving DecidableEq, Repr

namespace Worker

/-- What `m_state.compare_exchange_strong(ex, desired)` leaves in `m_state`. -/
def compareExchange (state ex desired : WorkerState) : WorkerState :=
  if state = ex then desired else state

/-! ## Steps -/

/-- A step of the thread.  From `workLoop` it is the return, or the exception that is caught. -/
def threadStep (s : Worker) : Option Worker :=
  match s.thread with
  | .absent => none
  | .outerTest =>
    some { s with thread := if s.state = .killing then .finished else .setStarted }
  | .setStarted =>
    some { s with state := compareExchange s.state .starting .started, thread := .workLoop }
  | .workLoop => some { s with thread := .setStopped }
  | .setStopped => some { s with state := .stopped, thread := .putBack s.state }
  | .putBack ex =>
    some { s with
      state := if ex = .killing ∨ ex = .starting then ex else s.state
      thread := .innerTest }
  | .innerTest =>
    some { s with thread := if s.state = .stopped then .innerTest else .outerTest }
  | .finished => none

/-- What a call does first: it tests `m_work`, and acts on `m_state`. -/
def callStep (s : Worker) : Call → Worker
  | .startWorking =>
    if s.work then
      { s with
        state := compareExchange s.state .stopped .starting
        caller := some .awaitStarted }
    else { s with state := .starting, caller := some .createThread }
  | .triggerStopWorking =>
    if s.work then
      { s with state := compareExchange s.state .started .stopping, caller := some .unlock }
    else { s with caller := some .unlock }
  | .stopWorking =>
    if s.work then
      { s with
        state := compareExchange s.state .started .stopping
        caller := some .awaitStopped }
    else { s with caller := some .unlock }
  | .destructor =>
    if s.work then { s with state := .killing, caller := some .join }
    else { s with caller := some .unlock }

/-- A step of the caller that has the lock.  A loop that waits takes a turn, `join` blocks. -/
def callerStep (s : Worker) : Option Worker :=
  match s.caller with
  | none => none
  | some (.testWork f) => some (s.callStep f)
  | some .createThread =>
    some { s with thread := .outerTest, caller := some .assignWork }
  | some .assignWork => some { s with work := true, caller := some .awaitStarted }
  | some .awaitStarted =>
    some { s with
      caller := some (if s.state = .starting then .awaitStarted else .unlock) }
  | some .awaitStopped =>
    some { s with
      caller := some (if s.state = .stopped then .seenStopped else .awaitStopped) }
  | some .seenStopped => some { s with caller := none }
  | some .join =>
    if s.thread = .finished then
      some { s with work := false, thread := .absent, caller := some .unlock }
    else none
  | some .unlock => some { s with caller := none }

/-- What happens next. -/
inductive Event where
  | lock (f : Call)
  | caller
  | thread
  deriving DecidableEq, Repr

/-- One event.  The lock is taken only if it is free. -/
def step (s : Worker) : Event → Option Worker
  | .lock f => if s.caller = none then some { s with caller := some (.testWork f) } else none
  | .caller => s.callerStep
  | .thread => s.threadStep

/-! ## The thread and its state -/

/-- Neither `Starting` nor `Killing` is there. -/
inductive Calm : ThreadPc → WorkerState → Prop
  | workLoop {state} (h : state = .started ∨ state = .stopping) : Calm .workLoop state
  | setStopped {state} (h : state = .started ∨ state = .stopping) : Calm .setStopped state
  | putBack {ex} (h : ex = .started ∨ ex = .stopping) : Calm (.putBack ex) .stopped
  | innerTest : Calm .innerTest .stopped

/-- `Starting` is there, and the thread is on its way to `workLoop`. -/
inductive Waking : ThreadPc → WorkerState → Prop
  | putBack {ex} (h : ex = .started ∨ ex = .stopping) : Waking (.putBack ex) .starting
  | innerTest : Waking .innerTest .starting
  | outerTest : Waking .outerTest .starting
  | setStarted : Waking .setStarted .starting

/-- `Killing` has been stored, and `workLoop` will not be entered again. -/
inductive Leaving : ThreadPc → WorkerState → Prop
  | putBack {ex} (h : ex = .started ∨ ex = .stopping) : Leaving (.putBack ex) .killing
  | innerTest : Leaving .innerTest .killing
  | outerTest : Leaving .outerTest .killing
  | finished : Leaving .finished .killing

/-- `Killing` has been stored. -/
inductive Dying : ThreadPc → WorkerState → Prop
  | workLoop : Dying .workLoop .killing
  | setStopped : Dying .setStopped .killing
  | putBack : Dying (.putBack .killing) .stopped
  | leaving {thread state} (h : Leaving thread state) : Dying thread state

variable {s s' : Worker}

/-- The thread has no hand in `m_work` and the lock. -/
theorem threadStep_frame (h : s.threadStep = some s') :
    s'.work = s.work ∧ s'.caller = s.caller := by
  obtain ⟨state, work, thread, caller⟩ := s
  cases thread with
  | absent | finished => cases h
  | _ =>
    obtain rfl := Option.some.inj h
    exact ⟨rfl, rfl⟩

/-- The thread stays calm, and the only state it sets is `Stopped`. -/
theorem Calm.threadStep (hs : Calm s.thread s.state) (h : s.threadStep = some s') :
    Calm s'.thread s'.state ∧ (s'.state = s.state ∨ s'.state = .stopped) := by
  obtain ⟨state, work, thread, caller⟩ := s
  cases hs with
  | workLoop hstate =>
    obtain rfl := Option.some.inj h
    exact ⟨.setStopped hstate, .inl rfl⟩
  | setStopped hstate =>
    obtain rfl := Option.some.inj h
    exact ⟨.putBack hstate, .inr rfl⟩
  | putBack hex =>
    -- what was there is neither `Killing` nor `Starting`, and is not put back
    obtain rfl := Option.some.inj h
    obtain rfl | rfl := hex
    · exact ⟨.innerTest, .inl rfl⟩
    · exact ⟨.innerTest, .inl rfl⟩
  | innerTest =>
    obtain rfl := Option.some.inj h
    exact ⟨.innerTest, .inl rfl⟩

/-- The thread wakes up until it sets `Started`. -/
theorem Waking.threadStep (hs : Waking s.thread s.state) (h : s.threadStep = some s') :
    Calm s'.thread s'.state ∨ Waking s'.thread s'.state := by
  obtain ⟨state, work, thread, caller⟩ := s
  cases hs with
  | putBack hex =>
    obtain rfl := Option.some.inj h
    obtain rfl | rfl := hex
    · exact .inr .innerTest
    · exact .inr .innerTest
  | innerTest =>
    obtain rfl := Option.some.inj h
    exact .inr .outerTest
  | outerTest =>
    obtain rfl := Option.some.inj h
    exact .inr .setStarted
  | setStarted =>
    obtain rfl := Option.some.inj h
    exact .inl (.workLoop (.inl rfl))

theorem Leaving.threadStep (hs : Leaving s.thread s.state) (h : s.threadStep = some s') :
    Leaving s'.thread s'.state := by
  obtain ⟨state, work, thread, caller⟩ := s
  cases hs with
  | putBack hex =>
    obtain rfl := Option.some.inj h
    obtain rfl | rfl := hex
    · exact .innerTest
    · exact .innerTest
  | innerTest =>
    obtain rfl := Option.some.inj h
    exact .outerTest
  | outerTest =>
    obtain rfl := Option.some.inj h
    exact .finished
  | finished => cases h

/-- `Killing` is stored over, but put back. -/
theorem Dying.threadStep (hs : Dying s.thread s.state) (h : s.threadStep = some s') :
    Dying s'.thread s'.state := by
  obtain ⟨state, work, thread, caller⟩ := s
  cases hs with
  | workLoop =>
    obtain rfl := Option.some.inj h
    exact .setStopped
  | setStopped =>
    obtain rfl := Option.some.inj h
    exact .putBack
  | putBack =>
    obtain rfl := Option.some.inj h
    exact .leaving .innerTest
  | leaving hs => exact .leaving (hs.threadStep h)

section Callers

variable {thread : ThreadPc} {state : WorkerState}

theorem Calm.startWorking (hs : Calm thread state) :
    Calm thread (compareExchange state .stopped .starting) ∨
      Waking thread (compareExchange state .stopped .starting) := by
  cases hs with
  | workLoop hstate =>
    obtain rfl | rfl := hstate
    · exact .inl (.workLoop (.inl rfl))
    · exact .inl (.workLoop (.inr rfl))
  | setStopped hstate =>
    obtain rfl | rfl := hstate
    · exact .inl (.setStopped (.inl rfl))
    · exact .inl (.setStopped (.inr rfl))
  | putBack hex => exact .inr (.putBack hex)
  | innerTest => exact .inr .innerTest

theorem Calm.stopWorking (hs : Calm thread state) :
    Calm thread (compareExchange state .started .stopping) ∧
      compareExchange state .started .stopping ≠ .started := by
  cases hs with
  | workLoop hstate =>
    obtain rfl | rfl := hstate
    · exact ⟨.workLoop (.inr rfl), by decide⟩
    · exact ⟨.workLoop (.inr rfl), by decide⟩
  | setStopped hstate =>
    obtain rfl | rfl := hstate
    · exact ⟨.setStopped (.inr rfl), by decide⟩
    · exact ⟨.setStopped (.inr rfl), by decide⟩
  | putBack hex => exact ⟨.putBack hex, by decide⟩
  | innerTest => exact ⟨.innerTest, by decide⟩

theorem Calm.dying (hs : Calm thread state) :
    Dying thread .killing := by
  cases hs with
  | workLoop _ => exact .workLoop
  | setStopped _ => exact .setStopped
  | putBack hex => exact .leaving (.putBack hex)
  | innerTest => exact .leaving .innerTest

/-- A calm thread that has stopped is not in `workLoop`. -/
theorem Calm.leaving (hs : Calm thread .stopped) : Leaving thread .killing := by
  cases hs with
  | workLoop hstate | setStopped hstate => exact absurd hstate (by decide)
  | putBack hex => exact .putBack hex
  | innerTest => exact .innerTest

theorem Leaving.state_eq (hs : Leaving thread state) : state = .killing := by
  cases hs <;> rfl

theorem Leaving.ne_workLoop (hs : Leaving thread state) : thread ≠ .workLoop := by
  cases hs <;> nofun

end Callers

/-! ## The invariant -/

/-- There is no thread, or it meets the condition. -/
def ThreadIn (P : ThreadPc → WorkerState → Prop) (s : Worker) : Prop :=
  s.work = true ∧ P s.thread s.state ∨ s.work = false ∧ s.thread = .absent

/-- **The invariant**: what the caller that has the lock can rely on. -/
def Sound (s : Worker) : Prop :=
  match s.caller with
  | none => s.ThreadIn Calm
  | some (.testWork _) => s.ThreadIn Calm
  | some .createThread => s.work = false ∧ s.thread = .absent ∧ s.state = .starting
  | some .assignWork => s.work = false ∧ (Calm s.thread s.state ∨ Waking s.thread s.state)
  | some .awaitStarted => s.work = true ∧ (Calm s.thread s.state ∨ Waking s.thread s.state)
  | some .awaitStopped => s.work = true ∧ Calm s.thread s.state ∧ s.state ≠ .started
  | some .seenStopped => s.work = true ∧ Calm s.thread s.state ∧ s.state = .stopped
  | some .join => s.work = true ∧ Dying s.thread s.state
  | some .unlock => s.ThreadIn Calm

theorem sound_init : Sound {} := .inr ⟨rfl, rfl⟩

theorem threadStep_of_absent (hs : s.thread = .absent) : s.threadStep = none := by
  rw [Worker.threadStep, hs]

/-- What the thread keeps while it is there. -/
theorem ThreadIn.threadStep {P : ThreadPc → WorkerState → Prop}
    (hP : P s.thread s.state → P s'.thread s'.state) (hs : s.ThreadIn P)
    (h : s.threadStep = some s') : s'.ThreadIn P := by
  obtain ⟨hwork, -⟩ := threadStep_frame h
  obtain ⟨hs, hthread⟩ | ⟨-, habsent⟩ := hs
  · exact .inl ⟨hwork.trans hs, hP hthread⟩
  · rw [threadStep_of_absent habsent] at h
    cases h

/-- Without a thread there is nothing to stop. -/
theorem callStep_of_no_work {f : Call} (hwork : s.work = false) (hf : f ≠ .startWorking) :
    s.callStep f = { s with caller := some .unlock } := by
  have hno : ¬ s.work = true := by
    rw [hwork]
    decide
  cases f with
  | startWorking => exact absurd rfl hf
  | triggerStopWorking | stopWorking | destructor => exact if_neg hno

theorem Sound.threadStep (hs : Sound s) (h : s.threadStep = some s') : Sound s' := by
  obtain ⟨state, work, thread, caller⟩ := s
  obtain ⟨state', work', thread', caller'⟩ := s'
  obtain ⟨rfl, rfl⟩ : work = work' ∧ caller = caller' := (threadStep_frame h).imp Eq.symm Eq.symm
  cases caller with
  | none => exact ThreadIn.threadStep (fun hs => (hs.threadStep h).1) hs h
  | some pc =>
    cases pc with
    | testWork f => exact ThreadIn.threadStep (fun hs => (hs.threadStep h).1) hs h
    | createThread =>
      rw [threadStep_of_absent hs.2.1] at h
      cases h
    | assignWork => exact ⟨hs.1, hs.2.elim (fun hs => .inl (hs.threadStep h).1) (·.threadStep h)⟩
    | awaitStarted =>
      exact ⟨hs.1, hs.2.elim (fun hs => .inl (hs.threadStep h).1) (·.threadStep h)⟩
    | awaitStopped =>
      obtain ⟨hwork, hcalm, hne⟩ := hs
      obtain ⟨hcalm', hstate⟩ := hcalm.threadStep h
      refine ⟨hwork, hcalm', ?_⟩
      obtain rfl | rfl := hstate
      · exact hne
      · exact WorkerState.noConfusion
    | seenStopped =>
      obtain ⟨hwork, hcalm, hstopped⟩ := hs
      obtain ⟨hcalm', hstate⟩ := hcalm.threadStep h
      exact ⟨hwork, hcalm', hstate.elim (·.trans hstopped) id⟩
    | join => exact ⟨hs.1, hs.2.threadStep h⟩
    | unlock => exact ThreadIn.threadStep (fun hs => (hs.threadStep h).1) hs h

theorem Sound.callStep {f : Call} (hs : s.ThreadIn Calm) : Sound (s.callStep f) := by
  obtain ⟨hwork, hcalm⟩ | ⟨hwork, habsent⟩ := hs
  · cases f with
    | startWorking =>
      rw [Worker.callStep, if_pos hwork]
      exact ⟨hwork, hcalm.startWorking⟩
    | triggerStopWorking =>
      rw [Worker.callStep, if_pos hwork]
      exact .inl ⟨hwork, hcalm.stopWorking.1⟩
    | stopWorking =>
      rw [Worker.callStep, if_pos hwork]
      exact ⟨hwork, hcalm.stopWorking⟩
    | destructor =>
      rw [Worker.callStep, if_pos hwork]
      exact ⟨hwork, hcalm.dying⟩
  · by_cases hf : f = .startWorking
    · have hno : ¬ s.work = true := by
        rw [hwork]
        decide
      rw [hf, Worker.callStep, if_neg hno]
      exact ⟨hwork, habsent, rfl⟩
    · rw [callStep_of_no_work hwork hf]
      exact .inr ⟨hwork, habsent⟩

theorem Waking.state_eq {thread : ThreadPc} {state : WorkerState} (hs : Waking thread state) :
    state = .starting := by
  cases hs <;> rfl

theorem Sound.callerStep (hs : Sound s) (h : s.callerStep = some s') : Sound s' := by
  obtain ⟨state, work, thread, caller⟩ := s
  cases caller with
  | none => cases h
  | some pc =>
    cases pc with
    | testWork f =>
      obtain rfl := Option.some.inj h
      exact Sound.callStep hs
    | createThread =>
      obtain rfl := Option.some.inj h
      obtain ⟨hwork, -, rfl⟩ := hs
      exact ⟨hwork, .inr .outerTest⟩
    | assignWork =>
      -- the thread runs already, and may be in `workLoop`
      obtain rfl := Option.some.inj h
      exact ⟨rfl, hs.2⟩
    | awaitStarted =>
      obtain rfl := Option.some.inj h
      by_cases hstate : state = .starting
      · simp only [if_pos hstate]
        exact hs
      · -- the lock is given back only after the thread has set `Started`
        simp only [if_neg hstate]
        exact .inl ⟨hs.1, hs.2.resolve_right fun hw => hstate hw.state_eq⟩
    | awaitStopped =>
      obtain rfl := Option.some.inj h
      by_cases hstate : state = .stopped
      · simp only [if_pos hstate]
        exact ⟨hs.1, hs.2.1, hstate⟩
      · simp only [if_neg hstate]
        exact hs
    | seenStopped =>
      obtain rfl := Option.some.inj h
      exact .inl ⟨hs.1, hs.2.1⟩
    | join =>
      obtain ⟨-, ⟨⟩⟩ := Option.ite_none_right_eq_some.mp h
      exact .inr ⟨rfl, rfl⟩
    | unlock =>
      obtain rfl := Option.some.inj h
      exact hs

/-- **Every event keeps the invariant.** -/
theorem Sound.step {e : Event} (hs : Sound s) (h : s.step e = some s') : Sound s' := by
  cases e with
  | lock f =>
    obtain ⟨hfree, ⟨⟩⟩ := Option.ite_none_right_eq_some.mp h
    rw [Sound, hfree] at hs
    exact hs
  | caller => exact hs.callerStep h
  | thread => exact hs.threadStep h

theorem sound_of_run {es : List Event} (hrun : run step {} es = some s) : Sound s :=
  (along_of_invariant (fun _ _ _ hs h => hs.step h) es {} sound_init).of_run hrun

/-! ## After `stopWorking` -/

/-- The thread waits, or is about to. -/
def AtRest (thread : ThreadPc) (state : WorkerState) : Prop := Calm thread state ∧ state = .stopped

/-- The thread has stopped, and nobody is about to start it. -/
def Rested (s : Worker) : Prop :=
  match s.caller with
  | none => s.ThreadIn AtRest
  | some (.testWork f) => f ≠ .startWorking ∧ s.ThreadIn AtRest
  | some .createThread => False
  | some .assignWork => False
  | some .awaitStarted => False
  | some .awaitStopped => s.ThreadIn AtRest
  | some .seenStopped => s.ThreadIn AtRest
  | some .join => s.work = true ∧ Leaving s.thread s.state
  | some .unlock => s.ThreadIn AtRest

theorem AtRest.threadStep (hs : AtRest s.thread s.state) (h : s.threadStep = some s') :
    AtRest s'.thread s'.state := by
  obtain ⟨hcalm, hstate⟩ := hs.1.threadStep h
  exact ⟨hcalm, hstate.elim (·.trans hs.2) id⟩

theorem AtRest.leaving {thread : ThreadPc} {state : WorkerState} (hs : AtRest thread state) :
    Leaving thread .killing := by
  obtain ⟨hcalm, rfl⟩ := hs
  exact hcalm.leaving

theorem ThreadIn.ne_workLoop (hs : s.ThreadIn AtRest) : s.thread ≠ .workLoop := by
  obtain ⟨-, hrest⟩ | ⟨-, habsent⟩ := hs
  · exact hrest.leaving.ne_workLoop
  · rw [habsent]
    decide

theorem Rested.threadStep (hs : s.Rested) (h : s.threadStep = some s') : s'.Rested := by
  obtain ⟨state, work, thread, caller⟩ := s
  obtain ⟨state', work', thread', caller'⟩ := s'
  obtain ⟨rfl, rfl⟩ : work = work' ∧ caller = caller' := (threadStep_frame h).imp Eq.symm Eq.symm
  cases caller with
  | none => exact ThreadIn.threadStep (·.threadStep h) hs h
  | some pc =>
    cases pc with
    | testWork f => exact ⟨hs.1, ThreadIn.threadStep (·.threadStep h) hs.2 h⟩
    | createThread | assignWork | awaitStarted => exact hs
    | awaitStopped | seenStopped => exact ThreadIn.threadStep (·.threadStep h) hs h
    | join => exact ⟨hs.1, hs.2.threadStep h⟩
    | unlock => exact ThreadIn.threadStep (·.threadStep h) hs h

theorem Rested.callStep {f : Call} (hf : f ≠ .startWorking) (hs : s.ThreadIn AtRest) :
    Rested (s.callStep f) := by
  obtain ⟨hwork, hrest⟩ | ⟨hwork, habsent⟩ := hs
  · have hkept : compareExchange s.state .started .stopping = .stopped := by
      rw [hrest.2]
      rfl
    cases f with
    | startWorking => exact absurd rfl hf
    | triggerStopWorking | stopWorking =>
      rw [Worker.callStep, if_pos hwork]
      exact .inl ⟨hwork, hrest.1.stopWorking.1, hkept⟩
    | destructor =>
      rw [Worker.callStep, if_pos hwork]
      exact ⟨hwork, hrest.leaving⟩
  · rw [callStep_of_no_work hwork hf]
    exact .inr ⟨hwork, habsent⟩

theorem Rested.callerStep (hs : s.Rested) (h : s.callerStep = some s') : s'.Rested := by
  obtain ⟨state, work, thread, caller⟩ := s
  cases caller with
  | none => cases h
  | some pc =>
    cases pc with
    | testWork f =>
      obtain rfl := Option.some.inj h
      exact Rested.callStep hs.1 hs.2
    | createThread | assignWork | awaitStarted => exact absurd hs id
    | awaitStopped =>
      obtain rfl := Option.some.inj h
      by_cases hstate : state = .stopped
      · simp only [if_pos hstate]
        exact hs
      · simp only [if_neg hstate]
        exact hs
    | seenStopped =>
      obtain rfl := Option.some.inj h
      exact hs
    | join =>
      obtain ⟨-, ⟨⟩⟩ := Option.ite_none_right_eq_some.mp h
      exact .inr ⟨rfl, rfl⟩
    | unlock =>
      obtain rfl := Option.some.inj h
      exact hs

/-- **A stopped thread stays stopped** until `startWorking` gets the lock. -/
theorem Rested.step {e : Event} (hs : s.Rested) (he : e ≠ .lock .startWorking)
    (h : s.step e = some s') : s'.Rested := by
  cases e with
  | lock f =>
    obtain ⟨hfree, ⟨⟩⟩ := Option.ite_none_right_eq_some.mp h
    rw [Rested, hfree] at hs
    exact ⟨fun hf => he (congrArg Event.lock hf), hs⟩
  | caller => exact hs.callerStep h
  | thread => exact hs.threadStep h

theorem Rested.ne_workLoop (hs : s.Rested) : s.thread ≠ .workLoop := by
  obtain ⟨state, work, thread, caller⟩ := s
  cases caller with
  | none => exact ThreadIn.ne_workLoop hs
  | some pc =>
    cases pc with
    | testWork f => exact ThreadIn.ne_workLoop hs.2
    | createThread | assignWork | awaitStarted => exact absurd hs id
    | awaitStopped | seenStopped => exact ThreadIn.ne_workLoop hs
    | join => exact hs.2.ne_workLoop
    | unlock => exact ThreadIn.ne_workLoop hs

/-! ## The last steps of the thread -/

/-- The destructor comes back, after some number of steps of the thread. -/
def ComesToEnd (s : Worker) : Prop :=
  ∃ k, run step s (List.replicate k .thread ++ [.caller, .caller]) = some { state := .killing }

theorem ComesToEnd.of_threadStep (h : s.threadStep = some s') (hs : s'.ComesToEnd) :
    s.ComesToEnd := by
  obtain ⟨k, hk⟩ := hs
  refine ⟨k + 1, ?_⟩
  rw [List.replicate_succ, List.cons_append, run_cons]
  show s.threadStep.bind _ = _
  rw [h, Option.bind_some, hk]

theorem Leaving.comesToEnd {thread : ThreadPc} {state : WorkerState} (hs : Leaving thread state) :
    ComesToEnd ⟨state, true, thread, some .join⟩ := by
  have hfinished : ComesToEnd ⟨.killing, true, .finished, some .join⟩ := ⟨0, rfl⟩
  have houter : ComesToEnd ⟨.killing, true, .outerTest, some .join⟩ := hfinished.of_threadStep rfl
  have hinner : ComesToEnd ⟨.killing, true, .innerTest, some .join⟩ := houter.of_threadStep rfl
  cases hs with
  | putBack hex =>
    obtain rfl | rfl := hex
    · exact hinner.of_threadStep rfl
    · exact hinner.of_threadStep rfl
  | innerTest => exact hinner
  | outerTest => exact houter
  | finished => exact hfinished

theorem Dying.comesToEnd {thread : ThreadPc} {state : WorkerState} (hs : Dying thread state) :
    ComesToEnd ⟨state, true, thread, some .join⟩ := by
  have hputBack : ComesToEnd ⟨.stopped, true, .putBack .killing, some .join⟩ :=
    Leaving.innerTest.comesToEnd.of_threadStep rfl
  have hsetStopped : ComesToEnd ⟨.killing, true, .setStopped, some .join⟩ :=
    hputBack.of_threadStep rfl
  cases hs with
  | workLoop => exact hsetStopped.of_threadStep rfl
  | setStopped => exact hsetStopped
  | putBack => exact hputBack
  | leaving hs => exact hs.comesToEnd

theorem Dying.state_eq {state : WorkerState} (hs : Dying .outerTest state) : state = .killing := by
  cases hs with
  | leaving hs => exact hs.state_eq

/-- **The life cycle of a worker**, in every interleaving.  When `stopWorking` comes back from
its wait, `workLoop` is not executing, and it is not entered before `startWorking` gets the lock.
Once the destructor has stored `Killing`, the thread finds it at its outer test and leaves its
loop, and the destructor comes back. -/
theorem life_cycle {es : List Event} (hrun : run step {} es = some s) :
    (s.caller = some .seenStopped → ∀ es', Event.lock .startWorking ∉ es' →
        Along step (fun t => t.thread ≠ .workLoop) s es') ∧
      (s.caller = some .join →
        (s.thread = .outerTest → s.state = .killing ∧
          s.step .thread = some { s with thread := .finished }) ∧
        s.ComesToEnd) := by
  have hs := sound_of_run hrun
  obtain ⟨state, work, thread, caller⟩ := s
  constructor
  · rintro rfl es' hes'
    obtain ⟨hwork, hcalm, hstopped⟩ := hs
    have hrested : Rested ⟨state, work, thread, some .seenStopped⟩ :=
      .inl ⟨hwork, hcalm, hstopped⟩
    have hmeet : StepsMeet step (fun _ e => e ≠ .lock .startWorking)
        ⟨state, work, thread, some .seenStopped⟩ es' :=
      stepsMeet_of_forall_mem fun e he _ => ne_of_mem_of_not_mem he hes'
    exact (along_of_stepsMeet (fun _ _ _ hs he h => hs.step he h) es' _ hrested hmeet).mono
      fun _ => Rested.ne_workLoop
  · rintro rfl
    obtain ⟨rfl, hdying⟩ := hs
    refine ⟨?_, hdying.comesToEnd⟩
    rintro rfl
    obtain rfl := hdying.state_eq
    exact ⟨rfl, rfl⟩

/-- `startWorking`, up to its end: the thread is in `workLoop`. -/
def startEvents : List Event :=
  [.lock .startWorking, .caller, .caller, .caller, .thread, .thread, .caller, .caller]

/-- The thread is stopped, or destroyed while it works. -/
theorem life_cycle_stop_or_destroy :
    (∃ s, run step {} (startEvents ++ [.lock .stopWorking, .caller, .thread, .thread, .caller]) =
        some s ∧ s.caller = some .seenStopped ∧ ∀ es', Event.lock .startWorking ∉ es' →
          Along step (fun t => t.thread ≠ .workLoop) s es') ∧
      ∃ s, run step {} (startEvents ++ [.lock .destructor, .caller]) = some s ∧
        s.caller = some .join ∧ s.thread = .workLoop ∧ s.ComesToEnd := by
  have hstop : run step {} (startEvents ++ [.lock .stopWorking, .caller, .thread, .thread,
      .caller]) = some ⟨.stopped, true, .putBack .stopping, some .seenStopped⟩ := by
    decide
  have hdestroy : run step {} (startEvents ++ [.lock .destructor, .caller]) =
      some ⟨.killing, true, .workLoop, some .join⟩ := by
    decide
  exact ⟨⟨_, hstop, rfl, (life_cycle hstop).1 rfl⟩,
    _, hdestroy, rfl, rfl, ((life_cycle hdestroy).2 rfl).2⟩

end Worker

end Devcore
end FpgaEthash
