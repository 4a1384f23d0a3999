import FpgaEthash.Computation.Throwing
import FpgaEthash.Fpga.WorkLoop

/-!
# The vectors of the FPGA miner

`FPGAMiner` keeps its context, its queue and its buffers in vectors, which
`initEpoch_internal` clears and fills and which `workLoop` indexes.  Here a buffer is the
byte size that it was created with, and what the loop does to the vectors is a list of
accesses: an element that is indexed, or a range that is read or written through the
queue.  An access is recorded together with the vectors as they are at that moment, and
whether it was in order is asked afterwards.

`initEpoch_internal` comes back in three ways: early with `true`, early with `false`, and
at its end with `true`.  It is an `EStateM` computation in which `throw b` is `return b`;
an exception of the OpenCL library ends up in one of its two handlers, which return
`true` and `false`.
-/

namespace FpgaEthash
namespace Fpga

open Devcore Ethcore Throwing

/-- The vectors: contexts and queues, and buffers by their byte sizes. -/
structure Device where
  context : List Unit := []
  queue : List Unit := []
  dag : List ℕ := []
  light : List ℕ := []
  header : List ℕ := []
  searchBuffer : List ℕ := []
  deriving DecidableEq

/-- The names of the vectors. -/
inductive Member where
  | context
  | queue
  | dag
  | light
  | header
  | searchBuffer
  deriving DecidableEq, Repr

/-- The byte size of an element; a context or a queue has none. -/
def Device.size (d : Device) (index : ℕ) : Member → Option ℕ
  | .context => d.context[index]?.map fun _ => 0
  | .queue => d.queue[index]?.map fun _ => 0
  | .dag => d.dag[index]?
  | .light => d.light[index]?
  | .header => d.header[index]?
  | .searchBuffer => d.searchBuffer[index]?

/-- An element that is indexed, or a range of its bytes that `enqueueReadBuffer` or
`enqueueWriteBuffer` is given. -/
inductive Access where
  | element (member : Member) (index : ℕ)
  | range (member : Member) (index offset length : ℕ)
  deriving DecidableEq, Repr

namespace Access

/-- The element exists. -/
def Exists (d : Device) : Access → Bool
  | element member index => (d.size index member).isSome
  | range member index _ _ => (d.size index member).isSome

/-- The element exists, and the range lies within its size. -/
def InOrder (d : Device) : Access → Bool
  | element member index => (d.size index member).isSome
  | range member index offset length =>
    (d.size index member).any fun size => offset + length ≤ size

end Access

/-- The vectors, what was done to them, and the epoch of the last call of
`initEpoch_internal` that created the DAG buffers and uploaded the light cache. -/
structure Trace where
  device : Device := {}
  accesses : List (Device × Access) := []
  dagEpoch : Option ℤ := none

namespace Trace

/-- Record accesses. -/
def touch (as : List Access) (t : Trace) : Trace :=
  { t with accesses := t.accesses ++ as.map fun a => (t.device, a) }

/-- Change the vectors. -/
def onDevice (f : Device → Device) (t : Trace) : Trace := { t with device := f t.device }

end Trace

/-! ## `initEpoch_internal` -/

/-- The calls of the OpenCL library that may throw. -/
inductive InitCall where
  | context
  | queue
  | program
  | firstDag
  | secondDag
  | light
  | lightOnHost
  | kernels
  | upload
  | header
  deriving DecidableEq, Repr

/-- What a call of `initEpoch` meets: whether the miner is stopped while it waits for its
turn to load the DAG, the epoch context, whether the file of the kernel can be opened,
whether the light cache has to go to the host, the call that throws, if any, and what a
new header buffer holds. -/
structure InitRun where
  stopped : Bool := false
  epochContext : EpochContext
  fileOpens : Bool := true
  noRoomForLight : Bool := false
  throws : Option InitCall := none
  content : H256 := FixedHash.zero 32

namespace InitRun

variable (r : InitRun)

/-- `return b`, under a condition. -/
def returnIf (c : Bool) (b : Bool) : EStateM Bool Trace Unit := if c then throw b else pure ()

/-- A call of the library, and what the handler of its exception returns. -/
def call (c : InitCall) (b : Bool) : EStateM Bool Trace Unit := returnIf (r.throws = some c) b

/-- Records accesses. -/
def use (as : List Access) : EStateM Bool Trace Unit := modify (Trace.touch as)

/-- The context, the queue and the program. -/
def createQueue : EStateM Bool Trace Unit := do
  modify (Trace.onDevice fun d => { d with context := [] })
  r.call .context false
  modify (Trace.onDevice fun d => { d with context := [()], queue := [] })
  use [.element .context 0]
  r.call .queue false
  modify (Trace.onDevice fun d => { d with queue := [()] })
  use [.element .context 0]
  r.call .program false

/-- The size of the first half of the DAG. -/
def firstDagSize : ℕ :=
  if r.epochContext.dagNumItems % 2 = 1 then r.epochContext.dagSize / 2 + 64
  else r.epochContext.dagSize / 2

/-- The size of the second half of the DAG. -/
def secondDagSize : ℕ :=
  if r.epochContext.dagNumItems % 2 = 1 then r.epochContext.dagSize / 2 - 64
  else r.epochContext.dagSize / 2

/-- The DAG buffers. -/
def createDag : EStateM Bool Trace Unit := do
  modify (Trace.onDevice fun d => { d with dag := [] })
  use [.element .context 0]
  r.call .firstDag true
  modify (Trace.onDevice fun d => { d with dag := [r.firstDagSize] })
  use [.element .context 0]
  r.call .secondDag true
  modify (Trace.onDevice fun d => { d with dag := [r.firstDagSize, r.secondDagSize] })

/-- The buffer of the light cache on the host, if there is no room on the device. -/
def createLightOnHost : EStateM Bool Trace Unit :=
  if r.noRoomForLight then do
    use [.element .context 0]
    r.call .lightOnHost true
  else pure ()

/-- The light cache and the kernels. -/
def createLight : EStateM Bool Trace Unit := do
  modify (Trace.onDevice fun d => { d with light := [] })
  use [.element .context 0]
  r.call .light true
  r.createLightOnHost
  modify (Trace.onDevice fun d => { d with light := [r.epochContext.lightSize] })
  r.call .kernels true
  use [.element .queue 0, .range .light 0 0 r.epochContext.lightSize]
  r.call .upload true
  modify fun t => { t with dagEpoch := some r.epochContext.epochNumber }

/-- The header buffer, of `sizeof(1)` bytes. -/
def createHeader : EStateM Bool Trace Unit := do
  modify (Trace.onDevice fun d => { d with header := [] })
  use [.element .context 0]
  r.call .header false
  modify (Trace.onDevice fun d => { d with header := [4] })

/-- `initEpoch_internal`, on a device with this much memory. -/
def initEpochInternal (totalMemory : ℕ) : EStateM Bool Trace Unit := do
  returnIf (totalMemory < r.epochContext.dagSize) true
  returnIf (!r.fileOpens) false
  r.createQueue
  r.createDag
  r.createLight
  r.createHeader

/-- What `initEpoch_internal` returns. -/
def returned : EStateM.Result Bool Trace Unit → Bool × Trace
  | .ok _ t => (true, t)
  | .error b t => (b, t)

/-- `initEpoch`. -/
def initEpoch (totalMemory : ℕ) (t : Trace) : Bool × Trace :=
  if r.stopped then (false, t) else returned (r.initEpochInternal totalMemory t)

/-- How a call of `initEpoch` ends, by what it meets. -/
def outcome (totalMemory : ℕ) : InitEpoch :=
  if r.stopped then .failed
  else if totalMemory < r.epochContext.dagSize then .insufficientMemory
  else if !r.fileOpens then .failed
  else match r.throws with
    | none => .ready r.content
    | some .context => .failed
    | some .queue => .failed
    | some .program => .failed
    | some .firstDag => .dagBufferFailed
    | some .secondDag => .dagBufferFailed
    | some .light => .dagBufferFailed
    | some .lightOnHost => if r.noRoomForLight then .dagBufferFailed else .ready r.content
    | some .kernels => .dagBufferFailed
    | some .upload => .dagBufferFailed
    | some .header => .failed

/-- What each end of `initEpoch` leaves of a trace: what it returns, and whether there are
a queue and a new DAG. -/
def Leaves (t : Trace) (result : Bool × Trace) : InitEpoch → Prop
  | .insufficientMemory => result = (true, t)
  | .dagBufferFailed =>
    result.1 = true ∧ result.2.device.queue = [()] ∧ result.2.dagEpoch = t.dagEpoch
  | .ready _ =>
    result.1 = true ∧ result.2.device.queue = [()] ∧
      result.2.dagEpoch = some r.epochContext.epochNumber
  | .failed => result.1 = false

/-- **`initEpoch` ends as its outcome says.**  Every call is either the one that throws, or
it has no effect on the flow; so the cases are evaluated one by one. -/
theorem leaves_initEpoch (totalMemory : ℕ) (t : Trace) :
    r.Leaves t (r.initEpoch totalMemory t) (r.outcome totalMemory) := by
  unfold initEpoch outcome
  by_cases hstop : r.stopped = true
  · rw [if_pos hstop, if_pos hstop]
    exact rfl
  rw [if_neg hstop, if_neg hstop]
  unfold initEpochInternal
  by_cases hmemory : totalMemory < r.epochContext.dagSize
  · rw [if_pos hmemory, decide_eq_true hmemory]
    exact rfl
  rw [if_neg hmemory, decide_eq_false hmemory]
  cases r.fileOpens with
  | false => exact rfl
  | true =>
    unfold createQueue createDag createLight createLightOnHost createHeader call
    cases r.throws with
    | none => cases r.noRoomForLight <;> exact ⟨rfl, rfl, rfl⟩
    | some c =>
      cases c with
      | context | queue | program | header => cases r.noRoomForLight <;> exact rfl
      | firstDag | secondDag | light | lightOnHost | kernels | upload =>
        cases r.noRoomForLight <;> exact ⟨rfl, rfl, rfl⟩

/-- `initEpoch` returns `false` exactly when it fails. -/
theorem initEpoch_fst_eq_false_iff (totalMemory : ℕ) (t : Trace) :
    (r.initEpoch totalMemory t).1 = false ↔ r.outcome totalMemory = .failed := by
  have hleaves := r.leaves_initEpoch totalMemory t
  cases houtcome : r.outcome totalMemory with
  | insufficientMemory =>
    rw [houtcome] at hleaves
    simp [show r.initEpoch totalMemory t = (true, t) from hleaves]
  | dagBufferFailed | ready content =>
    rw [houtcome] at hleaves
    simp [hleaves.1]
  | failed =>
    rw [houtcome] at hleaves
    exact iff_of_true hleaves rfl

end InitRun

/-! ## The loop -/

/-- `offsetof(SearchResults, count)`: after four results of sixteen words. -/
def offsetofCount : ℕ := 256

/-- `sizeof(results.rslt[0])`. -/
def sizeofResult : ℕ := 64

/-- `sizeof(uint32_t)`. -/
def sizeofWord : ℕ := 4

/-- What a turn of the loop meets: the count that it reads from the search buffer, if it
reads it, the package, and what `initEpoch` meets if it is called. -/
structure DeviceTurn where
  count : ℕ
  work : WorkPackage
  init : InitRun

/-- The loop, as far as the vectors depend on it. -/
structure Loop where
  trace : Trace := {}
  current : WorkPackage := {}
  running : Bool := true

namespace Loop

variable (settings : FPGASettings)

/-- The accesses at the top of a turn. -/
def readAccesses (count : ℕ) : List Access :=
  [.element .queue 0,
    .range .searchBuffer 0 offsetofCount ((if settings.noExit then 1 else 2) * sizeofWord)] ++
  (if count = 0 then [] else
    .range .searchBuffer 0 0 (min count maxSearchResults * sizeofResult) ::
      if settings.noExit then [.range .searchBuffer 0 offsetofCount sizeofWord] else []) ++
  if settings.noExit then [] else [.range .searchBuffer 0 offsetofCount (3 * sizeofWord)]

/-- Read the results of the last run. -/
def readResults (count : ℕ) (t : Trace) : Trace :=
  if t.device.queue = [] then t else t.touch (readAccesses settings count)

/-- The accesses for a new header. -/
def jobAccesses : List Access :=
  [.element .queue 0, .range .header 0 0 32,
    .range .searchBuffer 0 offsetofCount
      (if settings.noExit then sizeofWord else 3 * sizeofWord),
    .element .searchBuffer 0, .element .header 0, .element .dag 0, .element .dag 1]

/-- The access that runs the kernel. -/
def launchAccesses : List Access := [.element .queue 0]

/-- `m_queue[0].finish()`, when the loop is left. -/
def finish (t : Trace) : Trace :=
  if t.device.queue = [] then t else t.touch [.element .queue 0]

/-- One turn of the loop. -/
def turn (totalMemory : ℕ) (l : Loop) (t : DeviceTurn) : Loop :=
  let trace := readResults settings t.count l.trace
  if !t.work.isReal then { l with trace }
  else if l.current.header = t.work.header then
    { l with trace := trace.touch launchAccesses, current := t.work }
  else if l.current.epoch = t.work.epoch then
    { l with trace := trace.touch (jobAccesses settings ++ launchAccesses), current := t.work }
  else
    let (initialized, trace) := t.init.initEpoch totalMemory trace
    if initialized then
      { l with
        trace := trace.touch (.element .context 0 :: jobAccesses settings ++ launchAccesses)
        current := t.work }
    else { l with trace := finish trace, running := false }

/-- One turn, if the loop has not been left. -/
def step (totalMemory : ℕ) (l : Loop) (t : DeviceTurn) : Option Loop :=
  if l.running then some (l.turn settings totalMemory t) else none

/-! ## The loop of the solutions -/

variable {settings} {totalMemory : ℕ} {l : Loop} {t : DeviceTurn}

/-- Every element that was indexed so far existed. -/
def ElementsExist (l : Loop) : Prop := ∀ p ∈ l.trace.accesses, p.2.Exists p.1 = true

/-- What the two models of the loop have in common. -/
structure Alike (l : Loop) (s : State) : Prop where
  queue : s.queue = true ↔ l.trace.device.queue ≠ []
  header : s.current.header = l.current.header
  epoch : s.current.epoch = l.current.epoch

theorem device_readResults (settings : FPGASettings) (count : ℕ) (trace : Trace) :
    (readResults settings count trace).device = trace.device := by
  unfold readResults
  split_ifs <;> rfl

theorem dagEpoch_readResults (settings : FPGASettings) (count : ℕ) (trace : Trace) :
    (readResults settings count trace).dagEpoch = trace.dagEpoch := by
  unfold readResults
  split_ifs <;> rfl

/-- A queue that was used last was there. -/
theorem queue_ne_nil {trace : Trace} {as : List Access}
    (h : ∀ p ∈ (trace.touch (as ++ launchAccesses)).accesses, p.2.Exists p.1 = true) :
    trace.device.queue ≠ [] := by
  have hmem : (trace.device, Access.element .queue 0) ∈
      (trace.touch (as ++ launchAccesses)).accesses := by
    simp [Trace.touch, launchAccesses]
  intro hnil
  have hexists := h _ hmem
  simp [Access.Exists, Device.size, hnil] at hexists

/-- **A turn with real work, by the way it takes.** -/
theorem turn_cases (settings : FPGASettings) (totalMemory : ℕ) (l : Loop)
    (hreal : t.work.isReal = true) :
    let trace := readResults settings t.count l.trace
    let init := t.init.initEpoch totalMemory trace
    l.current.header = t.work.header ∧ l.turn settings totalMemory t =
        { l with trace := trace.touch ([] ++ launchAccesses), current := t.work } ∨
      l.current.header ≠ t.work.header ∧ l.current.epoch = t.work.epoch ∧
        l.turn settings totalMemory t =
          { l with
            trace := trace.touch (jobAccesses settings ++ launchAccesses)
            current := t.work } ∨
      l.current.header ≠ t.work.header ∧ l.current.epoch ≠ t.work.epoch ∧ init.1 = true ∧
        l.turn settings totalMemory t =
          { l with
            trace := init.2.touch (.element .context 0 :: jobAccesses settings ++ launchAccesses)
            current := t.work } ∨
      l.current.header ≠ t.work.header ∧ l.current.epoch ≠ t.work.epoch ∧ init.1 = false ∧
        l.turn settings totalMemory t = { l with trace := finish init.2, running := false } := by
  dsimp only
  unfold turn
  simp only [hreal, Bool.not_true, Bool.false_eq_true, if_false]
  by_cases hheader : l.current.header = t.work.header
  · exact Or.inl ⟨hheader, by rw [if_pos hheader]; rfl⟩
  by_cases hepoch : l.current.epoch = t.work.epoch
  · exact Or.inr (Or.inl ⟨hheader, hepoch, by rw [if_neg hheader, if_pos hepoch]⟩)
  cases hinit : (t.init.initEpoch totalMemory (readResults settings t.count l.trace)).1 with
  | true =>
    refine Or.inr (Or.inr (Or.inl ⟨hheader, hepoch, rfl, ?_⟩))
    rw [if_neg hheader, if_neg hepoch, if_pos rfl]
  | false =>
    refine Or.inr (Or.inr (Or.inr ⟨hheader, hepoch, rfl, ?_⟩))
    rw [if_neg hheader, if_neg hepoch, if_neg Bool.false_ne_true]

theorem turn_of_isReal_eq_false (settings : FPGASettings) (totalMemory : ℕ) (l : Loop)
    (hvoid : t.work.isReal = false) :
    l.turn settings totalMemory t =
      { l with trace := readResults settings t.count l.trace } := by
  unfold turn
  rw [hvoid]
  rfl

/-- Reading the results touches nothing that the two models have in common. -/
theorem alike_readResults {s : State} (h : Alike l s) (settings : FPGASettings) (count : ℕ) :
    Alike { l with trace := readResults settings count l.trace } (s.cleanResults settings) := by
  obtain ⟨b, hclean, -⟩ := s.cleanResults_spec settings
  rw [hclean]
  refine ⟨?_, h.header, h.epoch⟩
  rw [device_readResults]
  exact h.queue

/-- A turn that has switched to its job and has a queue gets to the launch. -/
theorem alike_of_switchJob {s s₁ : State} {l' : Loop} (index : ℕ) (found : List SearchResult)
    (hreal : t.work.isReal = true)
    (hs₁ : (s.cleanResults settings).switchJob settings t.work (t.init.outcome totalMemory) =
      some s₁) (hqueue : s₁.queue = true) (hl : l'.trace.device.queue ≠ [])
    (hcurrent : l'.current = t.work) :
    ∃ s', s.iterate settings index ⟨t.work, t.init.outcome totalMemory, found⟩ = some s' ∧
      Alike l' s' := by
  obtain ⟨s', hs', hq', hheader', hepoch'⟩ := State.exists_iterate index
    (t := ⟨t.work, t.init.outcome totalMemory, found⟩) hreal hs₁ hqueue
  refine ⟨s', hs', iff_of_true hq' hl, ?_, ?_⟩
  · rw [hcurrent]
    exact hheader'
  · rw [hcurrent]
    exact hepoch'

/-- `initEpoch` returns `true`, and there is a queue: so it is in the other model. -/
theorem exists_initEpoch_of_queue {s : State} {trace : Trace} (r : InitRun)
    (h : s.queue = true ↔ trace.device.queue ≠ [])
    (hinit : (r.initEpoch totalMemory trace).1 = true)
    (hqueue : (r.initEpoch totalMemory trace).2.device.queue ≠ []) :
    ∃ s₀, s.initEpoch (r.outcome totalMemory) = some s₀ ∧ s₀.queue = true := by
  have hleaves := r.leaves_initEpoch totalMemory trace
  cases houtcome : r.outcome totalMemory with
  | insufficientMemory =>
    have hsame : r.initEpoch totalMemory trace = (true, trace) := by
      rw [houtcome] at hleaves
      exact hleaves
    rw [hsame] at hqueue
    exact ⟨_, rfl, h.mpr hqueue⟩
  | dagBufferFailed => exact ⟨_, rfl, rfl⟩
  | ready content => exact ⟨_, rfl, rfl⟩
  | failed =>
    have hfalse := (r.initEpoch_fst_eq_false_iff totalMemory trace).mpr houtcome
    exact absurd (hfalse.symm.trans hinit) Bool.false_ne_true

/-- **The two models of the loop go together**: where the elements that are indexed exist
and the loop is not left, the loop of the solutions takes the turn as well. -/
theorem alike_turn {s : State} (h : Alike l s) (index : ℕ) (found : List SearchResult)
    (hrunning : (l.turn settings totalMemory t).running = true)
    (hexist : (l.turn settings totalMemory t).ElementsExist) :
    ∃ s', s.iterate settings index ⟨t.work, t.init.outcome totalMemory, found⟩ = some s' ∧
      Alike (l.turn settings totalMemory t) s' := by
  have hread := alike_readResults h settings t.count
  cases hreal : t.work.isReal with
  | false =>
    refine ⟨s.cleanResults settings, ?_, ?_⟩
    · rw [State.iterate, if_neg (by rw [hreal]; exact Bool.false_ne_true)]
    · rw [turn_of_isReal_eq_false settings totalMemory l hreal]
      exact hread
  | true =>
    rcases turn_cases settings totalMemory l hreal with
      ⟨hheader, hturn⟩ | ⟨hheader, hepoch, hturn⟩ | ⟨hheader, hepoch, hinit, hturn⟩ |
        ⟨-, -, -, hturn⟩
    · rw [hturn] at hexist ⊢
      have hqueue := queue_ne_nil hexist
      refine alike_of_switchJob index found hreal ?_ (hread.queue.mpr hqueue) hqueue rfl
      rw [State.switchJob, if_pos (hread.header.trans hheader)]
    · rw [hturn] at hexist ⊢
      have hqueue := queue_ne_nil hexist
      obtain ⟨s₁, hs₁, hq₁⟩ :=
        State.exists_setJob settings t.work (hread.queue.mpr hqueue)
      refine alike_of_switchJob index found hreal ?_ hq₁ hqueue rfl
      rw [State.switchJob, if_neg (fun heq => hheader (hread.header.symm.trans heq)),
        if_pos (hread.epoch.trans hepoch)]
      exact hs₁
    · rw [hturn] at hexist ⊢
      have hqueue := queue_ne_nil hexist
      obtain ⟨s₀, hs₀, hq₀⟩ := exists_initEpoch_of_queue t.init hread.queue hinit hqueue
      obtain ⟨s₁, hs₁, hq₁⟩ := State.exists_setJob settings t.work hq₀
      refine alike_of_switchJob index found hreal ?_ hq₁ hqueue rfl
      rw [State.switchJob, if_neg (fun heq => hheader (hread.header.symm.trans heq)),
        if_neg (fun heq => hepoch (hread.epoch.symm.trans heq)), hs₀]
      exact hs₁
    · rw [hturn] at hrunning
      cases hrunning

end Loop
end Fpga
end FpgaEthash
