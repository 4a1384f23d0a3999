import FpgaEthash.Computation.Runs
import FpgaEthash.Ethcore.WorkPackage

/-!
# The work loop of the FPGA miner

`FPGAMiner::workLoop` keeps the kernel busy: a turn reads the results of the last
kernel run, launches the next run, and reports the results while that one works.
What it reports are the results of one run, with the work of that run, although the
job, the header buffer and the start nonce may have been replaced in between.

The queue is in order and its buffers hold what was written to them, so each call on
the queue is a change of state where it stands.  A kernel run appends what it finds
to the search buffer and counts it, from whatever the count was; each slot of the
buffer remembers, for the proof only, the run that wrote it.

* `iterate` is one turn.  It is `none` when the loop is left, and when `m_queue[0]` is
  used while `m_queue` is empty.
* `LoopInv` is what holds between two turns: the slots below the count were written
  by a run with the header and the start nonce of `current`, and the header buffer
  still holds that header.
* `loopInv_iterate` is the step, and `solutions_paired` the result for every run.
-/

namespace FpgaEthash
namespace Fpga

open Devcore Ethcore Runs

/-! ## The search buffer -/

/-- `c_maxSearchResults`. -/
abbrev maxSearchResults : ℕ := 4

/-- An entry of `SearchResults::rslt`, without its padding. -/
structure SearchResult where
  gid : BitVec 32
  mix : Vector (BitVec 32) 8
  deriving DecidableEq

/-- The `mix` of a result as a hash: its words, least significant byte first. -/
def SearchResult.mixHash (r : SearchResult) : H256 :=
  Vector.ofFn fun i : Fin 32 =>
    ((r.mix.get ⟨i / 4, by omega⟩) >>> (8 * (i.val % 4))).setWidth 8

/-- What a kernel run was launched with: the header buffer and the arguments. -/
structure Launch where
  header : H256
  target : BitVec 64
  startNonce : BitVec 64
  deriving DecidableEq

/-- An entry of the search buffer, with the run that wrote it. -/
structure Slot where
  result : SearchResult
  producer : Option Launch := none
  deriving DecidableEq

/-- `SearchResults`, on the device. -/
structure SearchBuffer where
  rslt : Vector Slot maxSearchResults
  count : BitVec 32
  hashCount : BitVec 32
  abort : BitVec 32
  deriving DecidableEq

namespace SearchBuffer

/-- The number of results that the loop reads. -/
def resultCount (b : SearchBuffer) : ℕ := min b.count.toNat maxSearchResults

/-- `zerox3` written over the count, or over the count and the flags after it. -/
def zero (b : SearchBuffer) (noExit : Bool) : SearchBuffer :=
  if noExit then { b with count := 0 } else { b with count := 0, hashCount := 0, abort := 0 }

/-- One result of a kernel run: it takes the next slot, if there is one. -/
def store (run : Launch) (b : SearchBuffer) (r : SearchResult) : SearchBuffer :=
  { b with
    rslt := b.rslt.setIfInBounds b.count.toNat ⟨r, some run⟩
    count := b.count + 1 }

/-- What a kernel run makes of the buffer: any results, any number of them. -/
def afterRun (run : Launch) (found : List SearchResult) (b : SearchBuffer) : SearchBuffer :=
  found.foldl (store run) b

end SearchBuffer

/-! ## One turn of the loop -/

/-- The members of `FPGASettings` that the loop reads. -/
structure FPGASettings where
  noExit : Bool := false
  globalWorkSize : BitVec 32 := 0
  deriving DecidableEq, Repr

/-- What is passed to `submitProof`, beside the result it was made from. -/
structure Submission where
  solution : Solution
  slot : Slot
  deriving DecidableEq

/-- The variables of the loop and the device it drives.  `queue` says that `m_queue`
has its element, `header` is the content of `m_header[0]`, `target` is argument 6 of
the kernel, and `submitted` what went to `submitProof` so far. -/
structure State where
  queue : Bool := false
  header : H256
  searchBuffer : SearchBuffer
  target : BitVec 64
  lastNonce : BitVec 64 := 0
  startNonce : BitVec 64 := 0
  current : WorkPackage := {}
  submitted : List Submission := []

/-- How a call of `initEpoch` may end.  With too little memory nothing is touched, a
DAG buffer that cannot be created leaves a new queue, and a call that succeeds leaves
a new header buffer as well, with any content.  In the first three cases `initEpoch`
returns `true`. -/
inductive InitEpoch where
  | insufficientMemory
  | dagBufferFailed
  | ready (header : H256)
  | failed

/-- What a turn meets: the package that `work` returns, how `initEpoch` ends if it is
called, and what the kernel finds if it is launched. -/
structure Turn where
  work : WorkPackage
  initEpoch : InitEpoch
  found : List SearchResult

namespace State

/-- The results that a turn reads. -/
def results (s : State) : List Slot :=
  if s.queue then s.searchBuffer.rslt.toList.take s.searchBuffer.resultCount else []

/-- The reads at the top of a turn leave the count at zero. -/
def cleanResults (settings : FPGASettings) (s : State) : State :=
  if s.queue then
    if settings.noExit then
      if s.searchBuffer.count = 0 then s
      else { s with searchBuffer := s.searchBuffer.zero true }
    else { s with searchBuffer := s.searchBuffer.zero false }
  else s

/-- `initEpoch`; `none` if the loop is left. -/
def initEpoch (s : State) : InitEpoch → Option State
  | .insufficientMemory => some s
  | .dagBufferFailed => some { s with queue := true }
  | .ready header => some { s with queue := true, header }
  | .failed => none

/-- The upper 64 bits of the boundary. -/
def upper64 (boundary : H256) : BitVec 64 :=
  BitVec.ofNat 64 (fromBigEndian boundary.toList >>> 192)

/-- The writes and the arguments for a new header. -/
def setJob (settings : FPGASettings) (w : WorkPackage) (s : State) : Option State :=
  if s.queue then
    some
      { s with
        startNonce := w.startNonce
        header := w.header
        searchBuffer := s.searchBuffer.zero settings.noExit
        target := upper64 w.boundary }
  else none

/-- The block under `current.header != w.header`. -/
def switchJob (settings : FPGASettings) (w : WorkPackage) (init : InitEpoch) (s : State) :
    Option State :=
  if s.current.header = w.header then some s
  else if s.current.epoch = w.epoch then s.setJob settings w
  else (s.initEpoch init).bind (setJob settings w)

/-- What the next kernel run is launched with. -/
def nextRun (s : State) : Launch := ⟨s.header, s.target, s.startNonce⟩

/-- Run the kernel. -/
def launch (found : List SearchResult) (s : State) : Option State :=
  if s.queue then
    some { s with searchBuffer := s.searchBuffer.afterRun s.nextRun found }
  else none

/-- Report one result. -/
def report (index : ℕ) (s : State) (slot : Slot) : State :=
  if s.current.startNonce + slot.result.gid.setWidth 64 = s.lastNonce then s
  else
    { s with
      lastNonce := s.current.startNonce + slot.result.gid.setWidth 64
      submitted := s.submitted ++
        [⟨⟨s.current.startNonce + slot.result.gid.setWidth 64, slot.result.mixHash, s.current,
          index⟩, slot⟩] }

/-- The kernel now processes the newest work. -/
def advance (settings : FPGASettings) (w : WorkPackage) (s : State) : State :=
  { s with
    current := { w with startNonce := s.startNonce }
    startNonce := s.startNonce + settings.globalWorkSize.setWidth 64 }

/-- One turn of the loop. -/
def iterate (settings : FPGASettings) (index : ℕ) (s : State) (t : Turn) : Option State :=
  if t.work.isReal then do
    let s' ← (s.cleanResults settings).switchJob settings t.work t.initEpoch
    let s' ← s'.launch t.found
    some ((s.results.foldl (report index) s').advance settings t.work)
  else some (s.cleanResults settings)

/-- The loop as it starts: no queue yet, no current work, and a device that holds
anything. -/
def start (header : H256) (searchBuffer : SearchBuffer) (target : BitVec 64) : State :=
  { header, searchBuffer, target }

end State

/-! ## Kernel runs -/

namespace SearchBuffer

/-- **A run that starts at count zero writes every slot below its count.**  The
invariant is on the number `m` of results stored so far, which may pass the range of
the count. -/
theorem producer_afterRun {run : Launch} (found : List SearchResult) {b : SearchBuffer} {m : ℕ}
    (hcount : b.count = BitVec.ofNat 32 m)
    (hb : ∀ j (hj : j < maxSearchResults), j < m → (b.rslt.get ⟨j, hj⟩).producer = some run) :
    (b.afterRun run found).count = BitVec.ofNat 32 (m + found.length) ∧
      ∀ j (hj : j < maxSearchResults), j < m + found.length →
        ((b.afterRun run found).rslt.get ⟨j, hj⟩).producer = some run := by
  induction found generalizing b m with
  | nil => exact ⟨hcount, hb⟩
  | cons r found ih =>
    have hnext : (b.store run r).count = BitVec.ofNat 32 (m + 1) := by
      rw [store, hcount, BitVec.ofNat_add]
      rfl
    have hslots : ∀ j (hj : j < maxSearchResults), j < m + 1 →
        ((b.store run r).rslt.get ⟨j, hj⟩).producer = some run := by
      intro j hj hlt
      have hget : (b.store run r).rslt.get ⟨j, hj⟩ =
          if b.count.toNat = j then ⟨r, some run⟩ else b.rslt.get ⟨j, hj⟩ :=
        Vector.getElem_setIfInBounds hj
      rw [hget]
      by_cases hj' : b.count.toNat = j
      · rw [if_pos hj']
      · rw [if_neg hj']
        refine hb j hj ?_
        rw [hcount, BitVec.toNat_ofNat] at hj'
        have hj4 : j < 4 := hj
        omega
    have hrest := ih hnext hslots
    rw [Nat.add_assoc, Nat.add_comm 1] at hrest
    exact hrest

theorem zero_count (b : SearchBuffer) (noExit : Bool) : (b.zero noExit).count = 0 := by
  unfold zero
  split_ifs <;> rfl

/-- What is read after a run that started at count zero was written by that run. -/
theorem producer_of_mem_take {run : Launch} {found : List SearchResult} {b : SearchBuffer}
    (hcount : b.count = 0) {slot : Slot}
    (h : slot ∈ (b.afterRun run found).rslt.toList.take (b.afterRun run found).resultCount) :
    slot.producer = some run := by
  have hnone : ∀ j (hj : j < maxSearchResults), j < 0 →
      (b.rslt.get ⟨j, hj⟩).producer = some run := fun j _ hj => absurd hj (Nat.not_lt_zero j)
  obtain ⟨hlen, hslots⟩ := producer_afterRun found hcount hnone
  obtain ⟨j, hj, rfl⟩ := List.mem_take_iff_getElem.mp h
  rw [resultCount, hlen, BitVec.toNat_ofNat, Vector.length_toList] at hj
  exact hslots j (by omega) (by omega)

end SearchBuffer

/-! ## What the parts of a turn leave -/

/-- The result was found by a run with the header and the start nonce of this work. -/
def Slot.OfWork (slot : Slot) (w : WorkPackage) : Prop :=
  ∃ run, slot.producer = some run ∧ run.header = w.header ∧ run.startNonce = w.startNonce

/-- The solution carries the nonce that its run hashed, and the header it was launched
with. -/
def Submission.Paired (sub : Submission) : Prop :=
  ∃ run, sub.slot.producer = some run ∧
    sub.solution.nonce = run.startNonce + sub.slot.result.gid.setWidth 64 ∧
    sub.solution.work.header = run.header

namespace State

/-- Every solution submitted so far is paired. -/
def SolutionsPaired (s : State) : Prop := ∀ sub ∈ s.submitted, sub.Paired

/-- What holds between two turns. -/
structure LoopInv (s : State) : Prop where
  paired : s.SolutionsPaired
  results : ∀ slot ∈ s.results, slot.OfWork s.current
  header : s.queue = true → s.header = s.current.header

section Parts

variable (settings : FPGASettings) (s : State)

/-- The reads change the search buffer only, and leave its count at zero. -/
theorem cleanResults_spec :
    ∃ b, s.cleanResults settings = { s with searchBuffer := b } ∧
      (s.queue = true → b.count = 0) := by
  unfold cleanResults
  split_ifs with hq hexit hcount
  · exact ⟨s.searchBuffer, rfl, fun _ => hcount⟩
  · exact ⟨_, rfl, fun _ => SearchBuffer.zero_count ..⟩
  · exact ⟨_, rfl, fun _ => SearchBuffer.zero_count ..⟩
  · exact ⟨s.searchBuffer, rfl, fun h => absurd h hq⟩

theorem results_eq_nil {s : State} (h : s.queue = true → s.searchBuffer.count = 0) :
    s.results = [] := by
  unfold results
  split_ifs with hq
  · rw [SearchBuffer.resultCount, h hq]
    rfl
  · rfl

end Parts

theorem mem_take_of_mem_results {s : State} {slot : Slot} (h : slot ∈ s.results) :
    slot ∈ s.searchBuffer.rslt.toList.take s.searchBuffer.resultCount := by
  unfold results at h
  split_ifs at h
  · exact h
  · exact absurd h List.not_mem_nil

/-- A new header is written to the buffer, and the count is zeroed. -/
theorem setJob_eq_some {settings : FPGASettings} {w : WorkPackage} {s s' : State}
    (h : s.setJob settings w = some s') :
    s' =
      { s with
        startNonce := w.startNonce
        header := w.header
        searchBuffer := s.searchBuffer.zero settings.noExit
        target := upper64 w.boundary } := by
  unfold setJob at h
  split_ifs at h
  exact (Option.some.inj h).symm

theorem initEpoch_frame {init : InitEpoch} {s s' : State} (h : s.initEpoch init = some s') :
    ∃ queue header, s' = { s with queue, header } := by
  cases init with
  | insufficientMemory => exact ⟨s.queue, s.header, (Option.some.inj h).symm⟩
  | dagBufferFailed => exact ⟨true, s.header, (Option.some.inj h).symm⟩
  | ready header => exact ⟨true, header, (Option.some.inj h).symm⟩
  | failed => cases h

/-- Switching to a job leaves the current one and the solutions alone. -/
theorem switchJob_frame {settings : FPGASettings} {w : WorkPackage} {init : InitEpoch}
    {s s' : State} (h : s.switchJob settings w init = some s') :
    ∃ queue header searchBuffer target startNonce,
      s' = { s with queue, header, searchBuffer, target, startNonce } := by
  unfold switchJob at h
  split_ifs at h with hsame hepoch
  · exact ⟨_, _, _, _, _, (Option.some.inj h).symm⟩
  · exact ⟨_, _, _, _, _, setJob_eq_some h⟩
  · obtain ⟨s₁, hs₁, h⟩ := Option.bind_eq_some_iff.mp h
    obtain ⟨queue, header, rfl⟩ := initEpoch_frame hs₁
    obtain rfl := setJob_eq_some h
    exact ⟨_, _, _, _, _, rfl⟩

/-- **Before a launch** the header buffer holds the header of the package, and the
count is zero, whichever way the turn came. -/
theorem switchJob_spec {settings : FPGASettings} {w : WorkPackage} {init : InitEpoch}
    {s s' : State} (hheader : s.queue = true → s.header = s.current.header)
    (hcount : s.queue = true → s.searchBuffer.count = 0)
    (h : s.switchJob settings w init = some s') :
    s'.current = s.current ∧ s'.submitted = s.submitted ∧
      (s'.queue = true → s'.header = w.header ∧ s'.searchBuffer.count = 0) := by
  have hset : ∀ s₁ : State, s₁.setJob settings w = some s' →
      s'.header = w.header ∧ s'.searchBuffer.count = 0 := by
    intro s₁ h₁
    obtain rfl := setJob_eq_some h₁
    exact ⟨rfl, SearchBuffer.zero_count ..⟩
  obtain ⟨queue, header, searchBuffer, target, startNonce, hframe⟩ := switchJob_frame h
  refine ⟨by rw [hframe], by rw [hframe], fun hq => ?_⟩
  unfold switchJob at h
  split_ifs at h with hsame hepoch
  · obtain rfl := Option.some.inj h
    exact ⟨(hheader hq).trans hsame, hcount hq⟩
  · exact hset s h
  · obtain ⟨s₁, -, h₁⟩ := Option.bind_eq_some_iff.mp h
    exact hset s₁ h₁

/-- Reporting changes what was submitted, and nothing that a launch reads. -/
theorem report_foldl_frame (index : ℕ) (slots : List Slot) (s : State) :
    ∃ lastNonce submitted,
      slots.foldl (report index) s = { s with lastNonce, submitted } := by
  induction slots generalizing s with
  | nil => exact ⟨_, _, rfl⟩
  | cons slot slots ih =>
    obtain ⟨lastNonce, submitted, h⟩ := ih (s.report index slot)
    refine ⟨lastNonce, submitted, ?_⟩
    rw [List.foldl_cons, h]
    unfold report
    split_ifs <;> rfl

theorem exists_setJob (settings : FPGASettings) {s : State} (w : WorkPackage)
    (hqueue : s.queue = true) : ∃ s', s.setJob settings w = some s' ∧ s'.queue = true := by
  rw [setJob, if_pos hqueue]
  exact ⟨_, rfl, hqueue⟩

/-- A turn with real work, taken apart. -/
theorem iterate_eq_some_iff {settings : FPGASettings} {index : ℕ} {s s' : State} {t : Turn}
    (hreal : t.work.isReal = true) :
    s.iterate settings index t = some s' ↔
      ∃ s₁, (s.cleanResults settings).switchJob settings t.work t.initEpoch = some s₁ ∧
        s₁.queue = true ∧
        (s.results.foldl (report index)
          { s₁ with searchBuffer := s₁.searchBuffer.afterRun s₁.nextRun t.found }).advance
            settings t.work = s' := by
  rw [iterate, if_pos hreal]
  simp [launch, Option.bind_eq_some_iff]

/-- It comes to its end from a state that has a queue. -/
theorem exists_iterate {settings : FPGASettings} {s s₁ : State} (index : ℕ) {t : Turn}
    (hreal : t.work.isReal = true)
    (hswitch : (s.cleanResults settings).switchJob settings t.work t.initEpoch = some s₁)
    (hqueue : s₁.queue = true) :
    ∃ s', s.iterate settings index t = some s' ∧ s'.queue = true ∧
      s'.current.header = t.work.header ∧ s'.current.epoch = t.work.epoch := by
  refine ⟨_, (iterate_eq_some_iff hreal).mpr ⟨s₁, hswitch, hqueue, rfl⟩, ?_⟩
  obtain ⟨lastNonce, submitted, hreport⟩ := report_foldl_frame index s.results
    { s₁ with searchBuffer := s₁.searchBuffer.afterRun s₁.nextRun t.found }
  rw [hreport]
  exact ⟨hqueue, rfl, rfl⟩

/-- **Reporting one result** of the current work keeps the solutions paired. -/
theorem solutionsPaired_report {index : ℕ} {s : State} {slot : Slot} (h : s.SolutionsPaired)
    (hslot : slot.OfWork s.current) : (s.report index slot).SolutionsPaired := by
  unfold report
  split_ifs
  · exact h
  · intro sub hsub
    rcases List.mem_append.mp hsub with hold | hnew
    · exact h sub hold
    · obtain ⟨run, hrun, hheader, hstart⟩ := hslot
      rw [List.mem_singleton.mp hnew]
      exact ⟨run, hrun, by rw [hstart], hheader.symm⟩

theorem solutionsPaired_foldl_report (index : ℕ) {slots : List Slot} {s : State}
    (h : s.SolutionsPaired) (hslots : ∀ slot ∈ slots, slot.OfWork s.current) :
    (slots.foldl (report index) s).SolutionsPaired := by
  induction slots generalizing s with
  | nil => exact h
  | cons slot slots ih =>
    have hcur : (s.report index slot).current = s.current := by
      unfold report
      split_ifs <;> rfl
    refine ih (solutionsPaired_report h (hslots slot List.mem_cons_self)) fun slot' hslot' => ?_
    rw [hcur]
    exact hslots slot' (List.mem_cons_of_mem slot hslot')

/-! ## Every run of the loop -/

theorem iterate_of_void {settings : FPGASettings} {index : ℕ} {s s' : State} {t : Turn}
    (hvoid : t.work.isReal = false) (h : s.iterate settings index t = some s') :
    s' = s.cleanResults settings := by
  unfold iterate at h
  rw [hvoid, if_neg Bool.false_ne_true] at h
  exact (Option.some.inj h).symm

/-- **One turn keeps the invariant.** -/
theorem loopInv_iterate {settings : FPGASettings} {index : ℕ} {s s' : State} {t : Turn}
    (h : s.LoopInv) (hs' : s.iterate settings index t = some s') : s'.LoopInv := by
  obtain ⟨b, hclean, hcount⟩ := s.cleanResults_spec settings
  cases hreal : t.work.isReal with
  | true =>
    obtain ⟨s₁, hs₁, hqueue, rfl⟩ := (iterate_eq_some_iff hreal).mp hs'
    rw [hclean] at hs₁
    obtain ⟨hcur₁, hsub₁, hready⟩ := switchJob_spec (s := { s with searchBuffer := b })
      h.header hcount hs₁
    obtain ⟨hheader₁, hcount₁⟩ := hready hqueue
    have hpaired := solutionsPaired_foldl_report index
      (s := { s₁ with searchBuffer := s₁.searchBuffer.afterRun s₁.nextRun t.found })
      (fun sub hsub => h.paired sub (hsub₁ ▸ hsub))
      (fun slot hslot => by rw [hcur₁]; exact h.results slot hslot)
    obtain ⟨lastNonce, submitted, hreport⟩ := report_foldl_frame index s.results
      { s₁ with searchBuffer := s₁.searchBuffer.afterRun s₁.nextRun t.found }
    rw [hreport] at hpaired ⊢
    refine ⟨hpaired, fun slot hslot => ?_, fun _ => hheader₁⟩
    -- what the next turn reads was written by the run just launched
    exact ⟨s₁.nextRun,
      SearchBuffer.producer_of_mem_take hcount₁ (mem_take_of_mem_results hslot), hheader₁, rfl⟩
  | false =>
    obtain rfl := iterate_of_void hreal hs'
    rw [hclean]
    refine ⟨h.paired, fun slot hslot => ?_, h.header⟩
    rw [results_eq_nil (s := { s with searchBuffer := b }) hcount] at hslot
    exact absurd hslot List.not_mem_nil

/-- **Solutions are paired with their runs.**  In every run of the loop, for every
sequence of packages, of outcomes of `initEpoch` and of results that the kernel finds:
each solution passed to `submitProof` has the start nonce of the kernel run that wrote
the result, plus its `gid`, for its nonce, and the header of that run for its header. -/
theorem solutions_paired (settings : FPGASettings) (index : ℕ) (header : H256)
    (searchBuffer : SearchBuffer) (target : BitVec 64) (turns : List Turn) :
    Along (iterate settings index) SolutionsPaired (start header searchBuffer target) turns := by
  have hstart : (start header searchBuffer target).LoopInv :=
    ⟨fun sub hsub => absurd hsub List.not_mem_nil,
      fun slot hslot => absurd hslot List.not_mem_nil, fun h => absurd h Bool.false_ne_true⟩
  exact Along.mono (fun s hs => hs.paired)
    (along_of_invariant (fun s t s' hs hs' => loopInv_iterate hs hs') turns _ hstart)

/-- Two turns on one package: the result of the first run, whose `gid` is 3, is
reported in the second turn, after the start nonce has moved on. -/
example :
    let w : WorkPackage := { header := Vector.replicate 32 1, epoch := 0, startNonce := 16 }
    let found : SearchResult := ⟨3, Vector.replicate 8 0⟩
    let device : SearchBuffer := ⟨Vector.replicate 4 ⟨found, none⟩, 0, 0, 0⟩
    (run (iterate { globalWorkSize := 8 } 0) (start (FixedHash.zero 32) device 0)
      [⟨w, .ready (FixedHash.zero 32), [found]⟩, ⟨w, .failed, []⟩]).map
        (fun s => (s.startNonce, s.submitted.map fun sub => sub.solution.nonce)) =
      some (32, [19]) := by
  decide

end State
end Fpga
end FpgaEthash
