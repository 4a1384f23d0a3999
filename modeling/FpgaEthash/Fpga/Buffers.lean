import FpgaEthash.Fpga.Device

/-!
# The buffers that the loop uses

Whatever `initEpoch_internal` meets, it uses only what it has just created
(`ends_initEpochInternal`).  The loop relies on more.  It reads and writes a search
buffer, which nobody creates; it writes the 32 bytes of the header to a buffer of
`sizeof(1)` bytes; and where `initEpoch` returns early with `true`, or is not called
since a package of epoch -1 comes first, the context and the queue may be missing as
well.

So the first real package is too much for a new miner, whatever the device does, unless
`initEpoch` returns `false` for it and the loop ends.  `buffersFit_iff` says so for every
run; `firstJob_out_of_order` lists what is wrong in the first turn when every call
succeeds.
-/

namespace FpgaEthash
namespace Fpga

open Devcore Ethcore Runs Throwing

namespace Trace

/-- Every access so far was in order. -/
def Sound (t : Trace) : Prop := ∀ p ∈ t.accesses, p.2.InOrder p.1

theorem sound_touch {t : Trace} {as : List Access} :
    (t.touch as).Sound ↔ t.Sound ∧ ∀ a ∈ as, a.InOrder t.device := by
  unfold Sound touch
  rw [List.forall_mem_append, List.forall_mem_map]

end Trace

/-! ## What `initEpoch` does to the vectors -/

namespace InitRun

variable (r : InitRun) {t : Trace} {c : InitCall} {b : Bool} {Q : Unit → Trace → Prop}
  {R : Bool → Trace → Prop}

theorem ends_returnIf {c : Bool} (hQ : c = false → Q () t) (hR : c = true → R b t) :
    Ends (returnIf c b) t Q R := by
  cases c with
  | true => exact hR rfl
  | false => exact hQ rfl

theorem ends_call (hQ : Q () t) (hR : R b t) : Ends (r.call c b) t Q R :=
  ends_returnIf (fun _ => hQ) fun _ => hR

theorem ends_call_bind {k : Unit → EStateM Bool Trace Unit} (hR : R b t)
    (hk : Ends (k ()) t Q R) : Ends (r.call c b >>= k) t Q R := by
  refine (r.ends_call (Q := fun _ u => u = t) rfl hR).bind ?_
  rintro _ _ rfl
  exact hk

/-- The accesses so far were in order, and the search buffers are the given ones. -/
def Tidy (sb : List ℕ) (t : Trace) : Prop := t.Sound ∧ t.device.searchBuffer = sb

theorem tidy_touch {sb : List ℕ} {as : List Access} (h : Tidy sb t)
    (has : ∀ a ∈ as, a.InOrder t.device) : Tidy sb (t.touch as) :=
  ⟨Trace.sound_touch.mpr ⟨h.1, has⟩, h.2⟩

/-- Accesses that are in order keep the trace tidy. -/
theorem ends_use_bind {sb : List ℕ} {as : List Access} {k : Unit → EStateM Bool Trace Unit}
    (h : Tidy sb t) (has : ∀ a ∈ as, a.InOrder t.device)
    (hk : Tidy sb (t.touch as) → Ends (k ()) (t.touch as) Q R) : Ends (use as >>= k) t Q R :=
  ends_modify_bind (hk (tidy_touch h has))

theorem inOrder_context {d : Device} (hd : d.context = [()]) :
    ∀ a ∈ [Access.element .context 0], a.InOrder d := by
  intro a ha
  obtain rfl := List.mem_singleton.mp ha
  simp [Access.InOrder, Device.size, hd]

/-- The trace is tidy, and the context and the queue are there. -/
def Ready (sb : List ℕ) (t : Trace) : Prop :=
  Tidy sb t ∧ t.device.context = [()] ∧ t.device.queue = [()]

theorem ends_createQueue {sb : List ℕ} (h : Tidy sb t) :
    Ends r.createQueue t (fun _ => Ready sb) fun _ => Tidy sb := by
  unfold createQueue
  refine ends_modify_bind (r.ends_call_bind h ?_)
  refine ends_modify_bind (ends_use_bind h (inOrder_context rfl) fun h => ?_)
  refine r.ends_call_bind h (ends_modify_bind ?_)
  refine ends_use_bind h (inOrder_context rfl) fun h => ?_
  exact r.ends_call ⟨h, rfl, rfl⟩ h

theorem ends_createDag {sb : List ℕ} (h : Ready sb t) :
    Ends r.createDag t (fun _ => Ready sb) fun _ => Tidy sb := by
  obtain ⟨h, hcontext, hqueue⟩ := h
  unfold createDag
  refine ends_modify_bind (ends_use_bind h (inOrder_context hcontext) fun h => ?_)
  refine r.ends_call_bind h (ends_modify_bind ?_)
  refine ends_use_bind h (inOrder_context hcontext) fun h => ?_
  exact r.ends_call_bind h ⟨h, hcontext, hqueue⟩

theorem ends_createLightOnHost {sb : List ℕ} (h : Ready sb t) :
    Ends r.createLightOnHost t (fun _ => Ready sb) fun _ => Tidy sb := by
  obtain ⟨h, hcontext, hqueue⟩ := h
  unfold createLightOnHost
  split_ifs
  · refine ends_use_bind h (inOrder_context hcontext) fun h => ?_
    exact r.ends_call ⟨h, hcontext, hqueue⟩ h
  · exact ⟨h, hcontext, hqueue⟩

theorem ends_createLight {sb : List ℕ} (h : Ready sb t) :
    Ends r.createLight t (fun _ => Ready sb) fun _ => Tidy sb := by
  obtain ⟨h, hcontext, hqueue⟩ := h
  unfold createLight
  refine ends_modify_bind (ends_use_bind h (inOrder_context hcontext) fun h => ?_)
  refine r.ends_call_bind h ((r.ends_createLightOnHost ⟨h, hcontext, hqueue⟩).bind ?_)
  rintro _ u ⟨h, hcontext, hqueue⟩
  refine ends_modify_bind (r.ends_call_bind h ?_)
  refine ends_use_bind h ?_ fun h => ?_
  · -- the whole light cache goes to a buffer of its size
    intro a ha
    simp only [List.mem_cons, List.not_mem_nil, or_false] at ha
    rcases ha with rfl | rfl
    · simp [Access.InOrder, Device.size, Trace.onDevice, hqueue]
    · simp [Access.InOrder, Device.size, Trace.onDevice]
  · exact r.ends_call_bind h ⟨h, hcontext, hqueue⟩

theorem ends_createHeader {sb : List ℕ} (h : Ready sb t) :
    Ends r.createHeader t (fun _ => Tidy sb) fun _ => Tidy sb := by
  obtain ⟨h, hcontext, -⟩ := h
  unfold createHeader
  refine ends_modify_bind (ends_use_bind h (inOrder_context hcontext) fun h => ?_)
  exact r.ends_call_bind h h

/-- **`initEpoch_internal` uses only what it has created**, however it ends, and it leaves
the search buffers alone. -/
theorem ends_initEpochInternal (totalMemory : ℕ) {sb : List ℕ} (h : Tidy sb t) :
    Ends (r.initEpochInternal totalMemory) t (fun _ => Tidy sb) fun _ => Tidy sb := by
  unfold initEpochInternal
  refine (ends_returnIf (Q := fun _ => Tidy sb) (fun _ => h) fun _ => h).bind fun _ t h => ?_
  refine (ends_returnIf (Q := fun _ => Tidy sb) (fun _ => h) fun _ => h).bind fun _ t h => ?_
  refine (r.ends_createQueue h).bind fun _ t h => ?_
  refine (r.ends_createDag h).bind fun _ t h => ?_
  refine (r.ends_createLight h).bind fun _ t h => ?_
  exact r.ends_createHeader h

theorem tidy_initEpoch (totalMemory : ℕ) {sb : List ℕ} (h : Tidy sb t) :
    Tidy sb (r.initEpoch totalMemory t).2 := by
  unfold initEpoch
  split_ifs
  · exact h
  · have hends := r.ends_initEpochInternal totalMemory h
    cases hrun : r.initEpochInternal totalMemory t with
    | ok a u => exact (ends_of_ok hrun).mp hends
    | error b u => exact (ends_of_error hrun).mp hends

end InitRun

/-! ## Every run of the loop -/

namespace Loop

variable {settings : FPGASettings} {totalMemory : ℕ} {l l' : Loop} {t : DeviceTurn}

/-- Every element that was indexed existed, and every range lay within its buffer. -/
def BuffersFit (l : Loop) : Prop := l.trace.Sound

/-- Nothing has been created yet, and there is no current job. -/
def Untouched (l : Loop) : Prop := l.trace.device = {} ∧ l.current = {}

/-- The turns that do no harm to an untouched loop: those with a void package, and those
whose call of `initEpoch` makes the loop end. -/
def Harmless (totalMemory : ℕ) (l : Loop) (t : DeviceTurn) : Prop :=
  t.work.isReal = true →
    l.current.epoch ≠ t.work.epoch ∧ t.init.outcome totalMemory = .failed

/-- The accesses for a new header need a search buffer. -/
theorem not_sound_jobAccesses {t : Trace} {as : List Access} (hsb : t.device.searchBuffer = [])
    (has : .element .searchBuffer 0 ∈ as) : ¬ (t.touch as).Sound := by
  intro h
  have hsearch := (Trace.sound_touch.mp h).2 _ has
  simp [Access.InOrder, Device.size, hsb] at hsearch

theorem sound_finish {t : Trace} (h : t.Sound) : (finish t).Sound := by
  unfold finish
  split_ifs with hqueue
  · exact h
  · refine Trace.sound_touch.mpr ⟨h, fun a ha => ?_⟩
    obtain rfl := List.mem_singleton.mp ha
    obtain ⟨q, queue, hq⟩ := List.exists_cons_of_ne_nil hqueue
    simp [Access.InOrder, Device.size, hq]

theorem readResults_of_untouched (hl : l.Untouched) (count : ℕ) :
    readResults settings count l.trace = l.trace := by
  unfold readResults
  rw [hl.1, if_pos rfl]

/-- A void package leaves an untouched loop as it is. -/
theorem turn_of_void (hl : l.Untouched) (hvoid : t.work.isReal = false) :
    l.turn settings totalMemory t = l := by
  rw [turn_of_isReal_eq_false settings totalMemory l hvoid, readResults_of_untouched hl]

/-- **A real package in an untouched loop**: the loop ends in order if `initEpoch` says
so, and otherwise something is out of order. -/
theorem turn_of_real (hl : l.Untouched) (hfit : l.BuffersFit) (hreal : t.work.isReal = true) :
    ((l.turn settings totalMemory t).BuffersFit ↔ l.Harmless totalMemory t) ∧
      ((l.turn settings totalMemory t).BuffersFit →
        (l.turn settings totalMemory t).running = false) := by
  have hsearch : Access.element .searchBuffer 0 ∈ jobAccesses settings := by
    simp [jobAccesses]
  have htidy : InitRun.Tidy [] (readResults settings t.count l.trace) := by
    rw [readResults_of_untouched hl]
    exact ⟨hfit, by rw [hl.1]⟩
  have hinit := t.init.tidy_initEpoch totalMemory htidy
  have hfails := t.init.initEpoch_fst_eq_false_iff totalMemory
    (readResults settings t.count l.trace)
  rcases turn_cases settings totalMemory l hreal with
    ⟨hheader, -⟩ | ⟨-, hepoch, hturn⟩ | ⟨-, -, htrue, hturn⟩ | ⟨-, hepoch, hfalse, hturn⟩
  · -- there is no current job yet
    rw [hl.2] at hheader
    exact absurd hheader.symm (bne_iff_ne.mp hreal)
  · -- without `initEpoch` there is not even a queue
    have hbad := not_sound_jobAccesses htidy.2 (List.mem_append_left launchAccesses hsearch)
    rw [hturn]
    exact ⟨iff_of_false hbad fun h => (h hreal).1 hepoch, fun h => absurd h hbad⟩
  · have hbad := not_sound_jobAccesses hinit.2
      (List.mem_cons_of_mem (.element .context 0) (List.mem_append_left launchAccesses hsearch))
    rw [hturn]
    refine ⟨iff_of_false hbad fun h => ?_, fun h => absurd h hbad⟩
    exact Bool.false_ne_true ((hfails.mpr (h hreal).2).symm.trans htrue)
  · rw [hturn]
    exact ⟨iff_of_true (sound_finish hinit.1) fun _ => ⟨hepoch, hfails.mp hfalse⟩, fun _ => rfl⟩

/-- **The buffers exist and fit**, in every run of the loop of a new miner, exactly when
no turn has real work, except one whose `initEpoch` ends the loop. -/
theorem buffersFit_iff (settings : FPGASettings) (totalMemory : ℕ) (turns : List DeviceTurn) :
    Along (step settings totalMemory) BuffersFit {} turns ↔
      StepsMeet (step settings totalMemory) (Harmless totalMemory) {} turns := by
  refine along_iff_stepsMeet_while (I := fun l : Loop => l.running = true → l.Untouched)
    ?_ ?_ turns {} (fun _ => ⟨rfl, rfl⟩) fun p hp => absurd hp List.not_mem_nil
  · intro l t l' hI hP hP' hs hrunning
    obtain ⟨hrun, ⟨⟩⟩ := Option.ite_none_right_eq_some.mp hs
    cases hreal : t.work.isReal with
    | false =>
      rw [turn_of_void (hI hrun) hreal]
      exact hI hrun
    | true =>
      have hleft := (turn_of_real (hI hrun) hP hreal).2 hP'
      exact absurd (hleft.symm.trans hrunning) Bool.false_ne_true
  · intro l t l' hI hP hs
    obtain ⟨hrun, ⟨⟩⟩ := Option.ite_none_right_eq_some.mp hs
    cases hreal : t.work.isReal with
    | false =>
      rw [turn_of_void (hI hrun) hreal]
      refine iff_of_true hP fun htrue => ?_
      rw [hreal] at htrue
      cases htrue
    | true => exact (turn_of_real (hI hrun) hP hreal).1

/-- A first job, and a device on which every call succeeds. -/
def firstJob : DeviceTurn where
  count := 0
  work := { header := Vector.replicate 32 1, boundary := Vector.replicate 32 1, epoch := 0 }
  init := { epochContext := ⟨0, 262139, 16776896, [], 8388593, 1073739904⟩ }

/-- The accesses of the first turn that are out of order: 32 bytes are written to a header
buffer of four, and there is no search buffer. -/
theorem firstJob_out_of_order :
    ((turn {} 4294967296 {} firstJob).trace.accesses.filter
      fun p => !p.2.InOrder p.1).map Prod.snd =
        [.range .header 0 0 32, .range .searchBuffer 0 256 12, .element .searchBuffer 0] := by
  decide +kernel

end Loop
end Fpga
end FpgaEthash
