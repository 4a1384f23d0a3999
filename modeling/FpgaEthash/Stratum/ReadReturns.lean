import FpgaEthash.Pool.Manager
import FpgaEthash.Stratum.Receive
import FpgaEthash.Stratum.SessionPresent

/-!
# When a read comes back

The read loop catches what derives from `std::exception`, around `processResponse`.
Three things get past it.

* The JSON reader is called before the `try`.
* A job of an eth-proxy pool whose block number is out of range is refused by
  `throw new std::exception()`.  What is thrown is a pointer.  Neither the handler that
  stands next to it nor the one in the loop catches it (`thrown_exceptionPointer_iff`).
* The job is dispatched after the loop, and the handler of the manager divides by its
  boundary.

`read_returns_iff` says that there is no fourth.
-/

namespace FpgaEthash
namespace Stratum

open Devcore Ethcore Jsoncpp Pool Throwing Talk Runs Framing

variable {μ : Type}

/-! ## The exception that is thrown by pointer -/

/-- The block number at `prmIdx` is out of range. -/
def OversizedBlock (lib : Library) (jPrm : Value) (prmIdx : ℕ) : Prop :=
  prmIdx < jPrm.size ∧ ∃ text v, prmText lib jPrm prmIdx = .ok text ∧
    text.take 2 = "0x".toList ∧ stoull text = .ok v ∧ maxBlock < toBlock v

/-- The message is a job of an eth-proxy pool, its texts are readable, and its block number
is out of range. -/
def Oversized (lib : Library) (mode : Option StratumMode) (obj : Value.Members) : Prop :=
  mode = some .ethproxy ∧ (jobParams mode obj).1.isArray = true ∧
    (jobParams mode obj).1.empty = false ∧
    (∃ job, prmText lib (jobParams mode obj).1 0 = .ok job) ∧
    (∃ texts, jobTexts lib (jobParams mode obj).1 (jobParams mode obj).2 = .ok texts) ∧
    OversizedBlock lib (jobParams mode obj).1 ((jobParams mode obj).2 + 3)

section Pointer

variable {s : Exchange μ}

theorem thrown_ofJson_bind_pointer {α β : Type} {y : Except Jsoncpp.Exception α}
    {k : α → Talk μ β} :
    thrown (ofJson y >>= k) s = some .exceptionPointer ↔
      ∃ a, y = .ok a ∧ thrown (k a) s = some .exceptionPointer :=
  thrown_ofExcept_bind_eq (f := Abort.json) (e := .exceptionPointer) fun _ => nofun

theorem thrown_ofStd_bind_pointer {α β : Type} {y : Except StdException α} {k : α → Talk μ β} :
    thrown (ofStd y >>= k) s = some .exceptionPointer ↔
      ∃ a, y = .ok a ∧ thrown (k a) s = some .exceptionPointer :=
  thrown_ofExcept_bind_eq (f := Abort.std) (e := .exceptionPointer) fun _ => nofun

/-- The hashes of a job throw exceptions of their own. -/
theorem thrown_onCurrent_bind_ne (x : EStateM StdException WorkPackage Unit) (now : TimePoint) :
    thrown (onCurrent x >>= fun _ => jobProcessed now) s ≠ some .exceptionPointer := by
  cases hx : x s.current with
  | ok u current =>
    have hrun : onCurrent x s = .ok () { s with current } := by rw [onCurrent, hx]
    rw [thrown, bind_of_ok hrun]
    intro hpointer
    cases hpointer
  | error e current =>
    have hrun : onCurrent x s = .error (.std e) { s with current } := by rw [onCurrent, hx]
    rw [thrown, bind_of_error hrun]
    intro hpointer
    cases hpointer

theorem thrown_readBlock_iff (lib : Library) (mode : Option StratumMode) (jPrm : Value)
    (prmIdx : ℕ) :
    thrown (readBlock lib mode jPrm prmIdx) s = some .exceptionPointer ↔
      mode = some .ethproxy ∧ OversizedBlock lib jPrm prmIdx := by
  unfold readBlock OversizedBlock
  by_cases hsize : mode = some .ethproxy ∧ prmIdx < jPrm.size
  · rw [if_pos hsize, thrown_ofJson_bind_pointer, and_iff_right hsize.1, and_iff_right hsize.2]
    refine exists_congr fun text => ?_
    by_cases htext : text.take 2 = "0x".toList
    · rw [if_pos htext]
      cases stoull text with
      | error e => exact ⟨fun h => (nomatch h.2), fun ⟨_, _, _, hv, _⟩ => nomatch hv⟩
      | ok v =>
        let s' : Exchange μ := { s with current := { s.current with block := toBlock v } }
        show _ ∧ thrown (if maxBlock < toBlock v then throw .exceptionPointer else pure () :
          Talk μ Unit) s' = _ ↔ _
        by_cases hbig : maxBlock < toBlock v
        · rw [if_pos hbig]
          exact ⟨fun h => ⟨v, h.1, htext, rfl, hbig⟩, fun ⟨_, h, _⟩ => ⟨h, rfl⟩⟩
        · rw [if_neg hbig]
          refine ⟨fun h => (nomatch h.2), ?_⟩
          rintro ⟨v', _, _, hv, hbig'⟩
          obtain rfl := Except.ok.inj hv
          exact absurd hbig' hbig
    · rw [if_neg htext]
      exact ⟨fun h => (nomatch h.2), fun ⟨_, _, h, _⟩ => absurd h htext⟩
  · rw [if_neg hsize]
    exact ⟨nofun, fun h => absurd ⟨h.1, h.2.1⟩ hsize⟩

theorem thrown_readJob0_iff (lib : Library) (now : TimePoint) (mode : Option StratumMode)
    (jPrm : Value) (prmIdx : ℕ) :
    thrown (readJob0 lib now mode jPrm prmIdx) s = some .exceptionPointer ↔
      (∃ texts, jobTexts lib jPrm prmIdx = .ok texts) ∧ mode = some .ethproxy ∧
        OversizedBlock lib jPrm (prmIdx + 3) := by
  unfold readJob0
  rw [thrown_ofJson_bind_pointer, ← exists_and_right]
  refine exists_congr fun texts => and_congr_right fun _ => ?_
  rw [← thrown_readBlock_iff (s := { s with current := { s.current with block := -1 } })]
  exact thrown_bind_eq fun _ t => thrown_onCurrent_bind_ne (s := t) _ now

theorem thrown_readJob1_ne (lib : Library) (now : TimePoint) (session : Session)
    (jPrm : Value) : thrown (readJob1 lib now session jPrm) s ≠ some .exceptionPointer := by
  unfold readJob1
  rw [ne_eq, thrown_ofJson_bind_pointer]
  rintro ⟨seed, -, h⟩
  rw [thrown_ofJson_bind_pointer] at h
  obtain ⟨header, -, h⟩ := h
  split_ifs at h
  · exact thrown_onCurrent_bind_ne _ now h
  · exact nomatch h

theorem thrown_readJob_iff (lib : Library) (now : TimePoint) (mode : Option StratumMode)
    (session : Session) (jPrm : Value) (prmIdx : ℕ) :
    thrown (readJob lib now mode session jPrm prmIdx) s = some .exceptionPointer ↔
      (∃ job, prmText lib jPrm 0 = .ok job) ∧ (∃ texts, jobTexts lib jPrm prmIdx = .ok texts) ∧
        mode = some .ethproxy ∧ OversizedBlock lib jPrm (prmIdx + 3) := by
  unfold readJob
  rw [thrown_ofJson_bind_pointer, ← exists_and_right]
  refine exists_congr fun job => and_congr_right fun _ => ?_
  let s' : Exchange μ := { s with current := { s.current with job } }
  rw [← thrown_readJob0_iff lib now (s := s')]
  show thrown (if mode = some .ethereumstratum then readJob1 lib now session jPrm
    else readJob0 lib now mode jPrm prmIdx) s' = _ ↔ _
  by_cases hmode : mode = some .ethereumstratum
  · rw [if_pos hmode, thrown_readJob0_iff, hmode]
    exact ⟨fun h => absurd h (thrown_readJob1_ne lib now session jPrm), fun h => nomatch h.2.1⟩
  · rw [if_neg hmode]

theorem thrown_onNotify_iff (lib : Library) (now : TimePoint) (obj : Value.Members) :
    thrown (onNotify lib now obj) s = some .exceptionPointer ↔
      s.isSubscribed = true ∧ s.newjobprocessed = false ∧ Oversized lib s.mode obj := by
  unfold Exchange.isSubscribed
  cases hs : s.session with
  | none =>
    rw [thrown_of_ok (onNotify_of_none lib now obj hs)]
    simp
  | some session =>
    rw [thrown, onNotify_of_session lib now obj hs]
    by_cases hskip : (!session.subscribed || s.newjobprocessed) = true
    · rw [if_pos hskip]
      constructor
      · intro hpointer
        cases hpointer
      · rintro ⟨hsubscribed, hnew, -⟩
        rw [Option.any_some] at hsubscribed
        rw [hsubscribed, hnew] at hskip
        cases hskip
    · rw [if_neg hskip]
      rw [Bool.not_eq_true, Bool.or_eq_false_iff, Bool.not_eq_false'] at hskip
      rw [Option.any_some, and_iff_right hskip.1, and_iff_right hskip.2, Oversized]
      by_cases harray : ((jobParams s.mode obj).1.isArray && !(jobParams s.mode obj).1.empty) =
          true
      · rw [if_pos harray]
        rw [Bool.and_eq_true, Bool.not_eq_true'] at harray
        rw [and_iff_right harray.1, and_iff_right harray.2]
        refine (thrown_readJob_iff lib now s.mode session.toSession _ _).trans ?_
        constructor
        · rintro ⟨hjob, htexts, hmode, hblock⟩
          exact ⟨hmode, hjob, htexts, hblock⟩
        · rintro ⟨hmode, hjob, htexts, hblock⟩
          exact ⟨hjob, htexts, hmode, hblock⟩
      · rw [if_neg harray]
        constructor
        · intro hpointer
          cases hpointer
        · rintro ⟨-, hisArray, hempty, -⟩
          rw [hisArray, hempty] at harray
          exact absurd rfl harray

theorem thrown_readJob2_ne (lib : Library) (now : TimePoint) (session : Session)
    (jPrm : Value) : thrown (readJob2 lib now session jPrm) s ≠ some .exceptionPointer := by
  intro h
  obtain ⟨job, -, h⟩ := thrown_ofJson_bind_pointer.mp h
  obtain ⟨text, -, h⟩ := thrown_ofJson_bind_pointer.mp h
  obtain ⟨block, -, h⟩ := thrown_ofStd_bind_pointer.mp h
  obtain ⟨header, -, h⟩ := thrown_ofJson_bind_pointer.mp h
  exact thrown_onCurrent_bind_ne _ now h

theorem thrown_onNotify2_ne (lib : Library) (now : TimePoint) (obj : Value.Members) :
    thrown (onNotify2 lib now obj) s ≠ some .exceptionPointer := by
  cases hs : s.session with
  | none =>
    rw [thrown_of_ok (onNotify2_of_none lib now obj hs)]
    simp
  | some session =>
    rw [thrown, onNotify2_of_session lib now obj hs]
    split_ifs
    · intro hpointer
      cases hpointer
    · intro hpointer
      cases hpointer
    · exact thrown_readJob2_ne lib now session.toSession _

/-- **The messages that throw the pointer.** -/
theorem thrown_exceptionPointer_iff (lib : Library) (h : Handlers μ) (now : TimePoint)
    (m : Value) :
    thrown (processResponse lib h now m) s = some .exceptionPointer ↔
      ∃ obj, jobMessage? lib s m = some obj ∧ s.isSubscribed = true ∧
        s.newjobprocessed = false ∧ Oversized lib s.mode obj := by
  cases hm : jobMessage? lib s m with
  | none =>
    constructor
    · intro hthrown
      exact absurd rfl ((processResponse_quiet lib h now hm).2 _ hthrown).1
    · rintro ⟨_, hobj, -⟩
      cases hobj
  | some obj =>
    rw [thrown, processResponse_of_job lib h now hm]
    show thrown (if s.mode = some .ethereumstratum2 then _ else _ : Talk μ Unit) s = _ ↔ _
    by_cases hmode : s.mode = some .ethereumstratum2
    · rw [if_pos hmode]
      constructor
      · exact fun h => absurd h (thrown_onNotify2_ne lib now obj)
      · rintro ⟨_, -, -, -, hover⟩
        rw [Oversized, hmode] at hover
        cases hover.1
    · rw [if_neg hmode, thrown_onNotify_iff]
      constructor
      · exact fun h => ⟨obj, rfl, h⟩
      · rintro ⟨_, hobj, h⟩
        obtain rfl := Option.some.inj hobj
        exact h

end Pointer

/-! ## One line -/

/-- The line is blank, or the reader comes back from it, and not with a job that is thrown
away by pointer. -/
def Harmless (lib : Library) (i : Inbox μ) (line : StdString) : Prop :=
  trim line = [] ∨ ∃ v, lib.parse (trim line) = .ok v ∧ ∀ m obj, v = some m →
    jobMessage? lib i.exchange m = some obj → i.exchange.isSubscribed = true →
      i.exchange.newjobprocessed = false → ¬ Oversized lib i.exchange.mode obj

section Lines

variable (lib : Library) (h : Handlers μ) (now : TimePoint)

/-- What leaves the `try` is the pointer, where there is a session. -/
theorem thrown_processGuarded_iff (m : Value) {i : Inbox μ}
    (hlive : i.exchange.session.isSome = true) :
    thrown (processGuarded lib h now m) i = none ↔
      thrown (processResponse lib h now m) i.exchange ≠ some .exceptionPointer := by
  cases hp : processResponse lib h now m i.exchange with
  | ok u exchange =>
    rw [thrown, processGuarded, hp, thrown_of_ok hp]
    simp
  | error e exchange =>
    rw [thrown, processGuarded, hp, thrown_of_error hp]
    cases e with
    | std e | json e | overflowError | exceptionPointer => simp [Abort.isStdException]
    | nullSession =>
      have hnull := (thrown_nullSession_iff lib h now i.exchange m).mp (thrown_of_error hp)
      rw [hnull.1] at hlive
      cases hlive

/-- **The lines that a read comes back from.** -/
theorem thrown_processLine_iff (line : StdString) {i : Inbox μ}
    (hlive : i.exchange.session.isSome = true) :
    thrown (processLine lib h now line) i = none ↔ Harmless lib i line := by
  unfold processLine Harmless
  by_cases hblank : trim line = []
  · rw [if_pos hblank]
    exact ⟨fun _ => .inl hblank, fun _ => rfl⟩
  · rw [if_neg hblank, or_iff_right hblank]
    let i' : Inbox μ := { i with parsed := i.parsed ++ [trim line] }
    show thrown (ofExcept Abort.json (lib.parse (trim line)) >>= _) i' = none ↔ _
    cases lib.parse (trim line) with
    | error e => exact ⟨nofun, fun ⟨_, hv, _⟩ => nomatch hv⟩
    | ok v =>
      cases v with
      | none => exact ⟨fun _ => ⟨none, rfl, fun _ _ hv => nomatch hv⟩, fun _ => rfl⟩
      | some m =>
        refine (thrown_processGuarded_iff lib h now m (i := i') hlive).trans ?_
        rw [ne_eq, thrown_exceptionPointer_iff]
        constructor
        · rintro hno
          refine ⟨some m, rfl, fun m' obj hm' hobj hsubscribed hnew hover => hno ?_⟩
          obtain rfl := Option.some.inj hm'
          exact ⟨obj, hobj, hsubscribed, hnew, hover⟩
        · rintro ⟨v, hv, hno⟩ ⟨obj, hobj, hsubscribed, hnew, hover⟩
          obtain rfl := Except.ok.inj hv
          exact hno m obj rfl hobj hsubscribed hnew hover

theorem bound_processLine (line : StdString) (i : Inbox μ) :
    Bound i.exchange (leaves (processLine lib h now line) i).exchange := by
  rw [leaves_processLine]
  cases message? lib line with
  | none => exact .refl _
  | some m => exact processResponse_bound lib h now

theorem bound_processLines (lines : List StdString) (i : Inbox μ) :
    Bound i.exchange (leaves (processLines lib h now lines) i).exchange := by
  induction lines generalizing i with
  | nil => exact .refl _
  | cons line lines ih =>
    have hline := bound_processLine lib h now line i
    rw [processLines_cons]
    cases hp : processLine lib h now line i with
    | error e i' =>
      rw [leaves_of_error hp] at hline
      rw [leaves_of_error (bind_of_error hp)]
      exact hline
    | ok u i' =>
      rw [leaves_of_ok hp] at hline
      rw [leaves, bind_of_ok hp]
      exact hline.trans (ih i')

theorem bound_dispatch (i : Inbox μ) : Bound i.exchange (leaves (dispatch h) i).exchange := by
  unfold leaves dispatch
  by_cases hnew : i.exchange.newjobprocessed
  · rw [if_pos hnew]
    cases h.onWorkReceived i.exchange.conn i.exchange.current i.exchange.owner with
    | ok u owner | error e owner => exact .of_conn_eq rfl id le_rfl
  · rw [if_neg hnew]
    exact .refl _

end Lines

/-! ## A read -/

section Read

variable (lib : Library) (h : Handlers μ) (now : TimePoint)

/-- The lines of a transmission in a session. -/
theorem thrown_processLines_iff (lines : List StdString) {i : Inbox μ}
    (hlive : i.exchange.session.isSome = true) :
    thrown (processLines lib h now lines) i = none ↔
      StepsMeet (walk (processLine lib h now)) (Harmless lib) i lines := by
  refine (thrown_forM_eq_none_iff lines i).trans ?_
  induction lines generalizing i with
  | nil => exact Iff.rfl
  | cons line lines ih =>
    refine forall₂_congr fun i' hi' => and_congr (thrown_processLine_iff lib h now line hlive) ?_
    obtain rfl := Option.some.inj hi'
    exact ih ((bound_processLine lib h now line i).session hlive)

/-- What a read keeps. -/
theorem bound_onRecvSocketDataCompleted (rx : StdString) (r : Receiver μ) :
    Bound r.exchange (leaves (onRecvSocketDataCompleted lib h now rx) r).exchange := by
  have hstart : Bound r.exchange (start r.toInbox).exchange := .of_conn_eq rfl id le_rfl
  have hlines := hstart.trans (bound_processLines lib h now (r.lines rx) (start r.toInbox))
  rw [toInbox_onRecvSocketDataCompleted]
  show Bound _ (leaves (processLines lib h now (r.lines rx) >>= fun _ => dispatch h)
    (start r.toInbox)).exchange
  cases hp : processLines lib h now (r.lines rx) (start r.toInbox) with
  | error e i =>
    rw [leaves_of_error hp] at hlines
    rw [leaves_of_error (bind_of_error hp)]
    exact hlines
  | ok u i =>
    rw [leaves_of_ok hp] at hlines
    rw [leaves, bind_of_ok hp]
    exact hlines.trans (bound_dispatch h i)

/-- A read comes back when its lines do and the handler of new work does. -/
theorem thrown_onRecvSocketDataCompleted_iff (rx : StdString) (r : Receiver μ) :
    thrown (onRecvSocketDataCompleted lib h now rx) r = none ↔
      thrown (processLines lib h now (r.lines rx)) (start r.toInbox) = none ∧
        thrown (dispatch h) (leaves (processLines lib h now (r.lines rx)) (start r.toInbox)) =
          none := by
  have hread := onRecvSocketDataCompleted_eq lib h now rx r
  have hwhole : thrown (onRecvSocketDataCompleted lib h now rx) r =
      thrown (processTransmission lib h now (r.lines rx)) r.toInbox := by
    cases hp : processTransmission lib h now (r.lines rx) r.toInbox with
    | ok u i =>
      rw [hp] at hread
      rw [thrown_of_ok hread, thrown_of_ok hp]
    | error e i =>
      rw [hp] at hread
      obtain ⟨m, hm⟩ := hread
      rw [thrown_of_error hm, thrown_of_error hp]
  rw [hwhole]
  show thrown (processLines lib h now _ >>= fun _ => dispatch h) (start r.toInbox) = none ↔ _
  cases hp : processLines lib h now (r.lines rx) (start r.toInbox) with
  | ok u i =>
    rw [thrown, bind_of_ok hp, thrown_of_ok hp, leaves_of_ok hp, and_iff_right rfl]
    rfl
  | error e i =>
    rw [thrown_of_error (bind_of_error hp), thrown_of_error hp]
    simp

theorem thrown_dispatch_iff (i : Inbox μ) :
    thrown (dispatch h) i = none ↔ (i.exchange.newjobprocessed = true →
      thrown (h.onWorkReceived i.exchange.conn i.exchange.current) i.exchange.owner = none) := by
  unfold thrown dispatch
  by_cases hnew : i.exchange.newjobprocessed = true
  · rw [if_pos hnew, forall_prop_of_true hnew]
    cases h.onWorkReceived i.exchange.conn i.exchange.current i.exchange.owner <;> exact Iff.rfl
  · rw [if_neg hnew]
    exact ⟨fun _ h => absurd h hnew, fun _ => rfl⟩

end Read

/-- **When a read comes back**, in a session, whatever was left of the last one: the lines
that it completes are harmless in the state in which their turn comes, and the job that they
leave to dispatch, if there is one, does not make the manager show a boundary of zero. -/
theorem read_returns_iff (lib : Library) (findEpochNumber : H256 → ℤ) (now : TimePoint)
    (rx : StdString) (r : Receiver PoolManager)
    (hlive : r.exchange.session.isSome = true) :
    thrown (onRecvSocketDataCompleted lib (PoolManager.handlers findEpochNumber) now rx) r =
        none ↔
      StepsMeet (walk (processLine lib (PoolManager.handlers findEpochNumber) now))
          (Harmless lib) (start r.toInbox) (r.lines rx) ∧
        ∀ i, run (walk (processLine lib (PoolManager.handlers findEpochNumber) now))
            (start r.toInbox) (r.lines rx) = some i →
          i.exchange.newjobprocessed = true →
            ¬ i.exchange.owner.ShowsZero i.exchange.conn i.exchange.current := by
  rw [thrown_onRecvSocketDataCompleted_iff, thrown_dispatch_iff,
    ← thrown_processLines_iff lib _ now _ (i := start r.toInbox) hlive]
  refine and_congr_right fun hlines => ?_
  have hrun := run_walk _ _ hlines
  rw [show run _ _ _ = _ from hrun]
  simp only [Option.some.injEq, forall_eq']
  exact forall_congr' fun _ => PoolManager.thrown_onWorkReceived_iff findEpochNumber _ _ _

/-- A job as an eth-proxy pool sends it: its text, and what the reader makes of it. -/
def proxyJob (block : StdString) : StdString × Value :=
  ("\x7b\"id\":0,\"result\":[\"0x01\",\"0x02\",\"0x03\",\"".toList ++ block ++ "\"]\x7d".toList,
    .object [("id".toList, .int 0), ("result".toList, .array [.string "0x01".toList,
      .string "0x02".toList, .string "0x03".toList, .string block])])

/-- A reader that knows some texts. -/
def readerOf (texts : List (StdString × Value)) : Library :=
  { (default : Library) with parse := fun text => .ok (texts.lookup text) }

/-- A client that is subscribed to an eth-proxy pool. -/
def proxyReceiver : Receiver PoolManager where
  exchange :=
    { conn := { version := 1, stratumMode := 1, stratumModeConfirmed := true }
      session := some { subscribed := true, authorized := true, lastTxStamp := 0 }
      pleas := ⟨0, 0, []⟩
      owner := {} }

/-- The largest block number that is believed: the read comes back, so its line is
harmless. -/
theorem read_returns_maxBlock :
    let job := proxyJob "0x9660180".toList
    proxyReceiver.exchange.session.isSome = true ∧
      StepsMeet (walk (processLine (readerOf [job]) (PoolManager.handlers fun _ => -1) 0))
        (Harmless (readerOf [job])) (start proxyReceiver.toInbox)
        (proxyReceiver.lines (job.1 ++ ['\n'])) := by
  intro job
  have hreturns : thrown (onRecvSocketDataCompleted (readerOf [job])
      (PoolManager.handlers fun _ => -1) 0 (job.1 ++ ['\n'])) proxyReceiver = none := by
    decide +kernel
  exact ⟨rfl, ((read_returns_iff (readerOf [job]) _ 0 _ proxyReceiver rfl).mp hreturns).1⟩

/-- One more: the read is left by the pointer. -/
theorem read_left_by_pointer :
    let job := proxyJob "0x9660181".toList
    proxyReceiver.exchange.session.isSome = true ∧
      thrown (onRecvSocketDataCompleted (readerOf [job]) (PoolManager.handlers fun _ => -1) 0
        (job.1 ++ ['\n'])) proxyReceiver = some .exceptionPointer := by
  decide +kernel

end Stratum
end FpgaEthash
