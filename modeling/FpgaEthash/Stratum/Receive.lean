import FpgaEthash.Computation.Framing
import FpgaEthash.Stratum.MessageFrame
import Mathlib.Data.List.DropRight

/-!
# Receiving

`onRecvSocketDataCompleted` appends what was read to `m_message`, and takes one line
after another off it.  A line that is not blank goes to the JSON reader, and what the
reader makes of it to `processResponse`, inside a `try` that catches
`std::exception`.  The reader itself is called before the `try`.  When all lines are
done the job is dispatched, if there was one.

The loop is `drain`: it runs while there is a newline, for at most as many turns as the
message has characters.  `drain_eq` says that these are enough, and that the loop is a
walk over the frames of the message.  The result for a whole run of reads is
`lines_of_run`: however the stream is cut, its lines reach the reader.
-/

namespace FpgaEthash
namespace Stratum

open Devcore Ethcore Jsoncpp Pool Throwing Talk Runs Framing

variable {μ : Type}

/-! ## The members -/

/-- The exchange, the lines handed to the JSON reader so far, and the packages handed to
`m_onWorkReceived`. -/
structure Inbox (μ : Type) where
  exchange : Exchange μ
  parsed : List StdString := []
  handed : List WorkPackage := []

/-- The inbox and `m_message`, the internal message string buffer. -/
structure Receiver (μ : Type) extends Inbox μ where
  message : StdString := []

/-- The lines that a read completes. -/
def Receiver.lines (r : Receiver μ) (rx : StdString) : List StdString :=
  frames '\n' (r.message ++ rx)

/-! ## One line -/

/-- `boost::trim`. -/
def trim (s : StdString) : StdString := (s.dropWhile isSpace).rdropWhile isSpace

/-- `processResponse` inside the `try`. -/
def processGuarded (lib : Library) (h : Handlers μ) (now : TimePoint) (jMsg : Value) :
    EStateM Abort (Inbox μ) Unit := fun i =>
  match processResponse lib h now jMsg i.exchange with
  | .ok _ exchange => .ok () { i with exchange }
  | .error e exchange =>
    if e.isStdException then .ok () { i with exchange } else .error e { i with exchange }

/-- A line that is not blank. -/
def processText (lib : Library) (h : Handlers μ) (now : TimePoint) (text : StdString) :
    EStateM Abort (Inbox μ) Unit := do
  modify fun i => { i with parsed := i.parsed ++ [text] }
  let jMsg ← ofExcept Abort.json (lib.parse text)
  match jMsg with
  | none => pure ()
  | some jMsg => processGuarded lib h now jMsg

/-- One line of the transmission. -/
def processLine (lib : Library) (h : Handlers μ) (now : TimePoint) (line : StdString) :
    EStateM Abort (Inbox μ) Unit :=
  if trim line = [] then pure () else processText lib h now (trim line)

/-- There is a new job: dispatch it. -/
def dispatch (h : Handlers μ) : EStateM Abort (Inbox μ) Unit := fun i =>
  if i.exchange.newjobprocessed then
    match h.onWorkReceived i.exchange.conn i.exchange.current i.exchange.owner with
    | .ok _ owner => .ok ()
        { i with
          exchange := { i.exchange with owner }
          handed := i.handed ++ [i.exchange.current] }
    | .error e owner => .error e
        { i with
          exchange := { i.exchange with owner }
          handed := i.handed ++ [i.exchange.current] }
  else .ok () i

/-! ## One transmission -/

/-- A part of the function that does not look at `m_message`. -/
def onInbox (x : EStateM Abort (Inbox μ) Unit) : EStateM Abort (Receiver μ) Unit := fun r =>
  match x r.toInbox with
  | .ok _ toInbox => .ok () { r with toInbox }
  | .error e toInbox => .error e { r with toInbox }

/-- Process each line in the transmission. -/
def drain (lib : Library) (h : Handlers μ) (now : TimePoint) :
    ℕ → EStateM Abort (Receiver μ) Unit
  | 0 => pure ()
  | fuel + 1 => do
      let r ← get
      let offset := r.message.idxOf '\n'
      if offset < r.message.length then do
        onInbox (processLine lib h now (r.message.take offset))
        modify fun r => { r with message := r.message.drop (offset + 1) }
        drain lib h now fuel
      else pure ()

/-- `onRecvSocketDataCompleted`, when the read has succeeded. -/
def onRecvSocketDataCompleted (lib : Library) (h : Handlers μ) (now : TimePoint)
    (rx : StdString) : EStateM Abort (Receiver μ) Unit := do
  modify fun r =>
    { r with
      message := r.message ++ rx
      exchange := { r.exchange with newjobprocessed := false } }
  let r ← get
  drain lib h now r.message.length
  onInbox (dispatch h)

/-! ## The loop as a walk over the lines -/

/-- The lines of a transmission, one after another. -/
def processLines (lib : Library) (h : Handlers μ) (now : TimePoint) (lines : List StdString) :
    EStateM Abort (Inbox μ) Unit :=
  lines.forM (processLine lib h now)

/-- No job of the transmission has been processed yet. -/
def start (i : Inbox μ) : Inbox μ :=
  { i with exchange := { i.exchange with newjobprocessed := false } }

/-- A transmission, as the list of its lines. -/
def processTransmission (lib : Library) (h : Handlers μ) (now : TimePoint)
    (lines : List StdString) : EStateM Abort (Inbox μ) Unit := do
  modify start
  processLines lib h now lines
  dispatch h

section Loop

variable (lib : Library) (h : Handlers μ) (now : TimePoint)

theorem processLines_nil : processLines lib h now [] = pure () := rfl

theorem processLines_cons (line : StdString) (lines : List StdString) :
    processLines lib h now (line :: lines) =
      processLine lib h now line >>= fun _ => processLines lib h now lines := rfl

theorem onInbox_of_ok {x : EStateM Abort (Inbox μ) Unit} {r : Receiver μ} {i : Inbox μ}
    (hx : x r.toInbox = .ok () i) : onInbox x r = .ok () ⟨i, r.message⟩ := by
  rw [onInbox, hx]

theorem onInbox_of_error {x : EStateM Abort (Inbox μ) Unit} {r : Receiver μ} {i : Inbox μ}
    {e : Abort} (hx : x r.toInbox = .error e i) : onInbox x r = .error e ⟨i, r.message⟩ := by
  rw [onInbox, hx]

/-- A turn of the loop that finds no newline. -/
theorem drain_of_notMem {r : Receiver μ} (hmem : '\n' ∉ r.message) (fuel : ℕ) :
    drain lib h now fuel r = .ok () r := by
  cases fuel with
  | zero => rfl
  | succ fuel =>
    show (if r.message.idxOf '\n' < r.message.length then _ else _ :
      EStateM Abort (Receiver μ) Unit) r = _
    rw [if_neg (by rw [List.idxOf_lt_length_iff]; exact hmem)]
    rfl

/-- A turn of the loop that finds one. -/
theorem drain_cons {xs t : StdString} (hxs : '\n' ∉ xs) (i : Inbox μ) (fuel : ℕ) :
    drain lib h now (fuel + 1) ⟨i, xs ++ '\n' :: t⟩ =
      (onInbox (processLine lib h now xs) >>= fun _ =>
        modify (fun r => { r with message := r.message.drop (xs.length + 1) }) >>= fun _ =>
          drain lib h now fuel) ⟨i, xs ++ '\n' :: t⟩ := by
  have hoffset : (xs ++ '\n' :: t).idxOf '\n' = xs.length := by
    rw [List.idxOf_append_of_notMem hxs, List.idxOf_cons_self, Nat.add_zero]
  show (if (xs ++ '\n' :: t).idxOf '\n' < (xs ++ '\n' :: t).length then _ else _ :
    EStateM Abort (Receiver μ) Unit) _ = _
  rw [hoffset, if_pos (by simp), List.take_left']
  rfl

/-- **The loop walks over the lines**, and leaves what follows the last newline.  If a line
is left by an exception, so is the loop. -/
theorem drain_eq (message : StdString) :
    ∀ (fuel : ℕ) (i : Inbox μ), message.length ≤ fuel →
      match processLines lib h now (frames '\n' message) i with
      | .ok _ i' => drain lib h now fuel ⟨i, message⟩ = .ok () ⟨i', rest '\n' message⟩
      | .error e i' => ∃ m, drain lib h now fuel ⟨i, message⟩ = .error e ⟨i', m⟩ := by
  induction message using framing_induction (d := '\n') with
  | hrest s hs =>
    intro fuel i _
    rw [frames_of_notMem hs, rest_of_notMem hs, processLines_nil]
    exact drain_of_notMem lib h now hs fuel
  | hcons xs t hxs ih =>
    intro fuel i hfuel
    rw [List.length_append, List.length_cons] at hfuel
    obtain ⟨fuel, rfl⟩ : ∃ n, fuel = n + 1 := ⟨fuel - 1, by omega⟩
    rw [frames_cons hxs, rest_cons hxs, processLines_cons, drain_cons lib h now hxs]
    cases hline : processLine lib h now xs i with
    | ok u i' =>
      rw [bind_of_ok hline, bind_of_ok (onInbox_of_ok hline)]
      have hdrop : (xs ++ '\n' :: t).drop (xs.length + 1) = t := by
        simp
      have hmodify : (modify (fun r : Receiver μ =>
          { r with message := r.message.drop (xs.length + 1) }) >>= fun _ =>
            drain lib h now fuel) ⟨i', xs ++ '\n' :: t⟩ = drain lib h now fuel ⟨i', t⟩ := by
        show drain lib h now fuel ⟨i', (xs ++ '\n' :: t).drop (xs.length + 1)⟩ = _
        rw [hdrop]
      rw [hmodify]
      exact ih fuel i' (by omega)
    | error e i' =>
      rw [bind_of_error hline, bind_of_error (onInbox_of_error hline)]
      exact ⟨_, rfl⟩

/-- **A read is the transmission of its lines.** -/
theorem onRecvSocketDataCompleted_eq (rx : StdString) (r : Receiver μ) :
    match processTransmission lib h now (r.lines rx) r.toInbox with
    | .ok _ i => onRecvSocketDataCompleted lib h now rx r =
        .ok () ⟨i, rest '\n' (r.message ++ rx)⟩
    | .error e i => ∃ m, onRecvSocketDataCompleted lib h now rx r = .error e ⟨i, m⟩ := by
  have hstart : onRecvSocketDataCompleted lib h now rx r =
      (drain lib h now (r.message ++ rx).length >>= fun _ => onInbox (dispatch h))
        ⟨start r.toInbox, r.message ++ rx⟩ := rfl
  have hlines : processTransmission lib h now (r.lines rx) r.toInbox =
      (processLines lib h now (frames '\n' (r.message ++ rx)) >>= fun _ => dispatch h)
        (start r.toInbox) := rfl
  have hdrain := drain_eq lib h now (r.message ++ rx) _ (start r.toInbox) le_rfl
  rw [hstart, hlines]
  cases hp : processLines lib h now (frames '\n' (r.message ++ rx)) (start r.toInbox) with
  | error e i =>
    rw [hp] at hdrain
    obtain ⟨m, hm⟩ := hdrain
    rw [bind_of_error hp, bind_of_error hm]
    exact ⟨m, rfl⟩
  | ok u i =>
    rw [hp] at hdrain
    rw [bind_of_ok hp, bind_of_ok hdrain]
    cases hd : dispatch h i with
    | ok u i' => exact onInbox_of_ok hd
    | error e i' => exact ⟨_, onInbox_of_error hd⟩

theorem toInbox_onRecvSocketDataCompleted (rx : StdString) (r : Receiver μ) :
    (leaves (onRecvSocketDataCompleted lib h now rx) r).toInbox =
      leaves (processTransmission lib h now (r.lines rx)) r.toInbox := by
  have hread := onRecvSocketDataCompleted_eq lib h now rx r
  cases hp : processTransmission lib h now (r.lines rx) r.toInbox with
  | ok u i =>
    rw [hp] at hread
    rw [leaves_of_ok hread, leaves_of_ok hp]
  | error e i =>
    rw [hp] at hread
    obtain ⟨m, hm⟩ := hread
    rw [leaves_of_error hm, leaves_of_error hp]

end Loop

/-! ## The lines that reach the reader -/

/-- The lines of a list, trimmed, without the blank ones. -/
def texts (lines : List StdString) : List StdString := (lines.map trim).filter (· ≠ [])

section Texts

variable (lib : Library) (h : Handlers μ) (now : TimePoint)

theorem texts_cons (line : StdString) (lines : List StdString) :
    texts (line :: lines) = texts [line] ++ texts lines := by
  rw [texts, List.map_cons, ← List.singleton_append, List.filter_append]
  rfl

theorem texts_append (lines lines' : List StdString) :
    texts (lines ++ lines') = texts lines ++ texts lines' := by
  rw [texts, List.map_append, List.filter_append]
  rfl

/-- What leaves the `try`, leaves it with what `processResponse` has done. -/
theorem leaves_processGuarded (jMsg : Value) (i : Inbox μ) :
    leaves (processGuarded lib h now jMsg) i =
      { i with exchange := leaves (processResponse lib h now jMsg) i.exchange } := by
  unfold leaves processGuarded
  cases processResponse lib h now jMsg i.exchange with
  | ok u exchange => rfl
  | error e exchange =>
    dsimp only
    split_ifs <;> rfl

/-- The message that the reader makes of a line. -/
def message? (lib : Library) (line : StdString) : Option Value :=
  if trim line = [] then none
  else
    match lib.parse (trim line) with
    | .ok jMsg => jMsg
    | .error _ => none

/-- **What a line leaves.**  It reaches the reader whatever becomes of it, unless it is
blank. -/
theorem leaves_processLine (line : StdString) (i : Inbox μ) :
    leaves (processLine lib h now line) i =
      { i with
        exchange := (message? lib line).elim i.exchange fun jMsg =>
          leaves (processResponse lib h now jMsg) i.exchange
        parsed := i.parsed ++ texts [line] } := by
  unfold processLine message?
  by_cases hblank : trim line = []
  · have htexts : texts [line] = [] := by simp [texts, hblank]
    rw [if_pos hblank, if_pos hblank, htexts, List.append_nil]
    rfl
  · have htexts : texts [line] = [trim line] := by simp [texts, hblank]
    rw [if_neg hblank, if_neg hblank, htexts]
    let i' : Inbox μ := { i with parsed := i.parsed ++ [trim line] }
    show leaves (ofExcept Abort.json (lib.parse (trim line)) >>= _) i' = _
    cases lib.parse (trim line) with
    | error e => rfl
    | ok jMsg =>
      cases jMsg with
      | none => rfl
      | some jMsg => exact leaves_processGuarded lib h now jMsg i'

theorem parsed_processLine (line : StdString) (i : Inbox μ) :
    (leaves (processLine lib h now line) i).parsed = i.parsed ++ texts [line] := by
  rw [leaves_processLine]

theorem handed_processLine (line : StdString) (i : Inbox μ) :
    (leaves (processLine lib h now line) i).handed = i.handed := by
  rw [leaves_processLine]

theorem handed_processLines (lines : List StdString) (i : Inbox μ) :
    (leaves (processLines lib h now lines) i).handed = i.handed := by
  induction lines generalizing i with
  | nil => rfl
  | cons line lines ih =>
    have hline := handed_processLine lib h now line i
    rw [processLines_cons]
    cases hp : processLine lib h now line i with
    | error e i' =>
      rw [leaves_of_error hp] at hline
      rw [leaves_of_error (bind_of_error hp), hline]
    | ok u i' =>
      rw [leaves_of_ok hp] at hline
      rw [leaves, bind_of_ok hp, ← hline]
      exact ih i'

/-- What a transmission hands over. -/
theorem handed_dispatch (i : Inbox μ) :
    (leaves (dispatch h) i).handed =
      i.handed ++ if i.exchange.newjobprocessed then [i.exchange.current] else [] := by
  unfold leaves dispatch
  by_cases hnew : i.exchange.newjobprocessed
  · rw [if_pos hnew, if_pos hnew]
    cases h.onWorkReceived i.exchange.conn i.exchange.current i.exchange.owner <;> rfl
  · rw [if_neg hnew, if_neg hnew, List.append_nil]

/-- **What a transmission hands over**, if its lines come back. -/
theorem handed_processTransmission (lines : List StdString) (i : Inbox μ) :
    (leaves (processTransmission lib h now lines) i).handed =
      if thrown (processLines lib h now lines) (start i) = none then
        (leaves (dispatch h) (leaves (processLines lib h now lines) (start i))).handed
      else i.handed := by
  have hlines := handed_processLines lib h now lines (start i)
  show (leaves (processLines lib h now lines >>= fun _ => dispatch h) (start i)).handed = _
  cases hp : processLines lib h now lines (start i) with
  | ok u i' => rw [leaves, bind_of_ok hp, if_pos (thrown_of_ok hp), leaves_of_ok hp, leaves]
  | error e i' =>
    rw [leaves_of_error hp] at hlines
    rw [leaves_of_error (bind_of_error hp), thrown_of_error hp, if_neg (Option.some_ne_none e),
      hlines]
    rfl

theorem parsed_dispatch (i : Inbox μ) : (leaves (dispatch h) i).parsed = i.parsed := by
  unfold leaves dispatch
  by_cases hnew : i.exchange.newjobprocessed
  · rw [if_pos hnew]
    cases h.onWorkReceived i.exchange.conn i.exchange.current i.exchange.owner <;> rfl
  · rw [if_neg hnew]

/-- The lines of a list reach the reader, in order, up to the one that an exception
leaves. -/
theorem parsed_processLines (lines : List StdString) (i : Inbox μ) :
    match processLines lib h now lines i with
    | .ok _ i' => i'.parsed = i.parsed ++ texts lines
    | .error _ i' => ∃ l, l <+: texts lines ∧ i'.parsed = i.parsed ++ l := by
  induction lines generalizing i with
  | nil => exact (List.append_nil _).symm
  | cons line lines ih =>
    have hline := parsed_processLine lib h now line i
    rw [processLines_cons, texts_cons]
    cases hp : processLine lib h now line i with
    | error e i' =>
      rw [leaves_of_error hp] at hline
      rw [bind_of_error hp]
      exact ⟨texts [line], List.prefix_append _ _, hline⟩
    | ok u i' =>
      rw [leaves_of_ok hp] at hline
      rw [bind_of_ok hp]
      have hrest := ih i'
      cases hq : processLines lib h now lines i' with
      | ok u i'' =>
        rw [hq] at hrest
        rw [← List.append_assoc, ← hline]
        exact hrest
      | error e i'' =>
        rw [hq] at hrest
        obtain ⟨l, hl, hparsed⟩ := hrest
        refine ⟨texts [line] ++ l, List.prefix_append_right_inj _ |>.mpr hl, ?_⟩
        rw [hparsed, hline, List.append_assoc]

theorem parsed_processTransmission (lines : List StdString) (i : Inbox μ) :
    match processTransmission lib h now lines i with
    | .ok _ i' => i'.parsed = i.parsed ++ texts lines
    | .error _ i' => ∃ l, l <+: texts lines ∧ i'.parsed = i.parsed ++ l := by
  have hlines := parsed_processLines lib h now lines (start i)
  show match (processLines lib h now lines >>= fun _ => dispatch h) (start i) with
    | .ok _ i' => _
    | .error _ i' => _
  cases hp : processLines lib h now lines (start i) with
  | error e i' =>
    rw [hp] at hlines
    rw [bind_of_error hp]
    exact hlines
  | ok u i' =>
    rw [hp] at hlines
    have hdispatch := parsed_dispatch h i'
    rw [bind_of_ok hp]
    cases hd : dispatch h i' with
    | ok u i'' =>
      rw [leaves_of_ok hd] at hdispatch
      exact hdispatch.trans hlines
    | error e i'' =>
      rw [leaves_of_error hd] at hdispatch
      exact ⟨texts lines, List.prefix_refl _, hdispatch.trans hlines⟩

end Texts

/-! ## Runs of reads -/

/-- A read: what came, and when, and what the other handlers have made of the exchange
since the last one. -/
structure Read (μ : Type) where
  rx : StdString
  now : TimePoint
  before : Exchange μ → Exchange μ := id

/-- One read of a connection. -/
def receive (lib : Library) (h : Handlers μ) (read : Read μ) :
    EStateM Abort (Receiver μ) Unit := do
  modify fun r => { r with exchange := read.before r.exchange }
  onRecvSocketDataCompleted lib h read.now read.rx

/-- The reads of a connection. -/
def receiveAll (lib : Library) (h : Handlers μ) (reads : List (Read μ)) :
    EStateM Abort (Receiver μ) Unit :=
  reads.forM (receive lib h)

/-- The bytes that came in a list of reads. -/
def stream (reads : List (Read μ)) : StdString := (reads.map Read.rx).flatten

section Reads

variable (lib : Library) (h : Handlers μ)

theorem stream_cons (read : Read μ) (reads : List (Read μ)) :
    stream (read :: reads) = read.rx ++ stream reads := rfl

theorem receiveAll_cons (read : Read μ) (reads : List (Read μ)) :
    receiveAll lib h (read :: reads) = receive lib h read >>= fun _ => receiveAll lib h reads :=
  rfl

/-- One read hands on the lines that it completes. -/
theorem parsed_receive (read : Read μ) (r : Receiver μ) :
    match receive lib h read r with
    | .ok _ r' => r'.parsed = r.parsed ++ texts (frames '\n' (r.message ++ read.rx)) ∧
        r'.message = rest '\n' (r.message ++ read.rx)
    | .error _ r' => ∃ l, l <+: texts (frames '\n' (r.message ++ read.rx)) ∧
        r'.parsed = r.parsed ++ l := by
  let r₀ : Receiver μ := { r with exchange := read.before r.exchange }
  have hread := onRecvSocketDataCompleted_eq lib h read.now read.rx r₀
  have hparsed := parsed_processTransmission lib h read.now (r₀.lines read.rx) r₀.toInbox
  show match onRecvSocketDataCompleted lib h read.now read.rx r₀ with
    | .ok _ r' => _
    | .error _ r' => _
  cases hp : processTransmission lib h read.now (r₀.lines read.rx) r₀.toInbox with
  | ok u i =>
    rw [hp] at hread hparsed
    dsimp only at hread
    rw [hread]
    exact ⟨hparsed, rfl⟩
  | error e i =>
    rw [hp] at hread hparsed
    obtain ⟨m, hm⟩ := hread
    rw [hm]
    exact hparsed

/-- A run of reads, from any state that waits for the end of a line. -/
theorem parsed_receiveAll (reads : List (Read μ)) (r : Receiver μ) (hr : '\n' ∉ r.message) :
    match receiveAll lib h reads r with
    | .ok _ r' => r'.parsed = r.parsed ++ texts (frames '\n' (r.message ++ stream reads)) ∧
        r'.message = rest '\n' (r.message ++ stream reads)
    | .error _ r' => ∃ l, l <+: texts (frames '\n' (r.message ++ stream reads)) ∧
        r'.parsed = r.parsed ++ l := by
  induction reads generalizing r with
  | nil =>
    show r.parsed = r.parsed ++ texts (frames '\n' (r.message ++ [])) ∧
      r.message = rest '\n' (r.message ++ [])
    rw [List.append_nil, frames_of_notMem hr, rest_of_notMem hr]
    exact ⟨(List.append_nil _).symm, rfl⟩
  | cons read reads ih =>
    have hread := parsed_receive lib h read r
    rw [receiveAll_cons, stream_cons, ← List.append_assoc, frames_append (r.message ++ read.rx),
      rest_append (r.message ++ read.rx), texts_append]
    cases hp : receive lib h read r with
    | error e r' =>
      rw [hp] at hread
      obtain ⟨l, hl, hparsed⟩ := hread
      rw [bind_of_error hp]
      exact ⟨l, hl.trans (List.prefix_append _ _), hparsed⟩
    | ok u r' =>
      rw [hp] at hread
      obtain ⟨hparsed, hmessage⟩ := hread
      rw [bind_of_ok hp, ← hmessage]
      have hrest := ih r' (hmessage ▸ notMem_rest _)
      cases hq : receiveAll lib h reads r' with
      | ok u r'' =>
        rw [hq] at hrest
        rw [← List.append_assoc, ← hparsed]
        exact hrest
      | error e r'' =>
        rw [hq] at hrest
        obtain ⟨l, hl, hparsed'⟩ := hrest
        refine ⟨_ ++ l, List.prefix_append_right_inj _ |>.mpr hl, ?_⟩
        rw [hparsed', hparsed, List.append_assoc]

/-- **However the stream of a new connection is cut into reads, its lines reach the reader**:
those that a newline ends, trimmed, in order, without the blank ones, each once.  The bytes
after the last newline remain in `m_message`.  Where an exception ends the program, the lines
up to there have reached the reader. -/
theorem lines_of_run (reads : List (Read μ)) (r : Receiver μ) (hnew : r.message = []) :
    (thrown (receiveAll lib h reads) r = none →
      (leaves (receiveAll lib h reads) r).parsed =
          r.parsed ++ texts (frames '\n' (stream reads)) ∧
        (leaves (receiveAll lib h reads) r).message = rest '\n' (stream reads)) ∧
      ∃ l, l <+: texts (frames '\n' (stream reads)) ∧
        (leaves (receiveAll lib h reads) r).parsed = r.parsed ++ l := by
  have hrun := parsed_receiveAll lib h reads r (hnew ▸ List.not_mem_nil)
  rw [hnew, List.nil_append] at hrun
  cases hp : receiveAll lib h reads r with
  | ok u r' =>
    rw [hp] at hrun
    rw [leaves_of_ok hp]
    exact ⟨fun _ => hrun, _, List.prefix_refl _, hrun.1⟩
  | error e r' =>
    rw [hp] at hrun
    rw [leaves_of_error hp, thrown_of_error hp]
    exact ⟨nofun, hrun⟩

end Reads

/-- A stream that comes in three reads, the second of them a newline alone. -/
theorem lines_of_three_reads :
    let r : Receiver Unit :=
      { exchange := { conn := { version := 2 }, pleas := ⟨0, 0, []⟩, owner := () } }
    let reads : List (Read Unit) :=
      [⟨" \n\r\n[1".toList, 0, id⟩, ⟨"\n".toList, 1, id⟩, ⟨" [2] \n[3".toList, 2, id⟩]
    r.message = [] ∧ thrown (receiveAll default {} reads) r = none ∧
      (leaves (receiveAll default {} reads) r).parsed = ["[1".toList, "[2]".toList] ∧
      (leaves (receiveAll default {} reads) r).message = "[3".toList := by
  intro r reads
  have hreturns : thrown (receiveAll default {} reads) r = none := by decide +kernel
  obtain ⟨hparsed, hmessage⟩ := (lines_of_run default {} reads r rfl).1 hreturns
  refine ⟨rfl, hreturns, hparsed.trans ?_, hmessage.trans ?_⟩
  · decide
  · decide

end Stratum
end FpgaEthash
