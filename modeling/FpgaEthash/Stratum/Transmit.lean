import FpgaEthash.Computation.Framing
import FpgaEthash.Computation.Runs
import FpgaEthash.Devcore.StdString
import Mathlib.Tactic.Common

/-!
# The transmit queue

`send` puts a line into `m_txQueue`.  Whoever finds `m_txPending` clear sets it and calls
`sendSocketData`, which moves all lines of the queue into `m_sendBuffer` and starts a
write of the buffer.  When the write completes, the lines that have come in the meantime
are sent in the same way, or the flag is cleared.

The write is `boost::asio::async_write` of a `streambuf`.  It writes what the buffer holds
when it is started, and takes that off the buffer before the handler is called.  So the
buffer must not be touched in between.  `outstanding` keeps the bytes of the writes that
have been started, in a list, so that there could be more than one.

That there never is, and that nothing gets lost, follows from `InOrder`: the client is
idle and everything is empty, or one write is outstanding and it is the buffer.
-/

namespace FpgaEthash
namespace Stratum

open Devcore Runs Framing

/-! ## The members -/

/-- The members of `EthStratumClient` that hold what is to be sent; the bytes of the writes
that have not completed, and of those that have; and two notes for the proofs: the lines
given to `send`, and whether the buffer was appended to under a write. -/
structure Transmitter where
  txQueue : List StdString := []
  sendBuffer : StdString := []
  txPending : Bool := false
  outstanding : List StdString := []
  written : StdString := []
  given : List StdString := []
  disturbed : Bool := false
  deriving DecidableEq

namespace Transmitter

/-- The queue and the buffer are emptied, and nothing is pending. -/
def drop (t : Transmitter) : Transmitter :=
  { t with sendBuffer := [], txQueue := [], txPending := false }

/-- `os << *line << std::endl` for every line of the queue. -/
def fillBuffer (t : Transmitter) : Transmitter :=
  { t with
    sendBuffer := t.txQueue.foldl (fun buffer line => buffer ++ (line ++ ['\n'])) t.sendBuffer
    txQueue := []
    disturbed := t.disturbed || !t.outstanding.isEmpty }

/-- `async_write`, of what the buffer holds. -/
def asyncWrite (t : Transmitter) : Transmitter :=
  { t with outstanding := t.outstanding ++ [t.sendBuffer] }

/-- `sendSocketData`. -/
def sendSocketData (isConnected : Bool) (t : Transmitter) : Transmitter :=
  if !isConnected || t.txQueue.isEmpty then t.drop else t.fillBuffer.asyncWrite

/-- `send`, of a line. -/
def send (isConnected : Bool) (line : StdString) (t : Transmitter) : Transmitter :=
  let t := { t with txQueue := t.txQueue ++ [line], given := t.given ++ [line] }
  if t.txPending then t else sendSocketData isConnected { t with txPending := true }

/-- A write has put its bytes on the socket, and takes them off the buffer. -/
def complete (bytes : StdString) (rest : List StdString) (t : Transmitter) : Transmitter :=
  { t with
    outstanding := rest
    written := t.written ++ bytes
    sendBuffer := t.sendBuffer.drop bytes.length }

/-- `onSendSocketDataCompleted`, on these members. -/
def onSendSocketDataCompleted (isConnected failed : Bool) (t : Transmitter) : Transmitter :=
  if failed then t.drop
  else if t.txQueue.isEmpty then { t with txPending := false }
  else t.sendSocketData isConnected

end Transmitter

/-- What happens to the queue within one connection: a line is given to `send`, or the oldest
of the outstanding writes completes. -/
inductive TransmitEvent where
  | send (line : StdString)
  | completed
  deriving DecidableEq

/-- The line that the event gives to `send`. -/
def TransmitEvent.line? : TransmitEvent → Option StdString
  | .send line => some line
  | .completed => none

/-- One event.  A write completes only if it is outstanding. -/
def Transmitter.step (t : Transmitter) : TransmitEvent → Option Transmitter
  | .send line => some (t.send true line)
  | .completed =>
    match t.outstanding with
    | [] => none
    | bytes :: rest => some ((t.complete bytes rest).onSendSocketDataCompleted true false)

/-! ## Lines and bytes -/

/-- Lines as they stand on the wire. -/
def wire (lines : List StdString) : StdString := lines.flatMap (· ++ ['\n'])

theorem wire_append (lines lines' : List StdString) :
    wire (lines ++ lines') = wire lines ++ wire lines' := List.flatMap_append

theorem foldl_eq_wire (lines : List StdString) (buffer : StdString) :
    lines.foldl (fun buffer line => buffer ++ (line ++ ['\n'])) buffer = buffer ++ wire lines := by
  induction lines generalizing buffer with
  | nil => exact (List.append_nil _).symm
  | cons line lines ih =>
    rw [List.foldl_cons, ih, wire, wire, List.flatMap_cons, List.append_assoc]

/-- Lines without a newline in them can be told apart on the wire. -/
theorem frames_wire (lines : List StdString) (hlines : ∀ line ∈ lines, '\n' ∉ line) :
    frames '\n' (wire lines) = lines := by
  induction lines with
  | nil => rfl
  | cons line lines ih =>
    have hline : wire (line :: lines) = line ++ '\n' :: wire lines := by
      rw [wire, List.flatMap_cons, List.append_assoc]
      rfl
    rw [hline, frames_cons (hlines line (.head _)), ih fun l hl => hlines l (.tail _ hl)]

/-! ## The invariant -/

/-- The client is idle and holds nothing, or one write is outstanding, and it is the buffer.
The lines given are those that were written or are in the buffer, and then those in the
queue. -/
structure InOrder (t : Transmitter) : Prop where
  phase : (t.txPending = false ∧ t.outstanding = [] ∧ t.sendBuffer = [] ∧ t.txQueue = []) ∨
    (t.txPending = true ∧ t.outstanding = [t.sendBuffer])
  undisturbed : t.disturbed = false
  lines : ∃ out, t.given = out ++ t.txQueue ∧ t.written ++ t.sendBuffer = wire out

/-- Lines are sent when nothing is outstanding and the buffer is empty. -/
theorem inOrder_sendSocketData {t : Transmitter} (hpending : t.txPending = true)
    (hidle : t.outstanding = []) (hbuffer : t.sendBuffer = []) (hqueue : t.txQueue ≠ [])
    (hdisturbed : t.disturbed = false)
    (hlines : ∃ out, t.given = out ++ t.txQueue ∧ t.written = wire out) :
    InOrder (t.sendSocketData true) := by
  have hempty : ¬ (!true || t.txQueue.isEmpty) = true := by
    rw [Bool.not_true, Bool.false_or, List.isEmpty_iff]
    exact hqueue
  have hfill : t.fillBuffer.sendBuffer = wire t.txQueue := by
    show t.txQueue.foldl _ t.sendBuffer = _
    rw [foldl_eq_wire, hbuffer, List.nil_append]
  rw [Transmitter.sendSocketData, if_neg hempty]
  refine ⟨.inr ⟨hpending, ?_⟩, ?_, ?_⟩
  · show t.outstanding ++ [t.fillBuffer.sendBuffer] = [t.fillBuffer.sendBuffer]
    rw [hidle, List.nil_append]
  · show (t.disturbed || !t.outstanding.isEmpty) = false
    rw [hdisturbed, hidle]
    rfl
  · obtain ⟨out, hgiven, hwritten⟩ := hlines
    refine ⟨out ++ t.txQueue, hgiven.trans (List.append_nil _).symm, ?_⟩
    show t.written ++ t.fillBuffer.sendBuffer = _
    rw [hfill, hwritten, wire_append]

theorem inOrder_send {t : Transmitter} (h : InOrder t) (line : StdString) :
    InOrder (t.send true line) := by
  obtain ⟨out, hgiven, hwritten⟩ := h.lines
  have hgiven' : t.given ++ [line] = out ++ (t.txQueue ++ [line]) := by
    rw [hgiven, List.append_assoc]
  unfold Transmitter.send
  rcases h.phase with ⟨hpending, hidle, hbuffer, hqueue⟩ | ⟨hpending, hwrite⟩
  · have hclear : ¬ t.txPending = true := by
      rw [hpending]
      exact Bool.false_ne_true
    dsimp only
    rw [if_neg hclear]
    refine inOrder_sendSocketData rfl hidle hbuffer ?_ h.undisturbed ?_
    · exact List.append_ne_nil_of_right_ne_nil _ (List.cons_ne_nil _ _)
    · rw [hbuffer, List.append_nil] at hwritten
      exact ⟨out, hgiven', hwritten⟩
  · dsimp only
    rw [if_pos hpending]
    exact ⟨.inr ⟨hpending, hwrite⟩, h.undisturbed, out, hgiven', hwritten⟩

/-- **Each event keeps the queue in order.** -/
theorem inOrder_step {t t' : Transmitter} {e : TransmitEvent} (h : InOrder t)
    (hstep : t.step e = some t') : InOrder t' := by
  cases e with
  | send line =>
    obtain rfl := Option.some.inj hstep
    exact inOrder_send h line
  | completed =>
    rcases h.phase with ⟨-, hidle, -, -⟩ | ⟨hpending, hwrite⟩
    · rw [Transmitter.step, hidle] at hstep
      exact nomatch hstep
    · rw [Transmitter.step, hwrite] at hstep
      obtain rfl := Option.some.inj hstep
      have hdrop : t.sendBuffer.drop t.sendBuffer.length = [] := List.drop_length
      obtain ⟨out, hgiven, hwritten⟩ := h.lines
      unfold Transmitter.onSendSocketDataCompleted
      rw [if_neg Bool.false_ne_true]
      split_ifs with hqueue
      · have hnil : t.txQueue = [] := List.isEmpty_iff.mp hqueue
        refine ⟨.inl ⟨rfl, rfl, hdrop, hnil⟩, h.undisturbed, out, hgiven, ?_⟩
        show t.written ++ t.sendBuffer ++ t.sendBuffer.drop _ = wire out
        rw [hdrop, List.append_nil, hwritten]
      · exact inOrder_sendSocketData hpending rfl hdrop (mt List.isEmpty_iff.mpr hqueue)
          h.undisturbed ⟨out, hgiven, hwritten⟩

theorem given_step {t t' : Transmitter} {e : TransmitEvent} (hstep : t.step e = some t') :
    t'.given = t.given ++ e.line?.toList := by
  have hsend : ∀ t : Transmitter, (t.sendSocketData true).given = t.given := by
    intro t
    unfold Transmitter.sendSocketData
    split_ifs <;> rfl
  cases e with
  | send line =>
    obtain rfl := Option.some.inj hstep
    unfold Transmitter.send
    dsimp only
    split_ifs
    · rfl
    · exact hsend _
  | completed =>
    cases hwrites : t.outstanding with
    | nil =>
      rw [Transmitter.step, hwrites] at hstep
      exact nomatch hstep
    | cons bytes rest =>
      rw [Transmitter.step, hwrites] at hstep
      obtain rfl := Option.some.inj hstep
      refine Eq.trans ?_ (List.append_nil _).symm
      unfold Transmitter.onSendSocketDataCompleted
      rw [if_neg Bool.false_ne_true]
      split_ifs
      · rfl
      · exact hsend _

theorem given_run {t t' : Transmitter} {es : List TransmitEvent}
    (hrun : run Transmitter.step t es = some t') :
    t'.given = t.given ++ es.filterMap TransmitEvent.line? := by
  induction es generalizing t with
  | nil =>
    obtain rfl := Option.some.inj hrun
    exact (List.append_nil _).symm
  | cons e es ih =>
    obtain ⟨u, hu, hrest⟩ := (run_cons_eq_some _).mp hrun
    rw [ih hrest, given_step hu, List.append_assoc]
    cases e <;> rfl

/-- **The transmit queue of a connection.**  After any sequence of calls of `send` and of
completed writes: at most one write is outstanding, `m_txPending` is set exactly while one
is, and the buffer has never been appended to under one.  The bytes written, those in the
buffer and those in the queue are the lines given to `send`, in order, none lost and none
twice; and where no line has a newline in it, they can be read off as lines. -/
theorem transmit_queue (es : List TransmitEvent) (t : Transmitter)
    (hrun : run Transmitter.step {} es = some t) :
    t.outstanding.length ≤ 1 ∧ (t.txPending = true ↔ t.outstanding ≠ []) ∧
      t.disturbed = false ∧
      t.written ++ t.sendBuffer ++ wire t.txQueue = wire (es.filterMap TransmitEvent.line?) ∧
      ((∀ line ∈ es.filterMap TransmitEvent.line?, '\n' ∉ line) →
        frames '\n' (t.written ++ t.sendBuffer) ++ t.txQueue =
          es.filterMap TransmitEvent.line?) := by
  have horder : InOrder t :=
    (along_of_invariant (fun _ _ _ h hstep => inOrder_step h hstep) es {}
      ⟨.inl ⟨rfl, rfl, rfl, rfl⟩, rfl, [], rfl, rfl⟩).of_run hrun
  have hgiven : t.given = es.filterMap TransmitEvent.line? := given_run hrun
  obtain ⟨out, hout, hwritten⟩ := horder.lines
  rw [← hgiven, hout, hwritten]
  refine ⟨?_, ?_, horder.undisturbed, (wire_append _ _).symm, fun hlines => ?_⟩
  · rcases horder.phase with ⟨-, hidle, -, -⟩ | ⟨-, hwrite⟩
    · rw [hidle]
      exact Nat.zero_le 1
    · rw [hwrite]
      exact le_rfl
  · rcases horder.phase with ⟨hpending, hidle, -, -⟩ | ⟨hpending, hwrite⟩
    · rw [hpending, hidle]
      exact ⟨nofun, fun h => absurd rfl h⟩
    · rw [hpending, hwrite]
      exact ⟨fun _ => List.cons_ne_nil _ _, fun _ => rfl⟩
  · rw [frames_wire out fun line hline => hlines line (List.mem_append_left _ hline)]

/-- Two lines that come under a write are sent together when it completes. -/
theorem transmit_queue_three :
    let es : List TransmitEvent :=
      [.send "a".toList, .send "b".toList, .send "c".toList, .completed]
    ∃ t, run Transmitter.step {} es = some t ∧ t.written = "a\n".toList ∧
      t.sendBuffer = "b\nc\n".toList ∧ t.outstanding.length ≤ 1 := by
  intro es
  have hrun : run Transmitter.step {} es =
      some { sendBuffer := "b\nc\n".toList, txPending := true
             outstanding := ["b\nc\n".toList], written := "a\n".toList
             given := ["a".toList, "b".toList, "c".toList] } := by
    decide
  exact ⟨_, hrun, rfl, rfl, (transmit_queue es _ hrun).1⟩

end Stratum
end FpgaEthash
