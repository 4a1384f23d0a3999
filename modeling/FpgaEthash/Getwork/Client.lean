import FpgaEthash.Getwork.Response
import FpgaEthash.Stratum.Connection

/-!
# Polling a node for work

`EthGetworkClient` between its construction and the call of `m_onDisconnected`.  Requests
wait in a queue.  For each of them the client connects, writes, reads the response to its
end, and goes on with the next; `m_txPending` says that it is at it.  The request for work
is queued again by `m_getwork_timer`, which `processResponse` has armed.

As for the stratum client, the functions here are handlers, which run one at a time and in
any order.  A socket operation that has been started is counted.  It completes with any
outcome.  An exception that leaves a handler and a `pop` of an empty `m_endpoints` end the
program: the event leads nowhere.
-/

namespace FpgaEthash
namespace Getwork

open Devcore Ethcore Jsoncpp Pool Throwing Runs
open Stratum (Abort Handlers Library TimePoint Endpoint Stage toSeconds oneOf oneOf_eq_some)

variable {μ : Type}

/-! ## The members -/

/-- The members of `EthGetworkClient`.  `session` says that `m_session` is not null.  The
operations that have been started are counted. -/
structure GetworkClient (μ : Type) extends Exchange μ where
  connected : Bool := false
  session : Bool := false
  connecting : Bool := false
  txPending : Bool := false
  txQueue : List StdString := []
  endpoints : List Endpoint := []
  socketOpen : Bool := false
  request : StdString := []
  response : StdString := []
  resolves : ℕ := 0
  connects : ℕ := 0
  writes : ℕ := 0
  reads : ℕ := 0
  clock : TimePoint
  stage : Stage := .created

/-- How an operation ends.  A read that meets the end of the stream has succeeded. -/
inductive Outcome where
  | ok
  | aborted
  | failed
  deriving DecidableEq

namespace GetworkClient

/-- A client that `setConnection` has been called on.  The constructor does not set
`m_solution_submitted_max_id`. -/
def create (conn : Uri) (solutionSubmittedMaxId : BitVec 32) (owner : μ) (now : TimePoint) :
    GetworkClient μ where
  conn := { conn with responds := false }
  solutionSubmittedMaxId
  owner
  clock := now

/-- The socket operations that are outstanding. -/
def operations (c : GetworkClient μ) : ℕ := c.connects + c.writes + c.reads

/-! ## Requests -/

/-- `m_jsonGetWork`. -/
def jsonGetWork (lib : Library) : StdString :=
  lib.writeString (.object
    [("id".toList, .int 1), ("jsonrpc".toList, .string "2.0".toList),
      ("method".toList, .string "eth_getWork".toList), ("params".toList, .array [])])

/-- `disconnect`. -/
def disconnect (c : GetworkClient μ) : GetworkClient μ :=
  { c with
    connected := false
    session := false
    connecting := false
    txPending := false
    timer := none
    txQueue := []
    request := []
    response := []
    stage := .released }

/-- `begin_connect`.  The operation opens the socket. -/
def beginConnect (c : GetworkClient μ) : GetworkClient μ :=
  match c.endpoints with
  | [] => c.disconnect
  | _ :: _ => { c with socketOpen := true, connects := c.connects + 1 }

/-- `send`, of a line. -/
def send (line : StdString) (c : GetworkClient μ) : GetworkClient μ :=
  let c := { c with txQueue := c.txQueue ++ [line] }
  if c.txPending then c else beginConnect { c with txPending := true }

/-- `submitHashrate`. -/
def submitHashrate (lib : Library) (rate : BitVec 64) (id : StdString) (c : GetworkClient μ) :
    GetworkClient μ :=
  if c.session then
    c.send (lib.writeString (.object
      [("id".toList, .int 9), ("jsonrpc".toList, .string "2.0".toList),
        ("method".toList, .string "eth_submitHashrate".toList),
        ("params".toList, .array [.string (toHex rate .add), .string id])]))
  else c

/-- `submitSolution`. -/
def submitSolution (lib : Library) (solution : Solution) (c : GetworkClient μ) :
    GetworkClient μ :=
  if c.session then
    let id : BitVec 32 := 40 + BitVec.ofNat 32 solution.midx
    let c := { c with
      solutionSubmittedMaxId := if c.solutionSubmittedMaxId < id then id
        else c.solutionSubmittedMaxId }
    c.send (lib.writeString (.object
      [("id".toList, .int id.toNat), ("jsonrpc".toList, .string "2.0".toList),
        ("method".toList, .string "eth_submitWork".toList),
        ("params".toList, .array
          [.string ("0x".toList ++ toHex solution.nonce .dontAdd),
            .string ("0x".toList ++ solution.work.header.hex .dontAdd),
            .string ("0x".toList ++ solution.mixHash.hex .dontAdd)])]))
  else c

/-! ## Connecting -/

/-- The host is a name, which must be resolved. -/
def isNamed (c : GetworkClient μ) : Bool :=
  c.conn.hostNameType == .dns || c.conn.hostNameType == .basic

/-- `connect`. -/
def connect (lib : Library) (c : GetworkClient μ) : GetworkClient μ :=
  if c.connecting then c
  else
    let c := { c with connecting := true, timer := none, endpoints := [], stage := .engaged }
    if c.isNamed then { c with resolves := c.resolves + 1 }
    else ({ c with endpoints := [⟨c.conn.host, c.conn.port⟩] }).send (jsonGetWork lib)

/-- `handle_resolve`: the endpoints found, or an error. -/
def handleResolve (lib : Library) (result : Option (List Endpoint)) (c : GetworkClient μ) :
    GetworkClient μ :=
  match result with
  | some endpoints => ({ c with endpoints := c.endpoints ++ endpoints }).send (jsonGetWork lib)
  | none => c.disconnect

/-- The endpoint does not respond: pop it and retry. -/
def discardEndpoint (c : GetworkClient μ) : Option (GetworkClient μ) :=
  match c.endpoints with
  | [] => none
  | _ :: endpoints => some (beginConnect { c with endpoints })

/-- The session starts with the first connection. -/
def beginSession (h : Handlers μ) (now : TimePoint) (c : GetworkClient μ) :
    Option (GetworkClient μ) :=
  if c.connecting then
    match h.onConnected c.owner with
    | .error _ _ => none
    | .ok _ owner => some { c with
        connected := true, session := true, connecting := false, owner, currentTimestamp := now }
  else some c

/-- The first line of the queue that is not empty, and what is left of the queue. -/
def popLine : List StdString → Option (StdString × List StdString)
  | [] => none
  | [] :: queue => popLine queue
  | line :: queue => some (line, queue)

/-- A request, as it is written. -/
def httpRequest (conn : Uri) (line : StdString) : StdString :=
  "POST ".toList ++ (if conn.path = [] then ['/'] else conn.path) ++ " HTTP/1.0\r\n".toList ++
    "Host: ".toList ++ conn.host ++ "\r\n".toList ++
    "Content-Type: application/json\r\n".toList ++
    "Content-Length: ".toList ++ (toString line.length).toList ++ "\r\n".toList ++
    "Connection: close\r\n\r\n".toList ++ line

/-- The next line of the queue is submitted.  The reader keeps the old request where it
cannot make a value of the line. -/
def submitNext (lib : Library) (now : TimePoint) (c : GetworkClient μ) :
    Option (GetworkClient μ) :=
  if c.txQueue.isEmpty then some { c with txPending := false }
  else
    match popLine c.txQueue with
    | none => some { c with txQueue := [] }
    | some (line, txQueue) =>
      match lib.parse line with
      | .error _ => none
      | .ok jReq => some { c with
          txQueue
          pendingJReq := jReq.getD c.pendingJReq
          pendingTimestamp := now
          request := c.request ++ httpRequest c.conn line
          writes := c.writes + 1 }

/-- `handle_connect`. -/
def handleConnect (lib : Library) (h : Handlers μ) (now : TimePoint) (outcome : Outcome)
    (c : GetworkClient μ) : Option (GetworkClient μ) :=
  if outcome = .ok ∧ c.socketOpen = true then (c.beginSession h now).bind (submitNext lib now)
  else if outcome = .aborted then some c
  else c.discardEndpoint

/-! ## Writing and reading -/

/-- `handle_write`, after some bytes of the request were written. -/
def handleWrite (outcome : Outcome) (written : ℕ) (c : GetworkClient μ) :
    Option (GetworkClient μ) :=
  match outcome with
  | .ok => some { c with request := [], reads := c.reads + 1 }
  | .aborted => some { c with request := c.request.drop written }
  | .failed => discardEndpoint { c with request := c.request.drop written }

/-- The end of `handle_read`: is there anything else in the queue? -/
def continueQueue (c : GetworkClient μ) : GetworkClient μ :=
  if c.txQueue.isEmpty then { c with txPending := false } else c.beginConnect

/-- What was read is a response with status 200, or at least does not say otherwise. -/
def isAnswer (rxMessage : StdString) : Bool :=
  !rxMessage.isEmpty && !isRefused (cutLines [] rxMessage)

/-- `handle_read`, after some data was read. -/
def handleRead (lib : Library) (h : Handlers μ) (cfg : Settings) (now : TimePoint)
    (outcome : Outcome) (data : StdString) (c : GetworkClient μ) : Option (GetworkClient μ) :=
  let response := c.response ++ data
  match outcome with
  | .ok =>
    let rxMessage := response.take data.length
    let c := { c with socketOpen := false, response := response.drop data.length }
    if isAnswer rxMessage then
      let texts := bodyTexts true (cutLines [] rxMessage)
      match texts.forM (processText lib h cfg now) c.toExchange with
      | .error _ _ => none
      | .ok _ toExchange => some ({ c with toExchange }).continueQueue
    else some c.disconnect
  | .aborted => some { c with response }
  | .failed => some ({ c with response }).disconnect

/-! ## The timer -/

/-- No new work has come for too long. -/
def isStale (cfg : Settings) (now : TimePoint) (c : GetworkClient μ) : Bool :=
  cfg.worktimeout.toInt < toSeconds (now - c.currentTimestamp)

/-- `getwork_timer_elapsed`, without an error. -/
def getworkTimerElapsed (lib : Library) (cfg : Settings) (now : TimePoint) (c : GetworkClient μ) :
    Option (GetworkClient μ) :=
  if c.isStale cfg now then
    match c.endpoints with
    | [] => none
    | _ :: endpoints => some (disconnect { c with timer := none, endpoints })
  else some (({ c with timer := none }).send (jsonGetWork lib))

end GetworkClient

/-! ## Runs -/

/-- What may happen to a client: its owner calls, its timer elapses, or an operation
completes.  A new client finds any value in `m_solution_submitted_max_id`. -/
inductive Event where
  | connect
  | disconnectCall
  | rotateConnect (solutionSubmittedMaxId : BitVec 32)
  | submitHashrate (rate : BitVec 64) (id : StdString)
  | submitSolution (solution : Solution)
  | tick
  | resolved (result : Option (List Endpoint))
  | connectCompleted (outcome : Outcome)
  | writeCompleted (outcome : Outcome) (written : ℕ)
  | readCompleted (outcome : Outcome) (data : StdString)

namespace GetworkClient

variable (lib : Library) (h : Handlers μ) (cfg : Settings)

/-- The timer elapses when the wait is over. -/
def onTick (now : TimePoint) (c : GetworkClient μ) : Option (GetworkClient μ) :=
  match c.timer with
  | none => none
  | some expiry => if expiry ≤ now then c.getworkTimerElapsed lib cfg now else none

theorem onTick_eq_some {now : TimePoint} {c c' : GetworkClient μ}
    (hc : c.onTick lib cfg now = some c') :
    c.timer.isSome = true ∧ c.getworkTimerElapsed lib cfg now = some c' := by
  unfold onTick at hc
  split at hc
  · exact nomatch hc
  · next expiry htimer =>
      split_ifs at hc
      rw [htimer]
      exact ⟨rfl, hc⟩

/-- One event, at a client that has not been released. -/
def handle (now : TimePoint) (c : GetworkClient μ) : Event → Option (GetworkClient μ)
  | .connect => some (c.connect lib)
  | .disconnectCall => some c.disconnect
  | .rotateConnect _ => none
  | .submitHashrate rate id => some (c.submitHashrate lib rate id)
  | .submitSolution solution => some (c.submitSolution lib solution)
  | .tick => c.onTick lib cfg now
  | .resolved result => oneOf c.resolves fun n =>
    some (({ c with resolves := n }).handleResolve lib result)
  | .connectCompleted outcome => oneOf c.connects fun n =>
    ({ c with connects := n }).handleConnect lib h now outcome
  | .writeCompleted outcome written => oneOf c.writes fun n =>
    ({ c with writes := n }).handleWrite outcome written
  | .readCompleted outcome data => oneOf c.reads fun n =>
    ({ c with reads := n }).handleRead lib h cfg now outcome data

/-- One event, at its time.  Time does not go back.  The owner makes a new client when this
one is released. -/
def step (c : GetworkClient μ) (e : TimePoint × Event) : Option (GetworkClient μ) :=
  if e.1 < c.clock then none
  else if c.stage = .released then
    match e.2 with
    | .rotateConnect maxId => some (create c.conn maxId c.owner e.1)
    | _ => none
  else handle lib h cfg e.1 { c with clock := e.1 } e.2

/-- **What an event is**: a new client for one that was released, or a handler. -/
theorem step_cases {lib : Library} {h : Handlers μ} {cfg : Settings} {c c' : GetworkClient μ}
    {now : TimePoint} {e : Event} (hc : step lib h cfg c (now, e) = some c') :
    (∃ maxId, c.stage = .released ∧ e = .rotateConnect maxId ∧
        c' = create c.conn maxId c.owner now) ∨
      (c.stage ≠ .released ∧ handle lib h cfg now { c with clock := now } e = some c') := by
  unfold step at hc
  by_cases hclock : now < c.clock
  · rw [if_pos hclock] at hc
    exact nomatch hc
  · rw [if_neg hclock] at hc
    by_cases hreleased : c.stage = .released
    · rw [if_pos hreleased] at hc
      cases e with
      | rotateConnect maxId => exact .inl ⟨maxId, hreleased, rfl, (Option.some.inj hc).symm⟩
      | _ => exact nomatch hc
    · rw [if_neg hreleased] at hc
      exact .inr ⟨hreleased, hc⟩

end GetworkClient
end Getwork
end FpgaEthash
