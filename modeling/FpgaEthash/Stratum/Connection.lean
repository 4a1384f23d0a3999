import FpgaEthash.Stratum.Receive
import FpgaEthash.Stratum.Solutions
import FpgaEthash.Stratum.Transmit

/-!
# Making and losing a connection

`EthStratumClient` between its construction and the call of `m_onDisconnected`.  The
functions here are handlers: each runs when an operation of boost::asio completes, when
something was posted, when the timer elapses, or when the owner of the client calls.
They run one at a time, in any order.

* An operation that has been started, or a handler that has been posted, is counted in
  `Pending`.  Its event can happen while the count is positive, and brings any result.
* A read or a write whose socket is cancelled or closed has still to call its handler.
  It is then a late one.  It may have completed before, so it, too, brings any result.
* `m_workloop_timer` has a finite expiry or none.  A wait that is cancelled calls its
  handler with an error, on which the handler returns at once; so it is forgotten.
* A call on a null `m_socket` or `m_session`, a `pop` of an empty `m_endpoints`, and an
  exception that leaves a handler end the program: the event leads nowhere.

The owner makes a new client for every attempt (`rotateConnect`).  The connection
definition is kept, and so is what the old client has noted down in it.
-/

namespace FpgaEthash
namespace Stratum

open Devcore Ethcore Jsoncpp Pool Throwing Talk Runs Framing

variable {μ : Type}

/-! ## The members -/

/-- The arguments of the constructor, in seconds. -/
structure Settings where
  worktimeout : BitVec 32
  responsetimeout : BitVec 32

/-- `m_responsetimeout * 1000`. -/
def Settings.responseMilliseconds (cfg : Settings) : ℤ := (cfg.responsetimeout * 1000).toInt

/-- `duration_cast<seconds>`, which rounds towards zero. -/
def toSeconds (d : ℤ) : ℤ := d.tdiv 1000000000

/-- `m_workloop_interval`, in the unit of time points. -/
def workloopInterval : ℤ := 1000000000

/-- An address to connect to. -/
structure Endpoint where
  address : StdString
  port : BitVec 16
  deriving DecidableEq

/-- The operations that have been started and the handlers that have been posted.  Posted
disconnections are counted in `Exchange`, where messages post them. -/
structure Pending where
  resolves : ℕ := 0
  startConnects : ℕ := 0
  connects : ℕ := 0
  shutdowns : ℕ := 0
  finalizes : ℕ := 0
  fakeReplies : ℕ := 0
  deriving DecidableEq

/-- Where the client is between construction, `connect` and `m_onDisconnected`. -/
inductive Stage where
  | created
  | engaged
  | released
  deriving DecidableEq

/-- The members of `EthStratumClient`.  `socket` is `m_socket`, if it is not null, and says
whether it is open.  `pleaTime` notes when the last connection attempt, or TLS shutdown, has
enqueued its plea. -/
structure StratumClient (μ : Type) extends Receiver μ where
  tx : Transmitter := {}
  connected : Bool := false
  connecting : Bool := false
  disconnecting : Bool := false
  endpoints : List Endpoint := []
  socket : Option Bool := none
  timer : Option TimePoint := none
  pending : Pending := {}
  reads : ℕ := 0
  lateReads : ℕ := 0
  lateWrites : List StdString := []
  clock : TimePoint
  pleaTime : TimePoint
  stage : Stage := .created

namespace StratumClient

/-- A client that `setConnection` has been called on. -/
def create (conn : Uri) (owner : μ) (now : TimePoint) : StratumClient μ where
  exchange := { conn := { conn with responds := false }, pleas := ⟨0, now, []⟩, owner }
  clock := now
  pleaTime := now

/-- `isPendingState`. -/
def isPendingState (c : StratumClient μ) : Bool := c.connecting || c.disconnecting

/-- `isConnected`. -/
def isConnected (c : StratumClient μ) : Bool := c.connected && !c.isPendingState

/-- `m_conn->SecLevel() != SecureLevel::NONE`. -/
def isSecure (c : StratumClient μ) : Bool := c.exchange.conn.secLevel != .none

/-! ## Sending -/

/-- The requests that a handler has given to `send`. -/
def transmit (lib : Library) (jReqs : List Value) (c : StratumClient μ) : StratumClient μ :=
  { c with
    tx := jReqs.foldl (fun tx jReq => tx.send c.isConnected (lib.writeString jReq)) c.tx }

/-- `send`. -/
def send (lib : Library) (jReq : Value) (c : StratumClient μ) : StratumClient μ :=
  transmit lib [jReq] { c with exchange := { c.exchange with sent := c.exchange.sent ++ [jReq] } }

/-- `enqueue_response_plea`. -/
def enqueuePlea (now : TimePoint) (c : StratumClient μ) : StratumClient μ :=
  { c with exchange := { c.exchange with pleas := c.exchange.pleas.enqueueResponsePlea now } }

/-- `clear_response_pleas`. -/
def clearPleas (now : TimePoint) (c : StratumClient μ) : StratumClient μ :=
  { c with exchange := { c.exchange with pleas := c.exchange.pleas.clearResponsePleas now } }

/-- `m_io_service.post(… disconnect …)`. -/
def postDisconnect (c : StratumClient μ) : StratumClient μ :=
  { c with exchange := { c.exchange with disconnects := c.exchange.disconnects + 1 } }

/-! ## Sockets -/

/-- The reads and writes of the socket will call their handlers, sooner or later. -/
def abandon (c : StratumClient μ) : StratumClient μ :=
  { c with
    reads := 0
    lateReads := c.lateReads + c.reads
    tx := { c.tx with outstanding := [] }
    lateWrites := c.lateWrites ++ c.tx.outstanding }

/-- `m_socket->close()`. -/
def closeSocket (c : StratumClient μ) : StratumClient μ := { c.abandon with socket := some false }

/-- `recvSocketData`. -/
def recvSocketData (c : StratumClient μ) : StratumClient μ := { c with reads := c.reads + 1 }

/-! ## Disconnecting -/

/-- The plea queue is cleared, the timer put to sleep, and `m_onDisconnected` called. -/
def release (now : TimePoint) (c : StratumClient μ) : StratumClient μ :=
  { c.clearPleas now with
    exchange := { (c.clearPleas now).exchange with solutionSubmittedMaxId := 0 }
    timer := none
    stage := .released }

/-- What `disconnect_finalize` does in any case. -/
def shutDown (c : StratumClient μ) : StratumClient μ :=
  { c.abandon with
    socket := none
    exchange := { c.exchange with session := none, authpending := false }
    disconnecting := false
    tx := { c.abandon.tx with txPending := false } }

/-- The connection definition is changed. -/
def withConn (f : Uri → Uri) (c : StratumClient μ) : StratumClient μ :=
  { c with exchange := { c.exchange with conn := f c.exchange.conn } }

/-- `m_io_service.post(… start_connect …)`. -/
def postStartConnect (c : StratumClient μ) : StratumClient μ :=
  { c with pending := { c.pending with startConnects := c.pending.startConnects + 1 } }

/-- `disconnect_finalize`.  During autodetection the next stratum mode is tried; when there
is none left, the connection is of no use. -/
def disconnectFinalize (now : TimePoint) (c : StratumClient μ) : StratumClient μ :=
  let c := c.shutDown
  if c.exchange.conn.autodetects then
    if 0 < c.exchange.conn.stratumMode then
      (c.withConn fun u => { u with stratumMode := u.stratumMode - 1 }).postStartConnect
    else (c.withConn Uri.markUnrecoverable).release now
  else c.release now

/-- `disconnect`.  A TLS connection is shut down asynchronously. -/
def disconnect (now : TimePoint) (c : StratumClient μ) : StratumClient μ :=
  if c.disconnecting then c
  else
    let c := { c with disconnecting := true, connected := false }
    let c := if c.socket.isSome then c.abandon else c
    if c.socket = some true then
      if c.isSecure then
        { c.enqueuePlea now with
          pending := { c.pending with shutdowns := c.pending.shutdowns + 1 }
          pleaTime := now }
      else c.closeSocket.disconnectFinalize now
    else c.disconnectFinalize now

/-- `onSSLShutdownCompleted`. -/
def onSSLShutdownCompleted (now : TimePoint) (c : StratumClient μ) : StratumClient μ :=
  { c.clearPleas now with
    pending := { c.pending with finalizes := c.pending.finalizes + 1 } }

/-! ## Connecting -/

/-- `connect`. -/
def connect (now : TimePoint) (c : StratumClient μ) : StratumClient μ :=
  if c.connecting then c
  else
    let c :=
      { c with
        stage := .engaged
        timer := some (now + workloopInterval)
        exchange := { c.exchange with authpending := false }
        socket := some (c.socket.getD false)
        endpoints := [] }
    if c.exchange.conn.hostNameType = .dns ∨ c.exchange.conn.hostNameType = .basic then
      { c with pending := { c.pending with resolves := c.pending.resolves + 1 } }
    else
      ({ c with endpoints := [⟨c.exchange.conn.host, c.exchange.conn.port⟩] }).postStartConnect

/-- `resolve_handler`: the endpoints found, or an error. -/
def resolveHandler (now : TimePoint) (result : Option (List Endpoint)) (c : StratumClient μ) :
    StratumClient μ :=
  match result with
  | some endpoints => ({ c with endpoints := c.endpoints ++ endpoints }).postStartConnect
  | none => ({ c with connecting := false }).disconnectFinalize now

/-- `start_connect`.  The operation opens the socket. -/
def startConnect (now : TimePoint) (c : StratumClient μ) : StratumClient μ :=
  if c.connecting then c
  else if c.endpoints ≠ [] then
    let c := ((c.clearPleas now).enqueuePlea now)
    { c with
      connecting := true
      socket := some true
      exchange := { c.exchange with solutionSubmittedMaxId := 0 }
      pending := { c.pending with connects := c.pending.connects + 1 }
      pleaTime := now }
  else c.disconnectFinalize now

/-- The end of `connect_handler`: the socket is connected, and the first message goes out. -/
def beginSession (lib : Library) (now : TimePoint) (c : StratumClient μ) : StratumClient μ :=
  let c := { c with
    exchange := c.exchange.login lib now
    tx := { c.tx with sendBuffer := c.tx.sendBuffer.drop 4096 } }
  c.recvSocketData.transmit lib [loginRequest lib c.exchange.conn]

/-- `connect_handler`.  The attempt has failed, or timed out, or the socket is connected.  A
TLS handshake that fails is fatal. -/
def connectHandler (lib : Library) (now : TimePoint) (failed handshakeFailed : Bool)
    (c : StratumClient μ) : Option (StratumClient μ) :=
  let c := { c with connecting := false }
  match c.socket with
  | none => none
  | some isOpen =>
    if failed || !isOpen then
      match c.endpoints with
      | [] => none
      | _ :: endpoints => some ({ c.closeSocket with endpoints }).postStartConnect
    else
      let c := { c.withConn fun u => { u with responds := true } with
        connected := true
        message := []
        tx := { c.tx with txQueue := [] } }
      if c.isSecure && handshakeFailed then some (c.withConn Uri.markUnrecoverable).postDisconnect
      else some (c.beginSession lib now)

/-! ## The timer -/

/-- A message that keeps the session of EthereumStratum/2.0.0 alive, 5 seconds before it
expires. -/
def keepAlive (lib : Library) (now : TimePoint) (c : StratumClient μ) : StratumClient μ :=
  match c.exchange.session with
  | none => c
  | some session =>
    if c.exchange.mode = some .ethereumstratum2 ∧
        (session.timeout - 5).toInt < toSeconds (now - session.lastTxStamp) then
      c.send lib (.object
        [("id".toList, .int 7), ("method".toList, .string "mining.noop".toList)])
    else c

/-- The endpoint is discarded, and the connection given up. -/
def discardEndpoint (now : TimePoint) (c : StratumClient μ) : Option (StratumClient μ) :=
  match c.endpoints with
  | [] => none
  | _ :: endpoints => some (({ c with endpoints }).clearPleas now).postDisconnect

/-- The checks while connected: on the response that has been waited for longest, and on new
work. -/
def checkConnected (cfg : Settings) (now : TimePoint) (delay : ℤ) (c : StratumClient μ) :
    Option (StratumClient μ) :=
  if c.isConnected then
    if cfg.responseMilliseconds ≤ delay then
      if !c.exchange.conn.stratumModeConfirmed && !c.exchange.conn.unrecoverable then
        some { c.clearPleas now with
          pending := { c.pending with fakeReplies := c.pending.fakeReplies + 1 } }
      else c.discardEndpoint now
    else if c.exchange.session.isSome ∧
        cfg.worktimeout.toInt < toSeconds (now - c.exchange.currentTimestamp) then
      c.discardEndpoint now
    else some c
  else some c

/-- Resubmit timing operations. -/
def rearm (now : TimePoint) (c : StratumClient μ) : StratumClient μ :=
  { c with timer := some (now + workloopInterval) }

/-- `workloop_timer_elapsed`, without an error.  Two of its branches close a socket, and
return. -/
def workloopTimerElapsed (lib : Library) (cfg : Settings) (now : TimePoint) (c : StratumClient μ) :
    Option (StratumClient μ) :=
  let c := ({ c with timer := none }).keepAlive lib now
  if c.exchange.pleas.responsePleasCount ≠ 0 then
    let delay := toMilliseconds (now - c.exchange.pleas.responsePleaOlder)
    if c.isPendingState ∧ delay ≤ cfg.responseMilliseconds then
      if c.connecting then
        if c.socket.isSome then some c.closeSocket else none
      else if c.disconnecting ∧ c.isSecure ∧ c.socket = some true then some c.closeSocket
      else (c.checkConnected cfg now delay).map (rearm now)
    else (c.checkConnected cfg now delay).map (rearm now)
  else some (c.rearm now)

/-! ## Reads and writes -/

/-- What a handler of the exchange has done, and sent. -/
def withReceiver (lib : Library) (toReceiver : Receiver μ) (c : StratumClient μ) :
    StratumClient μ :=
  ({ c with toReceiver }).transmit lib (toReceiver.exchange.sent.drop c.exchange.sent.length)

/-- Why a read fails: the pool has closed the connection (`eof`, or `SSL_RECEIVED_SHUTDOWN`), or
it is any other error.  The handler only logs the difference. -/
inductive ReadError where
  | closedByPool
  | failed
  deriving DecidableEq

/-- `onRecvSocketDataCompleted`: what was read, or an error. -/
def onRecv (lib : Library) (h : Handlers μ) (now : TimePoint)
    (result : Except ReadError StdString) (c : StratumClient μ) : Option (StratumClient μ) :=
  match result with
  | .error _ =>
    if c.isConnected then
      some (c.withConn fun u =>
        if c.exchange.authpending then u.markUnrecoverable else u).postDisconnect
    else some c
  | .ok rx =>
    match onRecvSocketDataCompleted lib h now rx c.toReceiver with
    | .error _ _ => none
    | .ok _ toReceiver =>
      let c := c.withReceiver lib toReceiver
      if c.isConnected then some c.recvSocketData else some c

/-- How a write ends.  An error may say that the TLS stream has been shut down. -/
inductive WriteResult where
  | ok
  | failed (protocolIsShutdown : Bool)
  deriving DecidableEq

/-- The time of the last transmission, for EthereumStratum/2.0.0. -/
def stampTx (now : TimePoint) (c : StratumClient μ) : StratumClient μ :=
  if c.exchange.mode = some .ethereumstratum2 then
    { c with exchange := { c.exchange with
        session := c.exchange.session.map fun session => { session with lastTxStamp := now } } }
  else c

/-- `onSendSocketDataCompleted`, after a write of some bytes. -/
def onSent (now : TimePoint) (bytes : StdString) (result : WriteResult) (c : StratumClient μ) :
    StratumClient μ :=
  match result with
  | .ok =>
    let tx := c.tx.complete bytes c.tx.outstanding
    { c.stampTx now with tx := tx.onSendSocketDataCompleted c.isConnected false }
  | .failed protocolIsShutdown =>
    let c := { c with tx := c.tx.onSendSocketDataCompleted c.isConnected true }
    let c := if protocolIsShutdown then c.postDisconnect else c
    if c.isConnected then c.postDisconnect else c

/-- The error response that a client without one sends itself. -/
def fakeReply : Value :=
  .object [("error".toList, .bool true), ("id".toList, .int 1), ("result".toList, .null)]

/-- `processResponse`, as it was posted.  Nothing catches what it throws. -/
def onFakeReply (lib : Library) (h : Handlers μ) (now : TimePoint) (c : StratumClient μ) :
    Option (StratumClient μ) :=
  match processResponse lib h now fakeReply c.exchange with
  | .error _ _ => none
  | .ok _ exchange => some (c.withReceiver lib { c.toReceiver with exchange })

/-- `submitHashrate`, of the request it has made. -/
def submitHashrate (lib : Library) (jReq : Value) (c : StratumClient μ) :
    Option (StratumClient μ) :=
  if !c.isConnected then some c
  else if c.exchange.mode = some .ethereumstratum2 ∧ c.exchange.session = none then none
  else some (c.send lib jReq)

/-- `submitSolution`, of the request it has made. -/
def submitSolution (lib : Library) (now : TimePoint) (id : BitVec 32) (jReq : Value)
    (c : StratumClient μ) : StratumClient μ :=
  if !c.exchange.isAuthorized then c
  else
    (({ c with exchange := { c.exchange with
        solutionSubmittedMaxId := if c.exchange.solutionSubmittedMaxId < id then id
          else c.exchange.solutionSubmittedMaxId } }).enqueuePlea now).send lib jReq

/-- What `submit` leaves of the members that messages work on, when it makes the request. -/
theorem submit_eq_submitSolution {c : StratumClient μ} {solution : Solution} {jReq : Value}
    (lib : Library) (now : TimePoint)
    (hrequest : ∀ session, c.exchange.session = some session →
      submission c.exchange.conn session.toSession solution = .ok jReq) :
    submit now solution c.exchange =
      .ok () (c.submitSolution lib now (submissionId solution) jReq).exchange := by
  cases hauth : c.exchange.isAuthorized with
  | false =>
    rw [submit_of_not_isAuthorized now solution hauth, submitSolution, hauth]
    rfl
  | true =>
    obtain ⟨session, hsession, hyes⟩ := (Option.any_eq_true _ _).mp hauth
    unfold submit submitSolution
    rw [get_bind, hsession, hauth]
    dsimp only
    rw [if_pos hyes, hrequest session hsession]
    rfl

end StratumClient

/-! ## Runs -/

/-- What may happen to a client: its owner calls, its timer elapses, an operation completes,
or what was posted is run. -/
inductive Event where
  | connect
  | disconnectCall
  | rotateConnect
  | submitHashrate (jReq : Value)
  | submitSolution (id : BitVec 32) (jReq : Value)
  | tick
  | resolved (result : Option (List Endpoint))
  | connectCompleted (failed handshakeFailed : Bool)
  | received (result : Except StratumClient.ReadError StdString)
  | lateReceived (result : Except StratumClient.ReadError StdString)
  | sent (result : StratumClient.WriteResult)
  | lateSent (result : StratumClient.WriteResult)
  | shutdownCompleted
  | startConnect
  | finalize
  | disconnect
  | fakeReply

/-- One of those that have been counted, if there is one. -/
def oneOf {α : Type} (n : ℕ) (k : ℕ → Option α) : Option α :=
  match n with
  | 0 => none
  | n + 1 => k n

/-- The oldest of a list, if there is one. -/
def oldestOf {α β : Type} (l : List β) (k : β → List β → Option α) : Option α :=
  match l with
  | [] => none
  | b :: rest => k b rest

theorem oneOf_eq_some {α : Type} {n : ℕ} {k : ℕ → Option α} {a : α} :
    oneOf n k = some a ↔ ∃ m, n = m + 1 ∧ k m = some a := by
  cases n with
  | zero => exact ⟨nofun, nofun⟩
  | succ n => exact ⟨fun h => ⟨n, rfl, h⟩, fun ⟨m, hm, h⟩ => Nat.succ.inj hm ▸ h⟩

theorem oldestOf_eq_some {α β : Type} {l : List β} {k : β → List β → Option α} {a : α} :
    oldestOf l k = some a ↔ ∃ b rest, l = b :: rest ∧ k b rest = some a := by
  cases l with
  | nil => exact ⟨nofun, nofun⟩
  | cons b rest =>
    refine ⟨fun h => ⟨b, rest, rfl, h⟩, ?_⟩
    rintro ⟨b', rest', hl, h⟩
    obtain ⟨rfl, rfl⟩ := List.cons.inj hl
    exact h

namespace StratumClient

variable (lib : Library) (h : Handlers μ) (cfg : Settings)

/-- One event, at a client that has not been released. -/
def handle (now : TimePoint) (c : StratumClient μ) : Event → Option (StratumClient μ)
  | .connect => some (c.connect now)
  | .disconnectCall => some (c.disconnect now)
  | .rotateConnect => none
  | .submitHashrate jReq => c.submitHashrate lib jReq
  | .submitSolution id jReq => some (c.submitSolution lib now id jReq)
  | .tick =>
    match c.timer with
    | none => none
    | some expiry => if expiry ≤ now then c.workloopTimerElapsed lib cfg now else none
  | .resolved result => oneOf c.pending.resolves fun n =>
    some (({ c with pending := { c.pending with resolves := n } }).resolveHandler now result)
  | .connectCompleted failed handshakeFailed => oneOf c.pending.connects fun n =>
    ({ c with pending := { c.pending with connects := n } }).connectHandler lib now failed
      handshakeFailed
  | .received result => oneOf c.reads fun n => ({ c with reads := n }).onRecv lib h now result
  | .lateReceived result => oneOf c.lateReads fun n =>
    ({ c with lateReads := n }).onRecv lib h now result
  | .sent result => oldestOf c.tx.outstanding fun bytes rest =>
    some (({ c with tx := { c.tx with outstanding := rest } }).onSent now bytes result)
  | .lateSent result => oldestOf c.lateWrites fun bytes rest =>
    some (({ c with lateWrites := rest }).onSent now bytes result)
  | .shutdownCompleted => oneOf c.pending.shutdowns fun n =>
    some (({ c with pending := { c.pending with shutdowns := n } }).onSSLShutdownCompleted now)
  | .startConnect => oneOf c.pending.startConnects fun n =>
    some (({ c with pending := { c.pending with startConnects := n } }).startConnect now)
  | .finalize => oneOf c.pending.finalizes fun n =>
    some (({ c with pending := { c.pending with finalizes := n } }).disconnectFinalize now)
  | .disconnect => oneOf c.exchange.disconnects fun n =>
    some (({ c with exchange := { c.exchange with disconnects := n } }).disconnect now)
  | .fakeReply => oneOf c.pending.fakeReplies fun n =>
    ({ c with pending := { c.pending with fakeReplies := n } }).onFakeReply lib h now

/-- One event, at its time.  Time does not go back.  The owner makes a new client when this
one is released, unless the connection is of no use. -/
def step (c : StratumClient μ) (e : TimePoint × Event) : Option (StratumClient μ) :=
  if e.1 < c.clock then none
  else if c.stage = .released then
    match e.2 with
    | .rotateConnect =>
      if c.exchange.conn.unrecoverable then none
      else some (create c.exchange.conn c.exchange.owner e.1)
    | _ => none
  else handle lib h cfg e.1 { c with clock := e.1 } e.2

/-- **What an event is**: a new client for one that was released, or a handler. -/
theorem step_cases {lib : Library} {h : Handlers μ} {cfg : Settings} {c c' : StratumClient μ}
    {now : TimePoint} {e : Event} (hc : step lib h cfg c (now, e) = some c') :
    (c.stage = .released ∧ e = .rotateConnect ∧ c.exchange.conn.unrecoverable = false ∧
        c' = create c.exchange.conn c.exchange.owner now) ∨
      (c.stage ≠ .released ∧ handle lib h cfg now { c with clock := now } e = some c') := by
  unfold step at hc
  by_cases hclock : now < c.clock
  · rw [if_pos hclock] at hc
    exact nomatch hc
  · rw [if_neg hclock] at hc
    by_cases hreleased : c.stage = .released
    · rw [if_pos hreleased] at hc
      cases e with
      | rotateConnect =>
        dsimp only at hc
        split_ifs at hc with hunrecoverable
        exact .inl ⟨hreleased, rfl, Bool.not_eq_true _ ▸ hunrecoverable,
          (Option.some.inj hc).symm⟩
      | _ => exact nomatch hc
    · rw [if_neg hreleased] at hc
      exact .inr ⟨hreleased, hc⟩

end StratumClient
end Stratum
end FpgaEthash
