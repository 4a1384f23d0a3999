import FpgaEthash.Computation.Throwing
import FpgaEthash.Jsoncpp.Value
import FpgaEthash.Stratum.Client

/-!
# The exchange with the pool

The members of `EthStratumClient` that `processResponse` works on, and the operations
it is made of.  A message of the pool may be left half processed: the conversions of
its texts throw, and what was assigned before stays assigned.  So a message is
processed in `EStateM`, over the members.

`Abort` lists how processing may end other than by its end.  The read loop catches
what derives from `std::exception`.  It does not catch the pointer to an exception that
`processResponse` throws in one place, and a null `m_session` is not an exception at
all.

Requests are kept in the order in which they were given to `send`, and disconnections
are counted as they are posted.
-/

namespace FpgaEthash
namespace Stratum

open Devcore Ethcore Jsoncpp Pool Throwing

/-! ## What the client is given -/

/-- How a function may be left: by an exception of the standard library, of jsoncpp or
of boost, by `throw new std::exception()`, or by a dereference of a null `m_session`. -/
inductive Abort where
  | std (e : StdException)
  | json (e : Jsoncpp.Exception)
  | overflowError
  | exceptionPointer
  | nullSession
  deriving DecidableEq, Repr

/-- What `catch (const std::exception&)` catches. -/
def Abort.isStdException : Abort → Bool
  | .exceptionPointer => false
  | .nullSession => false
  | _ => true

/-- What the client takes from elsewhere: the reader and the writer of jsoncpp, the
text of a floating-point number, `getTargetFromDiff` of a difficulty that is at least
0.0001, and the name it goes by. -/
structure Library where
  parse : StdString → Except Jsoncpp.Exception (Option Value)
  writeString : Value → StdString
  realText : ℚ → StdString
  getTargetFromDiff : ℚ → Except StdException StdString
  projectNameWithVersion : StdString
  deriving Inhabited

/-- The handlers that the owner of the client has set, over a state of its own.  One
that is not set does nothing.  The connection is what `getConnection` gives to the
handler of new work. -/
structure Handlers (μ : Type) where
  onConnected : EStateM StdException μ Unit := pure ()
  onSolutionAccepted : ℤ → BitVec 32 → Bool → EStateM StdException μ Unit :=
    fun _ _ _ => pure ()
  onSolutionRejected : ℤ → BitVec 32 → EStateM StdException μ Unit := fun _ _ => pure ()
  onWorkReceived : Uri → WorkPackage → EStateM Abort μ Unit := fun _ _ => pure ()

/-! ## The members -/

/-- `Session` with the members that only messages read or write. -/
structure LiveSession extends Session where
  subscribed : Bool := false
  firstMiningSet : Bool := false
  timeout : BitVec 32 := 30
  sessionId : StdString := []
  lastTxStamp : TimePoint
  deriving DecidableEq

/-- The mode that a number stands for. -/
def StratumMode.ofNumber : ℕ → Option StratumMode
  | 0 => some .stratum
  | 1 => some .ethproxy
  | 2 => some .ethereumstratum
  | 3 => some .ethereumstratum2
  | _ => none

/-- The members of `EthStratumClient` that `processResponse` works on, and the state of
the owner. -/
structure Exchange (μ : Type) where
  conn : Uri
  session : Option LiveSession := none
  authpending : Bool := false
  pleas : Pleas
  solutionSubmittedMaxId : BitVec 32 := 0
  current : WorkPackage := {}
  currentTimestamp : TimePoint := 0
  newjobprocessed : Bool := false
  sent : List Value := []
  disconnects : ℕ := 0
  owner : μ

variable {μ α : Type}

namespace Exchange

/-- `m_conn->StratumMode()`. -/
def mode (x : Exchange μ) : Option StratumMode := StratumMode.ofNumber x.conn.stratumMode

/-- `isSubscribed`. -/
def isSubscribed (x : Exchange μ) : Bool := x.session.any (·.subscribed)

/-- `isAuthorized`. -/
def isAuthorized (x : Exchange μ) : Bool := x.session.any (·.authorized)

end Exchange

/-! ## Logging in -/

/-- The first message after connection, by mode. -/
def loginRequest (lib : Library) (conn : Uri) : Value :=
  let subscribe : Value.Members :=
    [("id".toList, .int 1), ("method".toList, .string "mining.subscribe".toList)]
  match StratumMode.ofNumber conn.stratumMode with
  | some .stratum => .object (subscribe ++
      [("params".toList, .array []), ("jsonrpc".toList, .string "2.0".toList)])
  | some .ethproxy => .object
      ([("id".toList, .int 1), ("method".toList, .string "eth_submitLogin".toList)] ++
        (if conn.workername = [] then [] else [("worker".toList, .string conn.workername)]) ++
        [("params".toList, .array (.string (conn.user ++ conn.path) ::
          if conn.pass = [] then [] else [.string conn.pass]))])
  | some .ethereumstratum => .object (subscribe ++
      [("params".toList, .array
        [.string lib.projectNameWithVersion, .string "EthereumStratum/1.0.0".toList])])
  | some .ethereumstratum2 => .object
      [("id".toList, .int 1), ("method".toList, .string "mining.hello".toList),
        ("params".toList, .object
          [("agent".toList, .string lib.projectNameWithVersion),
            ("host".toList, .string conn.host),
            ("port".toList, .string (HexDigits.compactForm conn.port.toNat)),
            ("proto".toList, .string "EthereumStratum/2.0.0".toList)])]
  | none => .object (subscribe ++ [("params".toList, .array [])])

/-- What `connect_handler` does to these members when the socket is connected: the mode is
chosen, and the first message goes out. -/
def Exchange.login (lib : Library) (now : TimePoint) (s : Exchange μ) : Exchange μ :=
  let conn := { s.conn with responds := true }.selectStratumMode
  { s with
    conn
    pleas := (s.pleas.clearResponsePleas now).enqueueResponsePlea now
    sent := s.sent ++ [loginRequest lib conn] }

/-- A function of the client that works on these members. -/
abbrev Talk (μ : Type) := EStateM Abort (Exchange μ)

namespace Talk

/-! ## Operations -/

/-- A conversion of jsoncpp. -/
def ofJson (x : Except Jsoncpp.Exception α) : Talk μ α := ofExcept .json x

/-- A conversion of the standard library. -/
def ofStd (x : Except StdException α) : Talk μ α := ofExcept .std x

/-- A handler of the owner. -/
def call (x : EStateM StdException μ Unit) : Talk μ Unit := fun s =>
  match x s.owner with
  | .ok _ owner => .ok () { s with owner }
  | .error e owner => .error (.std e) { s with owner }

/-- A change of `m_session`, which must not be null. -/
def onSession (x : EStateM StdException Session Unit) : Talk μ Unit := fun s =>
  match s.session with
  | none => .error .nullSession s
  | some session =>
    match x session.toSession with
    | .ok _ toSession => .ok () { s with session := some { session with toSession } }
    | .error e toSession =>
      .error (.std e) { s with session := some { session with toSession } }

/-- A change of the members of `m_session` beyond `Session`. -/
def withSession (f : LiveSession → LiveSession) : Talk μ Unit := fun s =>
  match s.session with
  | none => .error .nullSession s
  | some session => .ok () { s with session := some (f session) }

/-- A change of `m_current`. -/
def onCurrent (x : EStateM StdException WorkPackage Unit) : Talk μ Unit := fun s =>
  match x s.current with
  | .ok _ current => .ok () { s with current }
  | .error e current => .error (.std e) { s with current }

/-- `send`. -/
def send (jReq : Value) : Talk μ Unit := modify fun s => { s with sent := s.sent ++ [jReq] }

/-- `m_io_service.post(… disconnect …)`. -/
def postDisconnect : Talk μ Unit := modify fun s => { s with disconnects := s.disconnects + 1 }

/-- `m_conn->MarkUnrecoverable()`. -/
def markUnrecoverable : Talk μ Unit := modify fun s => { s with conn := s.conn.markUnrecoverable }

/-- `m_conn->SetStratumMode(mode, true)`. -/
def confirmStratumMode (mode : ℕ) : Talk μ Unit :=
  modify fun s => { s with conn := s.conn.setStratumMode mode true }

/-- `enqueue_response_plea`. -/
def enqueueResponsePlea (now : TimePoint) : Talk μ Unit :=
  modify fun s => { s with pleas := s.pleas.enqueueResponsePlea now }

/-- `dequeue_response_plea`. -/
def dequeueResponsePlea (now : TimePoint) : Talk μ ℤ :=
  modifyGet fun s =>
    ((s.pleas.dequeueResponsePlea now).1,
      { s with pleas := (s.pleas.dequeueResponsePlea now).2 })

/-- A store to `m_authpending`. -/
def setAuthpending (pending : Bool) : Talk μ Unit :=
  modify fun s => { s with authpending := pending }

/-- `startSession`. -/
def startSession (h : Handlers μ) (now : TimePoint) : Talk μ Unit := do
  modify fun s => { s with session := some { lastTxStamp := now }, currentTimestamp := now }
  call h.onConnected

end Talk
end Stratum
end FpgaEthash
