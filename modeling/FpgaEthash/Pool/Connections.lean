import FpgaEthash.Computation.Cursor
import FpgaEthash.Computation.Runs
import FpgaEthash.Ethcore.Farm

/-!
# The connections of the pool manager

`libpoolprotocols/PoolManager.cpp`: the list of connections, the one that is active, and
the functions that move from one to the next.  `rotateConnect` is posted by `start` and
by the handler of `onDisconnected`; the failover timer and the requests of the API come
in between, and a client may mark its connection as unrecoverable at any time.

A connection is an object that the list, the client and the API share.  Objects are the
elements of a type `κ`, so that the same object in two places is the same element, and
what a client writes into one, `unrecoverable`, is a function on `κ`.

`connections.at` throws when there is no such entry; `rotateConnect` is therefore an
`Except` computation.  The requests of the API throw texts of their own, and leave
everything as it was when they do.
-/

namespace FpgaEthash
namespace Pool

open Devcore Ethcore Cursor

/-- What the manager reads of a connection, and nobody changes: `str()` and `Host()`. -/
structure Address where
  str : StdString
  host : StdString
  deriving DecidableEq

/-- `boost::iequals`. -/
def iequals (s t : StdString) : Bool := s.map Char.toLower == t.map Char.toLower

/-- `p_client`: the connection that it was given, until it is unset, and
`isConnected()`. -/
structure PoolClient (κ : Type) where
  conn : Option κ
  isConnected : Bool := false
  deriving DecidableEq

/-- An attempt that `rotateConnect` started, and whether the connection was marked as
unrecoverable at that moment. -/
structure Attempt (κ : Type) where
  conn : κ
  marked : Bool
  deriving DecidableEq

/-- The members of `PoolManager` that choose the connection, the settings they read, the
marks of the connections and the farm.  `sigterm` says that `SIGTERM` was raised, and
`attempts` lists the attempts that `rotateConnect` has started. -/
structure Connections (κ : Type) where
  connections : List κ
  connectionMaxRetries : ℕ := 3
  unrecoverable : κ → Bool := fun _ => false
  running : Bool := false
  asyncPending : Bool := false
  connectionAttempt : ℕ := 0
  connectionSwitches : BitVec 32 := 0
  activeConnectionIdx : ℕ := 0
  client : Option (PoolClient κ) := none
  farm : Farm := {}
  sigterm : Bool := false
  attempts : List (Attempt κ) := []

namespace Connections

variable {κ : Type}

/-- `std::out_of_range`, as `at` throws it. -/
inductive OutOfRange where
  | outOfRange
  deriving DecidableEq, Repr

/-- `connections.at(m_activeConnectionIdx)`. -/
def active (s : Connections κ) : Except OutOfRange κ :=
  match s.connections[s.activeConnectionIdx]? with
  | some c => .ok c
  | none => .error .outOfRange

/-- `p_client && p_client->isConnected()`. -/
def isConnected (s : Connections κ) : Bool := s.client.any PoolClient.isConnected

/-! ## `rotateConnect` -/

/-- The active connection is unrecoverable: discard it. -/
def discardActive (s : Connections κ) : Connections κ :=
  { s with
    connections := s.connections.eraseIdx s.activeConnectionIdx
    connectionAttempt := 0
    activeConnectionIdx :=
      wrap (s.connections.eraseIdx s.activeConnectionIdx).length s.activeConnectionIdx
    connectionSwitches := s.connectionSwitches + 1 }

/-- The attempts are used up: go to the next connection.  The only one is erased, since
there is nothing to rotate to. -/
def rotate (s : Connections κ) : Connections κ :=
  if s.connections.length = 1 then
    { s with connections := s.connections.eraseIdx s.activeConnectionIdx }
  else
    { s with
      connectionAttempt := 0
      activeConnectionIdx := wrap s.connections.length (s.activeConnectionIdx + 1)
      connectionSwitches := s.connectionSwitches + 1 }

/-- The first part of `rotateConnect`: which connection is to be tried. -/
def select (s : Connections κ) : Except OutOfRange (Connections κ) := do
  let s := { s with activeConnectionIdx := wrap s.connections.length s.activeConnectionIdx }
  let c ← s.active
  if s.unrecoverable c then pure s.discardActive
  else if s.connectionMaxRetries ≤ s.connectionAttempt then pure s.rotate
  else pure s

/-- A new client tries the connection, at once or when the reconnect timer elapses. -/
def connect (s : Connections κ) (c : κ) : Connections κ :=
  { s with
    client := some { conn := some c }
    connectionAttempt := s.connectionAttempt + 1
    attempts := s.attempts ++ [⟨c, s.unrecoverable c⟩] }

/-- No more connections to try, or `exit` is hit. -/
def giveUp (s : Connections κ) : Connections κ :=
  { s with
    farm := if s.farm.isMining then s.farm.stop else s.farm
    running := false
    sigterm := true }

/-- The host of the connection that ends the failover. -/
def exitHost : StdString := "exit".toList

/-- The second part of `rotateConnect`: try the connection. -/
def connectActive (address : κ → Address) (s : Connections κ) :
    Except OutOfRange (Connections κ) :=
  if s.connections = [] then pure s.giveUp
  else do
    let c ← s.active
    if (address c).host ≠ exitHost then pure (s.connect c) else pure s.giveUp

/-- `rotateConnect`. -/
def rotateConnect (address : κ → Address) (s : Connections κ) :
    Except OutOfRange (Connections κ) :=
  if s.isConnected then pure s else s.select >>= connectActive address

/-! ## Timers, requests and handlers -/

/-- A manager as its constructor leaves it. -/
def new (connections : List κ) (connectionMaxRetries : ℕ) (farm : Farm) : Connections κ :=
  { connections, connectionMaxRetries, farm }

/-- `start`, which posts `rotateConnect`. -/
def start (s : Connections κ) : Connections κ :=
  { s with
    running := true
    asyncPending := true
    connectionSwitches := s.connectionSwitches + 1 }

/-- `p_client->disconnect()`.  The client answers with `onDisconnected`; there is no
client before the first attempt. -/
def disconnect (s : Connections κ) : Option (Connections κ) := s.client.map fun _ => s

/-- `failovertimer_elapsed`, where `ec` says that the timer was cancelled. -/
def failovertimerElapsed (s : Connections κ) (ec : Bool) : Option (Connections κ) :=
  if !ec && s.running && s.activeConnectionIdx != 0 then
    disconnect
      { s with
        activeConnectionIdx := 0
        connectionAttempt := 0
        connectionSwitches := s.connectionSwitches + 1 }
  else some s

/-- What the requests of the API throw. -/
inductive Refusal where
  | outstandingOperations
  | outOfBounds
  | activeConnection
  | notFound
  deriving DecidableEq, Repr

/-- `addConnection`. -/
def addConnection (s : Connections κ) (c : κ) : Connections κ :=
  { s with connections := s.connections ++ [c] }

/-- `removeConnection`. -/
def removeConnection (s : Connections κ) (idx : ℕ) : Except Refusal (Connections κ) :=
  if s.asyncPending then .error .outstandingOperations
  else if s.connections.length ≤ idx then .error .outOfBounds
  else if idx = s.activeConnectionIdx then .error .activeConnection
  else .ok
    { s with
      connections := s.connections.eraseIdx idx
      activeConnectionIdx :=
        if idx < s.activeConnectionIdx then s.activeConnectionIdx - 1
        else s.activeConnectionIdx }

/-- `setActiveConnectionCommon`. -/
def setActiveConnectionCommon (s : Connections κ) (idx : ℕ) :
    Except Refusal (Option (Connections κ)) :=
  if s.asyncPending then .error .outstandingOperations
  else if idx ≠ s.activeConnectionIdx then .ok <|
    disconnect
      { s with
        asyncPending := true
        connectionSwitches := s.connectionSwitches + 1
        activeConnectionIdx := idx
        connectionAttempt := 0 }
  else .ok (some s)

/-- `setActiveConnection`, by index. -/
def setActiveConnection (s : Connections κ) (idx : ℕ) :
    Except Refusal (Option (Connections κ)) :=
  if s.connections.length ≤ idx then .error .outOfBounds else s.setActiveConnectionCommon idx

/-- `setActiveConnection`, by the text of the connection. -/
def setActiveConnectionString (address : κ → Address) (s : Connections κ)
    (connstring : StdString) : Except Refusal (Option (Connections κ)) :=
  match s.connections.findIdx? fun c => iequals (address c).str connstring with
  | some idx => s.setActiveConnectionCommon idx
  | none => .error .notFound

/-- The handler of `onConnected`; `draw` is what the random device yields. -/
def onConnected (s : Connections κ) (draw : BitVec 64) : Connections κ :=
  let farm := if s.farm.settings.ergodicity = 1 then s.farm.shuffle draw else s.farm
  { s with
    connectionAttempt := 0
    farm := if !farm.isMining then farm.start else if farm.paused then farm.resume else farm
    asyncPending := false }

/-- The handler of `onDisconnected`, which posts `rotateConnect`. -/
def onDisconnected (s : Connections κ) : Connections κ :=
  { s with
    client := s.client.map fun p => { p with conn := none }
    asyncPending := true
    farm := s.farm.pause }

/-- `MarkUnrecoverable`, on one connection. -/
def markUnrecoverable [DecidableEq κ] (s : Connections κ) (c : κ) : Connections κ :=
  { s with unrecoverable := Function.update s.unrecoverable c true }

/-! ## Events -/

/-- What can happen.  `linked` is a client whose socket gets connected; it reports
`connected` once its session has started, and `disconnected` when it has closed. -/
inductive Event (κ : Type) where
  | rotateConnect
  | addConnection (c : κ)
  | removeConnection (idx : ℕ)
  | setActiveConnection (idx : ℕ)
  | setActiveConnectionString (connstring : StdString)
  | failovertimerElapsed (ec : Bool)
  | markUnrecoverable (c : κ)
  | linked
  | connected (draw : BitVec 64)
  | disconnected
  deriving DecidableEq

/-- A request of the API: what it throws goes back to the caller. -/
def request (s : Connections κ) : Except Refusal (Option (Connections κ)) →
    Option (Connections κ)
  | .error _ => some s
  | .ok t => t

/-- `isConnected()` of the client becomes what is given. -/
def setLink (s : Connections κ) (isConnected : Bool) : Connections κ :=
  { s with client := s.client.map fun p => { p with isConnected } }

/-- One event.  `none` says that the program does not go on: `rotateConnect` throws, or
there is no client to disconnect. -/
def step [DecidableEq κ] (address : κ → Address) (s : Connections κ) :
    Event κ → Option (Connections κ)
  | .rotateConnect => (s.rotateConnect address).toOption
  | .addConnection c => some (s.addConnection c)
  | .removeConnection idx => s.request ((s.removeConnection idx).map some)
  | .setActiveConnection idx => s.request (s.setActiveConnection idx)
  | .setActiveConnectionString connstring =>
    s.request (s.setActiveConnectionString address connstring)
  | .failovertimerElapsed ec => s.failovertimerElapsed ec
  | .markUnrecoverable c => some (s.markUnrecoverable c)
  | .linked => some (s.setLink true)
  | .connected draw => some (s.onConnected draw)
  | .disconnected => some (s.setLink false).onDisconnected

end Connections
end Pool
end FpgaEthash
