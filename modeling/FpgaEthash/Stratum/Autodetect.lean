import FpgaEthash.Stratum.ReadReturns
import FpgaEthash.Stratum.Watchdog

/-!
# Autodetection of the stratum mode

A pool whose scheme names no version is tried with one stratum mode after another, from 3
down to 0.  A mode is tested by connecting and logging in.  When the client is
disconnected before the mode is confirmed, `disconnect_finalize` takes the next one, and
after the last it marks the connection as unrecoverable.  It asks `Responds()` whether
there was a connection at all.  But this only says that there has been one, at some time,
in some mode.

A `History` is kept beside a run: whether a socket connection was established in the
present mode, and whether the negotiation then failed.  It fails if the client gives the
connection up over a message of the pool, after a timeout, or because the pool has closed
it (`endsNegotiation`); an error of the network is no failed negotiation.  The history is
`sound` if each mode that was left had been tested in this way.

`tested_of_proper` says which runs are sound.  The argument is that only one thing is
under way at a time (`InPhase`).  What spoils it is listed in `Proper`: a read or a write
fails, `start_connect` finds no endpoint left, a disconnection runs that is not the only one
or that finds no connection, or a read or write of an old connection comes late.
-/

namespace FpgaEthash
namespace Stratum

open Devcore Ethcore Jsoncpp Pool Throwing Talk Runs Framing

variable {μ : Type}

/-! ## The history of a run -/

/-- The mode is neither confirmed nor has the connection been given up. -/
def Undecided (u : Uri) : Prop := u.stratumModeConfirmed = false ∧ u.unrecoverable = false

instance (u : Uri) : Decidable (Undecided u) := inferInstanceAs (Decidable (_ ∧ _))

/-- In the present mode a socket connection was established; the negotiation then failed; and so
it was with each mode that has been left. -/
structure History where
  established : Bool := false
  failed : Bool := false
  sound : Bool := true
  deriving DecidableEq

/-- A disconnection that this event posts says that the pool does not speak the mode: it comes
from a message of the pool, from a timeout, or from the pool closing the connection. -/
def Event.endsNegotiation : Event → Bool
  | .received (.ok _) | .received (.error .closedByPool) | .tick | .fakeReply => true
  | _ => false

namespace StratumClient

/-- The step leaves a mode: for the one below it, or, with the client released and the
connection marked as unrecoverable, for none. -/
def Leaves (c c' : StratumClient μ) : Prop :=
  c'.exchange.conn.stratumMode + 1 = c.exchange.conn.stratumMode ∨
    (c'.stage = .released ∧ c.exchange.conn.unrecoverable = false ∧
      c'.exchange.conn.unrecoverable = true)

instance (c c' : StratumClient μ) : Decidable (Leaves c c') :=
  inferInstanceAs (Decidable (_ ∨ _ ∧ _ ∧ _))

/-- The history after a step.  A new client starts anew. -/
def historyAfter (hist : History) (e : Event) (c c' : StratumClient μ) : History :=
  if c.stage = .released then { sound := hist.sound }
  else if Leaves c c' then { sound := hist.sound && (hist.established && hist.failed) }
  else if c.connected = false ∧ c'.connected = true then
    { established := true, sound := hist.sound }
  else if hist.established = true ∧ c.exchange.disconnects < c'.exchange.disconnects ∧
      e.endsNegotiation = true then
    { hist with failed := true }
  else hist

/-- A step, with the history. -/
def stepHistory (lib : Library) (h : Handlers μ) (cfg : Settings)
    (s : StratumClient μ × History) (e : TimePoint × Event) :
    Option (StratumClient μ × History) :=
  (step lib h cfg s.1 e).map fun c' => (c', historyAfter s.2 e.2 s.1 c')

/-! ## What most handlers leave alone -/

/-- Nothing happens to the connection.  What is sent while there is none, is not written. -/
structure SameControl (c c' : StratumClient μ) : Prop where
  conn : c'.exchange.conn = c.exchange.conn
  disconnects : c'.exchange.disconnects = c.exchange.disconnects
  connected : c'.connected = c.connected
  connecting : c'.connecting = c.connecting
  disconnecting : c'.disconnecting = c.disconnecting
  pending : c'.pending = c.pending
  stage : c'.stage = c.stage
  socket : c.socket = none → c'.socket = none
  reads : c.reads = 0 → c'.reads = 0
  writes : c.isConnected = false → c.tx.outstanding = [] → c'.tx.outstanding = []

theorem SameControl.refl (c : StratumClient μ) : SameControl c c :=
  ⟨rfl, rfl, rfl, rfl, rfl, rfl, rfl, id, id, fun _ => id⟩

theorem SameControl.isConnected {c c' : StratumClient μ} (hsame : SameControl c c') :
    c'.isConnected = c.isConnected := by
  unfold StratumClient.isConnected isPendingState
  rw [hsame.connected, hsame.connecting, hsame.disconnecting]

theorem SameControl.trans {c d e : StratumClient μ} (hcd : SameControl c d)
    (hde : SameControl d e) : SameControl c e where
  conn := hde.conn.trans hcd.conn
  disconnects := hde.disconnects.trans hcd.disconnects
  connected := hde.connected.trans hcd.connected
  connecting := hde.connecting.trans hcd.connecting
  disconnecting := hde.disconnecting.trans hcd.disconnecting
  pending := hde.pending.trans hcd.pending
  stage := hde.stage.trans hcd.stage
  socket := fun h => hde.socket (hcd.socket h)
  reads := fun h => hde.reads (hcd.reads h)
  writes := fun h hwrites => hde.writes (hcd.isConnected.trans h) (hcd.writes h hwrites)

/-- Changes of the queue that start no write. -/
theorem sameControl_tx {c : StratumClient μ} {tx : Transmitter}
    (htx : c.isConnected = false → tx.outstanding = c.tx.outstanding) :
    SameControl c { c with tx } :=
  ⟨rfl, rfl, rfl, rfl, rfl, rfl, rfl, id, id, fun h hwrites => (htx h).trans hwrites⟩

section Same

variable (lib : Library) (now : TimePoint) (c : StratumClient μ)

theorem outstanding_sendSocketData (t : Transmitter) :
    (t.sendSocketData false).outstanding = t.outstanding := rfl

theorem outstanding_send (t : Transmitter) (line : StdString) :
    (t.send false line).outstanding = t.outstanding := by
  unfold Transmitter.send
  dsimp only
  split_ifs
  · rfl
  · exact outstanding_sendSocketData _

theorem sameControl_transmit (jReqs : List Value) : SameControl c (c.transmit lib jReqs) := by
  refine sameControl_tx fun hconnected => ?_
  rw [hconnected]
  generalize c.tx = t
  induction jReqs generalizing t with
  | nil => rfl
  | cons jReq jReqs ih =>
    rw [List.foldl_cons, ih, outstanding_send]

theorem sameControl_send (jReq : Value) : SameControl c (c.send lib jReq) := by
  have hsent : SameControl c
      { c with exchange := { c.exchange with sent := c.exchange.sent ++ [jReq] } } :=
    ⟨rfl, rfl, rfl, rfl, rfl, rfl, rfl, id, id, fun _ => id⟩
  exact hsent.trans (sameControl_transmit lib _ [jReq])

theorem sameControl_keepAlive : SameControl c (c.keepAlive lib now) := by
  unfold keepAlive
  split
  · exact .refl c
  · split_ifs
    · exact sameControl_send lib c _
    · exact .refl c

theorem sameControl_closeSocket (hopen : c.socket.isSome = true) : SameControl c c.closeSocket where
  conn := rfl
  disconnects := rfl
  connected := rfl
  connecting := rfl
  disconnecting := rfl
  pending := rfl
  stage := rfl
  socket := fun hnone => nomatch hnone ▸ hopen
  reads := fun _ => rfl
  writes := fun _ _ => rfl

theorem sameControl_onSent (bytes : StdString) : SameControl c (c.onSent now bytes .ok) := by
  have hstamp : SameControl c (c.stampTx now) := by
    unfold stampTx
    split_ifs
    · exact ⟨rfl, rfl, rfl, rfl, rfl, rfl, rfl, id, id, fun _ => id⟩
    · exact .refl c
  have htx : (c.stampTx now).tx = c.tx := by
    unfold stampTx
    split_ifs <;> rfl
  refine hstamp.trans (sameControl_tx fun hconnected => ?_)
  rw [hstamp.isConnected] at hconnected
  rw [hconnected, htx]
  unfold Transmitter.onSendSocketDataCompleted
  rw [if_neg Bool.false_ne_true]
  split_ifs
  · rfl
  · exact outstanding_sendSocketData _

variable {c} {c' : StratumClient μ}

/-- A write that fails after its connection is gone. -/
theorem sameControl_onSent_failed (bytes : StdString) (hconnected : c.isConnected = false) :
    SameControl c (c.onSent now bytes (.failed false)) := by
  have hsame : SameControl c { c with tx := c.tx.onSendSocketDataCompleted c.isConnected true } :=
    sameControl_tx fun _ => rfl
  have hnot := Bool.eq_false_iff.mp (hsame.isConnected.trans hconnected)
  unfold onSent
  dsimp only
  rw [if_neg Bool.false_ne_true, if_neg hnot]
  exact hsame

theorem sameControl_submitHashrate {jReq : Value} (hc : c.submitHashrate lib jReq = some c') :
    SameControl c c' := by
  unfold submitHashrate at hc
  split_ifs at hc
  · exact Option.some.inj hc ▸ .refl c
  · exact Option.some.inj hc ▸ sameControl_send lib c jReq

theorem sameControl_submitSolution (id : BitVec 32) (jReq : Value) :
    SameControl c (c.submitSolution lib now id jReq) := by
  unfold submitSolution
  by_cases hauthorized : (!c.exchange.isAuthorized) = true
  · rw [if_pos hauthorized]
    exact .refl c
  · rw [if_neg hauthorized]
    refine SameControl.trans ?_ (sameControl_send lib _ jReq)
    exact ⟨rfl, rfl, rfl, rfl, rfl, rfl, rfl, fun h => h, fun h => h, fun _ h => h⟩

end Same

/-! ## What happens while the connection is up -/

/-- The mode stays, or is the first one; and what is decided stays decided. -/
structure Settles (u u' : Uri) : Prop where
  version : u'.version = u.version
  mode : u'.stratumMode = u.stratumMode ∨ (u.stratumMode = 999 ∧ u'.stratumMode = 3)
  confirmed : u.stratumModeConfirmed = true → u'.stratumModeConfirmed = true
  unrecoverable : u.unrecoverable = true → u'.unrecoverable = true

theorem Settles.refl (u : Uri) : Settles u u := ⟨rfl, .inl rfl, id, id⟩

theorem Settles.trans {u v w : Uri} (huv : Settles u v) (hvw : Settles v w) : Settles u w where
  version := hvw.version.trans huv.version
  mode := by
    rcases huv.mode with hsame | ⟨hfirst, hthree⟩
    · rw [← hsame]
      exact hvw.mode
    · rcases hvw.mode with hsame | ⟨hfirst', -⟩
      · exact .inr ⟨hfirst, hsame.trans hthree⟩
      · exact nomatch hthree.symm.trans hfirst'
  confirmed := fun h => hvw.confirmed (huv.confirmed h)
  unrecoverable := fun h => hvw.unrecoverable (huv.unrecoverable h)

theorem Settles.of_bound {s t : Exchange μ} (h : Bound s t) : Settles s.conn t.conn := by
  obtain ⟨c, r, hconn, hc, hr⟩ := h.conn
  rw [hconn]
  exact ⟨rfl, .inl rfl, hc, hr⟩

theorem Settles.undecided {u u' : Uri} (h : Settles u u') (hu : Undecided u') : Undecided u :=
  ⟨Bool.eq_false_iff.mpr fun hc => (nomatch hu.1.symm.trans (h.confirmed hc)),
    Bool.eq_false_iff.mpr fun hr => (nomatch hu.2.symm.trans (h.unrecoverable hr))⟩

/-- Messages come, disconnections are posted, and responses are given up, but the connection
stays up. -/
structure Busy (c c' : StratumClient μ) : Prop where
  conn : Settles c.exchange.conn c'.exchange.conn
  disconnects : c.exchange.disconnects ≤ c'.exchange.disconnects
  connected : c'.connected = c.connected
  connecting : c'.connecting = c.connecting
  disconnecting : c'.disconnecting = c.disconnecting
  pending : ∃ n, c'.pending = { c.pending with fakeReplies := n }
  stage : c'.stage = c.stage

theorem SameControl.busy {c c' : StratumClient μ} (hsame : SameControl c c') : Busy c c' where
  conn := hsame.conn ▸ .refl _
  disconnects := hsame.disconnects.ge
  connected := hsame.connected
  connecting := hsame.connecting
  disconnecting := hsame.disconnecting
  pending := ⟨c.pending.fakeReplies, hsame.pending⟩
  stage := hsame.stage

theorem Busy.settles {c c' : StratumClient μ} (hbusy : Busy c c') :
    Settles c.exchange.conn c'.exchange.conn ∧
      (c'.exchange.conn = c.exchange.conn ∨ c'.stage = c.stage) :=
  ⟨hbusy.conn, .inr hbusy.stage⟩

theorem Busy.trans {c d e : StratumClient μ} (hcd : Busy c d) (hde : Busy d e) : Busy c e where
  conn := hcd.conn.trans hde.conn
  disconnects := hcd.disconnects.trans hde.disconnects
  connected := hde.connected.trans hcd.connected
  connecting := hde.connecting.trans hcd.connecting
  disconnecting := hde.disconnecting.trans hcd.disconnecting
  pending := by
    obtain ⟨m, hm⟩ := hcd.pending
    obtain ⟨n, hn⟩ := hde.pending
    exact ⟨n, by rw [hn, hm]⟩
  stage := hde.stage.trans hcd.stage

section Up

variable (lib : Library) (h : Handlers μ) (cfg : Settings) (now : TimePoint)
  {c c' : StratumClient μ}

/-- What a handler of the exchange does. -/
theorem busy_withReceiver {r : Receiver μ} (hbound : Bound c.exchange r.exchange) :
    Busy c (c.withReceiver lib r) :=
  ⟨.of_bound hbound, hbound.disconnects, rfl, rfl, rfl, ⟨_, rfl⟩, rfl⟩

theorem busy_onRecv {result : Except ReadError StdString}
    (hc : c.onRecv lib h now result = some c') : Busy c c' := by
  unfold onRecv at hc
  cases result with
  | error why =>
    dsimp only at hc
    by_cases hconnected : c.isConnected = true
    · rw [if_pos hconnected] at hc
      obtain rfl := Option.some.inj hc
      refine ⟨?_, Nat.le_succ _, rfl, rfl, rfl, ⟨_, rfl⟩, rfl⟩
      show Settles _ (if c.exchange.authpending then _ else _)
      split_ifs
      · exact ⟨rfl, .inl rfl, id, fun _ => rfl⟩
      · exact .refl _
    · rw [if_neg hconnected] at hc
      exact Option.some.inj hc ▸ (SameControl.refl c).busy
  | ok rx =>
    have hbound := bound_onRecvSocketDataCompleted lib h now rx c.toReceiver
    dsimp only at hc
    cases hr : onRecvSocketDataCompleted lib h now rx c.toReceiver with
    | error e r =>
      rw [hr] at hc
      exact nomatch hc
    | ok u r =>
      rw [hr] at hc
      rw [leaves_of_ok hr] at hbound
      have hbusy := busy_withReceiver lib (c := c) hbound
      dsimp only at hc
      split_ifs at hc
      · obtain rfl := Option.some.inj hc
        exact ⟨hbusy.conn, hbusy.disconnects, rfl, rfl, rfl, ⟨_, rfl⟩, rfl⟩
      · exact Option.some.inj hc ▸ hbusy

theorem busy_onFakeReply (hc : c.onFakeReply lib h now = some c') : Busy c c' := by
  have hbound := processResponse_bound lib h now (s := c.exchange) (m := fakeReply)
  unfold onFakeReply at hc
  cases hr : processResponse lib h now fakeReply c.exchange with
  | error e s =>
    rw [hr] at hc
    exact nomatch hc
  | ok u s =>
    rw [hr] at hc
    rw [leaves_of_ok hr] at hbound
    obtain rfl := Option.some.inj hc
    exact busy_withReceiver lib (r := { c.toReceiver with exchange := s }) hbound

theorem busy_onSent (bytes : StdString) (result : WriteResult) :
    Busy c (c.onSent now bytes result) := by
  cases result with
  | ok => exact (sameControl_onSent now c bytes).busy
  | failed protocolIsShutdown =>
    unfold onSent
    dsimp only
    split_ifs
    · exact ⟨.refl _, Nat.le_add_right _ 2, rfl, rfl, rfl, ⟨_, rfl⟩, rfl⟩
    · exact ⟨.refl _, Nat.le_succ _, rfl, rfl, rfl, ⟨_, rfl⟩, rfl⟩
    · exact ⟨.refl _, Nat.le_succ _, rfl, rfl, rfl, ⟨_, rfl⟩, rfl⟩
    · exact ⟨.refl _, le_rfl, rfl, rfl, rfl, ⟨_, rfl⟩, rfl⟩

/-- The checks while connected. -/
theorem busy_checkConnected {delay : ℤ} (hc : c.checkConnected cfg now delay = some c') :
    SameControl c c' ∨ (c.isConnected = true ∧ Busy c c') := by
  have hdiscard : ∀ {c'}, c.discardEndpoint now = some c' → Busy c c' := by
    intro c' hc
    unfold discardEndpoint at hc
    split at hc
    · exact nomatch hc
    · obtain rfl := Option.some.inj hc
      exact ⟨.refl _, Nat.le_succ _, rfl, rfl, rfl, ⟨_, rfl⟩, rfl⟩
  unfold checkConnected at hc
  split_ifs at hc with hconnected
  · obtain rfl := Option.some.inj hc
    exact .inr ⟨hconnected, .refl _, le_rfl, rfl, rfl, rfl, ⟨_, rfl⟩, rfl⟩
  · exact .inr ⟨hconnected, hdiscard hc⟩
  · exact .inr ⟨hconnected, hdiscard hc⟩
  · exact .inl (Option.some.inj hc ▸ .refl c)
  · exact .inl (Option.some.inj hc ▸ .refl c)

/-- **A tick** does something to the connection only while it is up. -/
theorem busy_workloopTimerElapsed (hc : c.workloopTimerElapsed lib cfg now = some c') :
    SameControl c c' ∨ (c.isConnected = true ∧ Busy c c') := by
  have htimer : SameControl c { c with timer := none } :=
    ⟨rfl, rfl, rfl, rfl, rfl, rfl, rfl, id, id, fun _ => id⟩
  have hsame := htimer.trans (sameControl_keepAlive lib now { c with timer := none })
  unfold workloopTimerElapsed at hc
  dsimp only at hc
  generalize ({ c with timer := none } : StratumClient μ).keepAlive lib now = d at hc hsame
  have hrearm : ∀ d : StratumClient μ, SameControl d (d.rearm now) :=
    fun _ => ⟨rfl, rfl, rfl, rfl, rfl, rfl, rfl, id, id, fun _ => id⟩
  have hcheck : ∀ {delay : ℤ}, (d.checkConnected cfg now delay).map (rearm now) = some c' →
      SameControl c c' ∨ (c.isConnected = true ∧ Busy c c') := by
    intro delay hmap
    obtain ⟨d', hd', rfl⟩ := Option.map_eq_some_iff.mp hmap
    rcases busy_checkConnected cfg now hd' with hsame' | ⟨hconnected, hbusy⟩
    · exact .inl (hsame.trans (hsame'.trans (hrearm d')))
    · exact .inr ⟨hsame.isConnected ▸ hconnected,
        hsame.busy.trans (hbusy.trans (hrearm d').busy)⟩
  split_ifs at hc with hcount hpending hconnecting hsocket hshutdown
  · exact .inl (Option.some.inj hc ▸ hsame.trans (sameControl_closeSocket d hsocket))
  · refine .inl (Option.some.inj hc ▸ hsame.trans (sameControl_closeSocket d ?_))
    rw [hshutdown.2.2]
    rfl
  · exact hcheck hc
  · exact hcheck hc
  · exact .inl (Option.some.inj hc ▸ hsame.trans (hrearm d))

end Up

/-! ## One thing at a time -/

/-- There is no connection, and nothing under way that could post a disconnection. -/
structure Down (c : StratumClient μ) : Prop where
  connected : c.connected = false
  reads : c.reads = 0
  writes : c.tx.outstanding = []
  disconnects : c.exchange.disconnects = 0

theorem Down.isConnected {c : StratumClient μ} (hdown : Down c) : c.isConnected = false := by
  rw [StratumClient.isConnected, hdown.connected, Bool.false_and]

/-- Where a client is while the mode is undecided.  It was created, it resolves the name of the
pool, it is about to connect, it connects, it is connected, or it shuts a TLS connection
down. -/
inductive Phase where
  | created
  | resolving
  | starting
  | connecting
  | up (fakeReplies : ℕ)
  | shutting
  | finalizing

namespace Phase

/-- What is under way. -/
def pending : Phase → Pending
  | .created => {}
  | .resolving => { resolves := 1 }
  | .starting => { startConnects := 1 }
  | .connecting => { connects := 1 }
  | .up fakeReplies => { fakeReplies }
  | .shutting => { shutdowns := 1 }
  | .finalizing => { finalizes := 1 }

def isConnecting : Phase → Bool
  | .connecting => true
  | _ => false

def isDisconnecting : Phase → Bool
  | .shutting | .finalizing => true
  | _ => false

def stage : Phase → Stage
  | .created => .created
  | _ => .engaged

/-- What is known of the connection. -/
def Knows (c : StratumClient μ) (hist : History) : Phase → Prop
  | .created => Down c ∧ c.socket = none ∧ c.exchange.conn.responds = false
  | .resolving => Down c ∧ c.exchange.conn.responds = false
  | .starting | .connecting => Down c
  | .up _ => c.connected = true ∧ hist.established = true ∧
      (0 < c.exchange.disconnects → hist.failed = true)
  | .shutting | .finalizing => Down c ∧ hist.established = true ∧ hist.failed = true

end Phase

/-- The client is in a phase. -/
structure InPhase (p : Phase) (c : StratumClient μ) (hist : History) : Prop where
  pending : c.pending = p.pending
  connecting : c.connecting = p.isConnecting
  disconnecting : c.disconnecting = p.isDisconnecting
  stage : c.stage = p.stage
  knows : p.Knows c hist

/-- The event does not upset the autodetection.  While the mode is undecided,

* `connect` is called once, and nobody calls `disconnect` from outside;
* no write of the connection fails, and no read of it, unless the pool has closed it;
* `start_connect` finds an endpoint left, once there has been a connection;
* a posted disconnection finds the connection up, and no other disconnection and no fake
  reply is posted;
* of an earlier connection no data comes late, nor an error while there is a new one. -/
def Proper (c : StratumClient μ) (e : TimePoint × Event) : Prop :=
  Undecided c.exchange.conn →
    match e.2 with
    | .connect => c.stage = .created
    | .disconnectCall => c.stage = .created ∨ c.disconnecting = true
    | .startConnect => c.exchange.conn.responds = false ∨ c.endpoints ≠ []
    | .disconnect => c.connected = true ∧ c.exchange.disconnects = 1 ∧ c.pending.fakeReplies = 0
    | .received (.error .failed) | .sent (.failed _) => False
    | .lateReceived result => result.toOption = none ∧ c.isConnected = false
    | .lateSent result => result = .ok ∨ (result = .failed false ∧ c.isConnected = false)
    | _ => True

instance (c : StratumClient μ) : (e : TimePoint × Event) → Decidable (Proper c e)
  | (_, .connect) => inferInstanceAs (Decidable (_ → _ = _))
  | (_, .startConnect) => inferInstanceAs (Decidable (_ → _ ∨ _ ≠ _))
  | (_, .disconnect) => inferInstanceAs (Decidable (_ → _ ∧ _ ∧ _))
  | (_, .lateReceived _) => inferInstanceAs (Decidable (_ → _ ∧ _))
  | (_, .disconnectCall) | (_, .lateSent _) => inferInstanceAs (Decidable (_ → _ ∨ _))
  | (_, .received (.error .failed)) | (_, .sent (.failed _)) =>
    inferInstanceAs (Decidable (_ → False))
  | (_, .rotateConnect) | (_, .submitHashrate _) | (_, .submitSolution _ _) | (_, .tick)
  | (_, .resolved _) | (_, .connectCompleted _ _) | (_, .received (.ok _))
  | (_, .received (.error .closedByPool)) | (_, .sent .ok) | (_, .shutdownCompleted)
  | (_, .finalize) | (_, .fakeReply) => .isTrue fun _ => trivial

section Steps

variable (lib : Library) (h : Handlers μ) (cfg : Settings) (now : TimePoint)
  {c c' : StratumClient μ} {hist : History} {e : Event} {p : Phase}

theorem Down.of_sameControl (hdown : Down c) (hsame : SameControl c c') : Down c' :=
  ⟨hsame.connected.trans hdown.connected, hsame.reads hdown.reads,
    hsame.writes hdown.isConnected hdown.writes, hsame.disconnects.trans hdown.disconnects⟩

theorem InPhase.of_sameControl (hphase : InPhase p c hist) (hsame : SameControl c c') :
    InPhase p c' hist where
  pending := hsame.pending.trans hphase.pending
  connecting := hsame.connecting.trans hphase.connecting
  disconnecting := hsame.disconnecting.trans hphase.disconnecting
  stage := hsame.stage.trans hphase.stage
  knows := by
    have hknows := hphase.knows
    have hdown : Down c → Down c' := fun hdown => hdown.of_sameControl hsame
    cases p with
    | created =>
      exact ⟨hdown hknows.1, hsame.socket hknows.2.1, hsame.conn ▸ hknows.2.2⟩
    | resolving => exact ⟨hdown hknows.1, hsame.conn ▸ hknows.2⟩
    | starting => exact hdown hknows
    | connecting => exact hdown hknows
    | up n =>
      exact ⟨hsame.connected.trans hknows.1, hknows.2.1, hsame.disconnects ▸ hknows.2.2⟩
    | shutting | finalizing => exact ⟨hdown hknows.1, hknows.2⟩

/-- What a step must do for the history to remain sound. -/
structure Good (hist : History) (e : Event) (c c' : StratumClient μ) : Prop where
  version : c'.exchange.conn.version = c.exchange.conn.version
  leaves : Leaves c c' → hist.established = true ∧ hist.failed = true
  phase : Undecided c'.exchange.conn →
    c'.stage = .released ∨ ∃ p, InPhase p c' (historyAfter hist e c c')

/-- The step leaves no mode: it does not release the client, or not on account of the mode. -/
theorem not_leaves (hconn : Settles c.exchange.conn c'.exchange.conn)
    (hstage : c'.exchange.conn = c.exchange.conn ∨ c'.stage ≠ .released) : ¬ Leaves c c' := by
  rintro (hmode | ⟨hreleased, hbefore, hafter⟩)
  · rcases hconn.mode with hsame | ⟨hfirst, hthree⟩
    · omega
    · omega
  · rcases hstage with hsame | hstage
    · exact nomatch hbefore.symm.trans ((congrArg Uri.unrecoverable hsame).symm.trans hafter)
    · exact hstage hreleased

theorem historyAfter_of_same (hstage : c.stage ≠ .released) (hleaves : ¬ Leaves c c')
    (hconnected : c'.connected = true → c.connected = true)
    (hdisconnects : c'.exchange.disconnects ≤ c.exchange.disconnects) :
    historyAfter hist e c c' = hist := by
  have hup : ¬ (c.connected = false ∧ c'.connected = true) :=
    fun hboth => nomatch hboth.1.symm.trans (hconnected hboth.2)
  have hposted : ¬ (hist.established = true ∧ c.exchange.disconnects < c'.exchange.disconnects ∧
      e.endsNegotiation = true) :=
    fun hall => absurd hall.2.1 (Nat.not_lt.mpr hdisconnects)
  unfold historyAfter
  rw [if_neg hstage, if_neg hleaves, if_neg hup, if_neg hposted]

theorem InPhase.stage_ne (hphase : InPhase p c hist) : c.stage ≠ .released := by
  rw [hphase.stage]
  cases p <;> exact nofun

/-- **While the connection is up** it stays up, and a disconnection that is posted is noted, if
the event is one that ends the negotiation. -/
theorem good_of_busy {n : ℕ} (hends : e.endsNegotiation = true)
    (hphase : InPhase (.up n) c hist) (hbusy : Busy c c') : Good hist e c c' := by
  obtain ⟨hconnected, hestablished, hfailed⟩ := hphase.knows
  have hstage' : c'.stage ≠ .released := hbusy.stage ▸ hphase.stage_ne
  have hleaves : ¬ Leaves c c' := not_leaves hbusy.conn (.inr hstage')
  obtain ⟨m, hpending⟩ := hbusy.pending
  rw [hphase.pending] at hpending
  have hnot : ¬ (c.connected = false ∧ c'.connected = true) :=
    fun hboth => nomatch hboth.1.symm.trans hconnected
  have hhistory : historyAfter hist e c c' =
      if hist.established = true ∧ c.exchange.disconnects < c'.exchange.disconnects ∧
          e.endsNegotiation = true then { hist with failed := true } else hist := by
    unfold historyAfter
    rw [if_neg hphase.stage_ne, if_neg hleaves, if_neg hnot]
  refine ⟨hbusy.conn.version, fun h => absurd h hleaves, fun _ => .inr ⟨.up m, hpending,
    hbusy.connecting.trans hphase.connecting, hbusy.disconnecting.trans hphase.disconnecting,
    hbusy.stage.trans hphase.stage, hbusy.connected.trans hconnected, ?_, fun hposted => ?_⟩⟩
  · rw [hhistory]
    split_ifs <;> exact hestablished
  · rw [hhistory]
    split_ifs with hmore
    · rfl
    · refine hfailed (lt_of_lt_of_le hposted ?_)
      exact Nat.not_lt.mp fun hlt => hmore ⟨hestablished, hlt, hends⟩

/-- **The end of a connection.**  Nothing else is under way.  If the client goes on with the next
mode, the present one must have been tested. -/
theorem good_disconnectFinalize {d : StratumClient μ} (hconn : d.exchange.conn = c.exchange.conn)
    (hdisconnects : d.exchange.disconnects = 0) (hconnected : d.connected = false)
    (hconnecting : d.connecting = false) (hpending : d.pending = {})
    (htested : c.exchange.conn.autodetects = true →
      d.stage = .engaged ∧ hist.established = true ∧ hist.failed = true) :
    Good hist e c (d.disconnectFinalize now) := by
  unfold disconnectFinalize
  dsimp only
  have hversion : d.exchange.conn.version = c.exchange.conn.version := by
    rw [hconn]
  have hconn' : d.shutDown.exchange.conn = c.exchange.conn := hconn
  rw [hconn']
  split_ifs with hauto hmode
  · refine ⟨hversion, fun _ => (htested hauto).2, fun _ => .inr ⟨.starting, ?_, hconnecting, rfl,
      (htested hauto).1, hconnected, rfl, rfl, hdisconnects⟩⟩
    show ({ d.pending with startConnects := d.pending.startConnects + 1 } : Pending) = _
    rw [hpending]
    rfl
  · refine ⟨hversion, fun _ => (htested hauto).2, fun hundecided => ?_⟩
    exact nomatch hundecided.2
  · have hsame : (d.shutDown.release now).exchange.conn = c.exchange.conn := hconn
    exact ⟨hversion,
      fun h => absurd h (not_leaves (hsame ▸ .refl _) (.inl hsame)), fun _ => .inl rfl⟩

theorem autodetects_of_not_responds {u : Uri} (hresponds : u.responds = false) :
    ¬ u.autodetects = true := by
  rw [Uri.autodetects, hresponds, Bool.and_false, Bool.and_false]
  exact Bool.false_ne_true

/-- A step that keeps the connection definition, from one phase to another. -/
theorem good_of_conn (hstage : c.stage ≠ .released)
    (hconn : c'.exchange.conn = c.exchange.conn)
    (hconnected : c'.connected = true → c.connected = true)
    (hdisconnects : c'.exchange.disconnects ≤ c.exchange.disconnects)
    (hphase : InPhase p c' hist) : Good hist e c c' := by
  have hleaves : ¬ Leaves c c' := not_leaves (hconn ▸ .refl _) (.inl hconn)
  refine ⟨by rw [hconn], fun h => absurd h hleaves, fun _ => .inr ⟨p, ?_⟩⟩
  rw [historyAfter_of_same hstage hleaves hconnected hdisconnects]
  exact hphase

theorem good_of_sameControl (hphase : InPhase p c hist) (hsame : SameControl c c') :
    Good hist e c c' :=
  good_of_conn hphase.stage_ne hsame.conn (hsame.connected ▸ id) hsame.disconnects.le
    (hphase.of_sameControl hsame)

/-- `disconnect`, of a connection that is up and was given up. -/
theorem good_disconnect {d : StratumClient μ} (hstage : c.stage ≠ .released)
    (hconn : d.exchange.conn = c.exchange.conn) (hdisconnects : d.exchange.disconnects = 0)
    (hphase : InPhase (.up 0) d hist) (hfailed : hist.failed = true) :
    Good hist e c (d.disconnect now) := by
  have hnot : ¬ d.disconnecting = true := Bool.eq_false_iff.mp hphase.disconnecting
  have hdone : c.exchange.conn.autodetects = true →
      d.stage = .engaged ∧ hist.established = true ∧ hist.failed = true :=
    fun _ => ⟨hphase.stage, hphase.knows.2.1, hfailed⟩
  unfold disconnect
  rw [if_neg hnot]
  dsimp only
  split_ifs with hsome hopen hsecure hopen hsecure
  · -- a TLS shutdown: the mode is left when it has completed
    refine good_of_conn (p := .shutting) hstage hconn nofun
      (hdisconnects.le.trans (Nat.zero_le _)) ⟨?_, hphase.connecting, rfl, hphase.stage,
        ⟨rfl, rfl, rfl, hdisconnects⟩, hphase.knows.2.1, hfailed⟩
    show ({ d.pending with shutdowns := d.pending.shutdowns + 1 } : Pending) = _
    rw [hphase.pending]
    rfl
  · exact good_disconnectFinalize now hconn hdisconnects rfl hphase.connecting hphase.pending hdone
  · exact good_disconnectFinalize now hconn hdisconnects rfl hphase.connecting hphase.pending hdone
  · have hopen' : d.socket = some true := hopen
    exact absurd (show d.socket.isSome = true by rw [hopen']; rfl) hsome
  · exact good_disconnectFinalize now hconn hdisconnects rfl hphase.connecting hphase.pending hdone
  · exact good_disconnectFinalize now hconn hdisconnects rfl hphase.connecting hphase.pending hdone

/-- `connect` is called once. -/
theorem good_connect (hphase : InPhase p c hist) (hcreated : c.stage = .created) :
    Good hist e c (c.connect now) := by
  cases p with
  | created =>
    obtain ⟨hdown, -, hresponds⟩ := hphase.knows
    have hnot : ¬ c.connecting = true := Bool.eq_false_iff.mp hphase.connecting
    unfold connect
    rw [if_neg hnot]
    dsimp only
    split_ifs
    · refine good_of_conn (p := .resolving) hphase.stage_ne rfl id le_rfl ⟨?_, hphase.connecting,
        hphase.disconnecting, rfl,
        ⟨hdown.connected, hdown.reads, hdown.writes, hdown.disconnects⟩, hresponds⟩
      show ({ c.pending with resolves := c.pending.resolves + 1 } : Pending) = _
      rw [hphase.pending]
      rfl
    · refine good_of_conn (p := .starting) hphase.stage_ne rfl id le_rfl ⟨?_, hphase.connecting,
        hphase.disconnecting, rfl, hdown.connected, hdown.reads, hdown.writes, hdown.disconnects⟩
      show ({ c.pending with startConnects := c.pending.startConnects + 1 } : Pending) = _
      rw [hphase.pending]
      rfl
  | _ => exact nomatch hcreated.symm.trans hphase.stage

theorem good_resolved {n : ℕ} (hphase : InPhase p c hist) (hn : c.pending.resolves = n + 1)
    (result : Option (List Endpoint)) :
    Good hist e c (({ c with pending := { c.pending with resolves := n } }).resolveHandler now
      result) := by
  rw [hphase.pending] at hn ⊢
  cases p with
  | resolving =>
    obtain rfl : 0 = n := Nat.succ.inj hn
    obtain ⟨hdown, hresponds⟩ := hphase.knows
    cases result with
    | some endpoints =>
      exact good_of_conn (p := .starting) hphase.stage_ne rfl id le_rfl ⟨rfl, hphase.connecting,
        hphase.disconnecting, hphase.stage, hdown.connected, hdown.reads, hdown.writes,
        hdown.disconnects⟩
    | none =>
      refine good_disconnectFinalize now rfl hdown.disconnects hdown.connected rfl rfl ?_
      exact fun hauto => absurd hauto (autodetects_of_not_responds hresponds)
  | _ => exact nomatch hn

/-- `start_connect`, with an endpoint left or before the first connection. -/
theorem good_startConnect {n : ℕ} (hphase : InPhase p c hist)
    (hn : c.pending.startConnects = n + 1)
    (hproper : c.exchange.conn.responds = false ∨ c.endpoints ≠ []) :
    Good hist e c (({ c with pending := { c.pending with startConnects := n } }).startConnect
      now) := by
  rw [hphase.pending] at hn ⊢
  cases p with
  | starting =>
    obtain rfl : 0 = n := Nat.succ.inj hn
    have hdown : Down c := hphase.knows
    have hnot : ¬ c.connecting = true := Bool.eq_false_iff.mp hphase.connecting
    unfold startConnect
    dsimp only
    rw [if_neg hnot]
    by_cases hendpoints : c.endpoints ≠ []
    · rw [if_pos hendpoints]
      exact good_of_conn (p := .connecting) hphase.stage_ne rfl id le_rfl ⟨rfl, rfl,
        hphase.disconnecting, hphase.stage, hdown.connected, hdown.reads, hdown.writes,
        hdown.disconnects⟩
    · rw [if_neg hendpoints]
      have hresponds := hproper.resolve_right hendpoints
      exact good_disconnectFinalize now rfl hdown.disconnects hdown.connected hphase.connecting rfl
        fun hauto => absurd hauto (autodetects_of_not_responds hresponds)
  | _ => exact nomatch hn

theorem settles_selectStratumMode {u : Uri} (hversion : u.version = 999) :
    Settles u ({ u with responds := true } : Uri).selectStratumMode := by
  have hnot : ¬ u.version < 999 := by
    rw [hversion]
    exact lt_irrefl _
  unfold Uri.selectStratumMode
  dsimp only
  rw [if_neg hnot]
  split_ifs with hfirst
  · rw [Bool.and_eq_true, Bool.not_eq_true', beq_iff_eq] at hfirst
    exact ⟨rfl, .inr ⟨hfirst.2, rfl⟩, fun h => (nomatch hfirst.1.symm.trans h), id⟩
  · exact ⟨rfl, .inl rfl, id, id⟩

/-- A connection has been established, so the mode is being tested. -/
theorem good_established (hconn : Settles c.exchange.conn c'.exchange.conn)
    (hstage : c.stage ≠ .released) (hconnected : c.connected = false)
    (hphase : InPhase (.up 0) c' { established := true, sound := hist.sound }) :
    Good hist e c c' := by
  have hleaves : ¬ Leaves c c' := not_leaves hconn (.inr hphase.stage_ne)
  refine ⟨hconn.version, fun h => absurd h hleaves, fun _ => .inr ⟨.up 0, ?_⟩⟩
  rw [historyAfter, if_neg hstage, if_neg hleaves, if_pos ⟨hconnected, hphase.knows.1⟩]
  exact hphase

/-- **A connection attempt ends.**  If it succeeds, the mode is being tested. -/
theorem good_connectHandler {n : ℕ} {failed handshakeFailed : Bool} (hphase : InPhase p c hist)
    (hversion : c.exchange.conn.version = 999) (hn : c.pending.connects = n + 1)
    (hc : ({ c with pending := { c.pending with connects := n } }).connectHandler lib now failed
      handshakeFailed = some c') : Good hist e c c' := by
  rw [hphase.pending] at hn hc
  cases p with
  | connecting =>
    obtain rfl : 0 = n := Nat.succ.inj hn
    have hdown : Down c := hphase.knows
    unfold connectHandler at hc
    dsimp only at hc
    split at hc
    · exact nomatch hc
    · split_ifs at hc
      · -- the endpoint is discarded, and the next one is tried
        split at hc
        · exact nomatch hc
        · obtain rfl := Option.some.inj hc
          exact good_of_conn (p := .starting) hphase.stage_ne rfl id le_rfl ⟨rfl, rfl,
            hphase.disconnecting, hphase.stage, hdown.connected, rfl, rfl, hdown.disconnects⟩
      · -- the handshake has failed, which decides the matter
        obtain rfl := Option.some.inj hc
        have hsettles : Settles c.exchange.conn
            ({ c.exchange.conn with responds := true } : Uri).markUnrecoverable :=
          ⟨rfl, .inl rfl, id, fun _ => rfl⟩
        exact ⟨rfl, fun hleaves => absurd hleaves (not_leaves hsettles (.inr hphase.stage_ne)),
          fun hundecided => (nomatch hundecided.2)⟩
      · obtain rfl := Option.some.inj hc
        exact good_established (settles_selectStratumMode hversion) hphase.stage_ne
          hdown.connected ⟨rfl, rfl, hphase.disconnecting, hphase.stage, rfl, rfl,
            fun hposted => absurd hdown.disconnects (Nat.ne_of_gt hposted)⟩
  | _ => exact nomatch hn

theorem good_shutdownCompleted {n : ℕ} (hphase : InPhase p c hist)
    (hn : c.pending.shutdowns = n + 1) :
    Good hist e c (({ c with pending := { c.pending with shutdowns := n } }).onSSLShutdownCompleted
      now) := by
  rw [hphase.pending] at hn ⊢
  cases p with
  | shutting =>
    obtain rfl : 0 = n := Nat.succ.inj hn
    obtain ⟨hdown, htested⟩ := hphase.knows
    exact good_of_conn (p := .finalizing) hphase.stage_ne rfl id le_rfl ⟨rfl, hphase.connecting,
      hphase.disconnecting, hphase.stage,
      ⟨hdown.connected, hdown.reads, hdown.writes, hdown.disconnects⟩, htested⟩
  | _ => exact nomatch hn

theorem good_finalize {n : ℕ} (hphase : InPhase p c hist) (hn : c.pending.finalizes = n + 1) :
    Good hist e c (({ c with pending := { c.pending with finalizes := n } }).disconnectFinalize
      now) := by
  rw [hphase.pending] at hn ⊢
  cases p with
  | finalizing =>
    obtain rfl : 0 = n := Nat.succ.inj hn
    obtain ⟨hdown, htested⟩ := hphase.knows
    exact good_disconnectFinalize now rfl hdown.disconnects hdown.connected hphase.connecting rfl
      fun _ => ⟨hphase.stage, htested⟩
  | _ => exact nomatch hn

/-- A client that is not down is up. -/
theorem InPhase.exists_up (hphase : InPhase p c hist) (hup : ¬ Down c) : ∃ n, p = .up n := by
  have hknows := hphase.knows
  cases p with
  | up n => exact ⟨n, rfl⟩
  | starting => exact absurd hknows hup
  | connecting => exact absurd hknows hup
  | _ => exact absurd hknows.1 hup

/-- What happens only while the connection is up. -/
theorem InPhase.busy (hphase : InPhase p c hist) (hends : e.endsNegotiation = true)
    (hup : ¬ Down c) (hbusy : Busy c c') : Good hist e c c' := by
  obtain ⟨n, rfl⟩ := hphase.exists_up hup
  exact good_of_busy hends hphase hbusy

theorem InPhase.connected_of_fakeReply {n : ℕ} (hphase : InPhase p c hist)
    (hn : c.pending.fakeReplies = n + 1) : c.connected = true := by
  rw [hphase.pending] at hn
  cases p with
  | up _ => exact hphase.knows.1
  | _ => exact nomatch hn

/-- A posted disconnection, the only one, finds the connection up. -/
theorem good_disconnected {n : ℕ} (hphase : InPhase p c hist)
    (hn : c.exchange.disconnects = n + 1)
    (hproper : c.connected = true ∧ c.exchange.disconnects = 1 ∧ c.pending.fakeReplies = 0) :
    Good hist e c (({ c with exchange := { c.exchange with disconnects := n } }).disconnect
      now) := by
  obtain ⟨hup, hone, hreplies⟩ := hproper
  obtain ⟨m, rfl⟩ := hphase.exists_up fun hdown => nomatch hdown.connected.symm.trans hup
  obtain rfl : 0 = n := Nat.succ.inj (hone.symm.trans hn)
  rw [hphase.pending] at hreplies
  obtain rfl : m = 0 := hreplies
  exact good_disconnect now hphase.stage_ne rfl rfl ⟨hphase.pending, hphase.connecting,
    hphase.disconnecting, hphase.stage, hup, hphase.knows.2.1, nofun⟩
    (hphase.knows.2.2 (hone ▸ Nat.one_pos))

/-- `disconnect`, called before `connect` or during a TLS shutdown. -/
theorem good_disconnectCall (hphase : InPhase p c hist)
    (hproper : c.stage = .created ∨ c.disconnecting = true) :
    Good hist e c (c.disconnect now) := by
  by_cases hshutdown : c.disconnecting = true
  · unfold disconnect
    rw [if_pos hshutdown]
    exact good_of_sameControl hphase (.refl c)
  · have hcreated := hproper.resolve_right hshutdown
    cases p with
    | created =>
      obtain ⟨hdown, hsocket, hresponds⟩ := hphase.knows
      unfold disconnect
      dsimp only
      rw [if_neg hshutdown, hsocket]
      exact good_disconnectFinalize now rfl hdown.disconnects rfl hphase.connecting hphase.pending
        fun hauto => absurd hauto (autodetects_of_not_responds hresponds)
    | _ => exact nomatch hcreated.symm.trans hphase.stage

/-- **While the mode is undecided** the phases follow each other, and each event is one for the
phase it comes in. -/
theorem good_of_phase (hundecided : Undecided c.exchange.conn) (hphase : InPhase p c hist)
    (hversion : c.exchange.conn.version = 999) (hproper : Proper c (now, e))
    (hc : handle lib h cfg now c e = some c') : Good hist e c c' := by
  have hproper := hproper hundecided
  cases e with
  | connect =>
    obtain rfl := Option.some.inj hc
    exact good_connect now hphase hproper
  | disconnectCall =>
    obtain rfl := Option.some.inj hc
    exact good_disconnectCall now hphase hproper
  | rotateConnect => exact nomatch hc
  | submitHashrate jReq => exact good_of_sameControl hphase (sameControl_submitHashrate lib hc)
  | submitSolution id jReq =>
    obtain rfl := Option.some.inj hc
    exact good_of_sameControl hphase (sameControl_submitSolution lib now id jReq)
  | tick =>
    obtain ⟨-, hc⟩ := handle_tick lib h cfg now hc
    rcases busy_workloopTimerElapsed lib cfg now hc with hsame | ⟨hconnected, hbusy⟩
    · exact good_of_sameControl hphase hsame
    · exact hphase.busy rfl (fun hdown => nomatch hdown.isConnected.symm.trans hconnected) hbusy
  | resolved result =>
    obtain ⟨n, hn, hc⟩ := oneOf_eq_some.mp hc
    obtain rfl := Option.some.inj hc
    exact good_resolved now hphase hn result
  | connectCompleted failed handshakeFailed =>
    obtain ⟨n, hn, hc⟩ := oneOf_eq_some.mp hc
    exact good_connectHandler lib now hphase hversion hn hc
  | received result =>
    obtain ⟨n, hn, hc⟩ := oneOf_eq_some.mp hc
    have hread : Busy c { c with reads := n } := ⟨.refl _, le_rfl, rfl, rfl, rfl, ⟨_, rfl⟩, rfl⟩
    have hends : (Event.received result).endsNegotiation = true := by
      cases result with
      | ok rx => rfl
      | error why =>
        cases why with
        | closedByPool => rfl
        | failed => exact hproper.elim
    exact hphase.busy hends (fun hdown => nomatch hdown.reads.symm.trans hn)
      (hread.trans (busy_onRecv lib h now hc))
  | lateReceived result =>
    obtain ⟨n, hn, hc⟩ := oneOf_eq_some.mp hc
    obtain ⟨hfailed, hconnected⟩ := hproper
    have hnot : ¬ ({ c with lateReads := n } : StratumClient μ).isConnected = true :=
      Bool.eq_false_iff.mp hconnected
    cases result with
    | ok rx => exact nomatch hfailed
    | error why =>
      unfold onRecv at hc
      dsimp only at hc
      rw [if_neg hnot] at hc
      obtain rfl := Option.some.inj hc
      exact good_of_sameControl hphase ⟨rfl, rfl, rfl, rfl, rfl, rfl, rfl, id, id, fun _ => id⟩
  | sent result =>
    obtain ⟨bytes, rest, hout, hc⟩ := oldestOf_eq_some.mp hc
    obtain rfl := Option.some.inj hc
    cases result with
    | failed protocolIsShutdown => exact hproper.elim
    | ok =>
      have hwrite : SameControl c { c with tx := { c.tx with outstanding := rest } } :=
        ⟨rfl, rfl, rfl, rfl, rfl, rfl, rfl, id, id,
          fun _ hnone => nomatch hnone.symm.trans hout⟩
      exact good_of_sameControl hphase (hwrite.trans (sameControl_onSent now _ bytes))
  | lateSent result =>
    obtain ⟨bytes, rest, hout, hc⟩ := oldestOf_eq_some.mp hc
    obtain rfl := Option.some.inj hc
    have hwrite : SameControl c { c with lateWrites := rest } :=
      ⟨rfl, rfl, rfl, rfl, rfl, rfl, rfl, id, id, fun _ => id⟩
    rcases hproper with rfl | ⟨rfl, hconnected⟩
    · exact good_of_sameControl hphase (hwrite.trans (sameControl_onSent now _ bytes))
    · have hsent := sameControl_onSent_failed now bytes (c := { c with lateWrites := rest })
        hconnected
      exact good_of_sameControl hphase (hwrite.trans hsent)
  | shutdownCompleted =>
    obtain ⟨n, hn, hc⟩ := oneOf_eq_some.mp hc
    obtain rfl := Option.some.inj hc
    exact good_shutdownCompleted now hphase hn
  | startConnect =>
    obtain ⟨n, hn, hc⟩ := oneOf_eq_some.mp hc
    obtain rfl := Option.some.inj hc
    exact good_startConnect now hphase hn hproper
  | finalize =>
    obtain ⟨n, hn, hc⟩ := oneOf_eq_some.mp hc
    obtain rfl := Option.some.inj hc
    exact good_finalize now hphase hn
  | disconnect =>
    obtain ⟨n, hn, hc⟩ := oneOf_eq_some.mp hc
    obtain rfl := Option.some.inj hc
    exact good_disconnected now hphase hn hproper
  | fakeReply =>
    obtain ⟨n, hn, hc⟩ := oneOf_eq_some.mp hc
    have hreply : Busy c { c with pending := { c.pending with fakeReplies := n } } :=
      ⟨.refl _, le_rfl, rfl, rfl, rfl, ⟨_, rfl⟩, rfl⟩
    have hup := hphase.connected_of_fakeReply hn
    exact hphase.busy rfl (fun hdown => nomatch hdown.connected.symm.trans hup)
      (hreply.trans (busy_onFakeReply lib h now hc))

/-! ## When the matter is decided -/

theorem not_autodetects {u : Uri} (hdecided : ¬ Undecided u) : ¬ u.autodetects = true := by
  intro hauto
  rw [Uri.autodetects, Bool.and_eq_true, Bool.and_eq_true, Bool.not_eq_true',
    Bool.not_eq_true'] at hauto
  exact hdecided ⟨hauto.2.1, hauto.1⟩

theorem conn_disconnectFinalize {d : StratumClient μ}
    (hnot : ¬ d.exchange.conn.autodetects = true) :
    (d.disconnectFinalize now).exchange.conn = d.exchange.conn := by
  have hnot' : ¬ d.shutDown.exchange.conn.autodetects = true := hnot
  unfold disconnectFinalize
  dsimp only
  rw [if_neg hnot']
  rfl

theorem conn_disconnect {d : StratumClient μ} (hnot : ¬ d.exchange.conn.autodetects = true) :
    (d.disconnect now).exchange.conn = d.exchange.conn := by
  unfold disconnect
  dsimp only
  split_ifs
  · rfl
  · rfl
  · exact conn_disconnectFinalize now hnot
  · exact conn_disconnectFinalize now hnot
  · rfl
  · exact conn_disconnectFinalize now hnot
  · exact conn_disconnectFinalize now hnot

/-- **Once the matter is decided** no event changes that, or lowers the mode. -/
theorem settles_handle (hdecided : ¬ Undecided c.exchange.conn)
    (hversion : c.exchange.conn.version = 999) (hc : handle lib h cfg now c e = some c') :
    Settles c.exchange.conn c'.exchange.conn ∧
      (c'.exchange.conn = c.exchange.conn ∨ c'.stage = c.stage) := by
  have hnot := not_autodetects hdecided
  have hkept : c'.exchange.conn = c.exchange.conn → Settles c.exchange.conn c'.exchange.conn ∧
      (c'.exchange.conn = c.exchange.conn ∨ c'.stage = c.stage) :=
    fun hconn => ⟨hconn ▸ .refl _, .inl hconn⟩
  cases e with
  | connect =>
    obtain rfl := Option.some.inj hc
    refine hkept ?_
    unfold connect
    dsimp only
    split_ifs <;> rfl
  | disconnectCall =>
    obtain rfl := Option.some.inj hc
    exact hkept (conn_disconnect now hnot)
  | rotateConnect => exact nomatch hc
  | submitHashrate jReq => exact hkept (sameControl_submitHashrate lib hc).conn
  | submitSolution id jReq =>
    obtain rfl := Option.some.inj hc
    exact hkept (sameControl_submitSolution lib now id jReq).conn
  | tick =>
    obtain ⟨-, hc⟩ := handle_tick lib h cfg now hc
    rcases busy_workloopTimerElapsed lib cfg now hc with hsame | ⟨-, hbusy⟩
    · exact hkept hsame.conn
    · exact hbusy.settles
  | resolved result =>
    obtain ⟨n, -, hc⟩ := oneOf_eq_some.mp hc
    obtain rfl := Option.some.inj hc
    refine hkept ?_
    cases result with
    | some endpoints => rfl
    | none => exact conn_disconnectFinalize now hnot
  | connectCompleted failed handshakeFailed =>
    obtain ⟨n, -, hc⟩ := oneOf_eq_some.mp hc
    unfold connectHandler at hc
    dsimp only at hc
    split at hc
    · exact nomatch hc
    · split_ifs at hc
      · split at hc
        · exact nomatch hc
        · obtain rfl := Option.some.inj hc
          exact hkept rfl
      · obtain rfl := Option.some.inj hc
        exact ⟨⟨rfl, .inl rfl, id, fun _ => rfl⟩, .inr rfl⟩
      · obtain rfl := Option.some.inj hc
        exact ⟨settles_selectStratumMode hversion, .inr rfl⟩
  | received result | lateReceived result =>
    obtain ⟨n, -, hc⟩ := oneOf_eq_some.mp hc
    exact (busy_onRecv lib h now hc).settles
  | sent result =>
    obtain ⟨bytes, rest, -, hc⟩ := oldestOf_eq_some.mp hc
    obtain rfl := Option.some.inj hc
    exact (busy_onSent (c := { c with tx := { c.tx with outstanding := rest } }) now bytes
      result).settles
  | lateSent result =>
    obtain ⟨bytes, rest, -, hc⟩ := oldestOf_eq_some.mp hc
    obtain rfl := Option.some.inj hc
    exact (busy_onSent (c := { c with lateWrites := rest }) now bytes result).settles
  | shutdownCompleted =>
    obtain ⟨n, -, hc⟩ := oneOf_eq_some.mp hc
    obtain rfl := Option.some.inj hc
    exact hkept rfl
  | startConnect =>
    obtain ⟨n, -, hc⟩ := oneOf_eq_some.mp hc
    obtain rfl := Option.some.inj hc
    refine hkept ?_
    unfold startConnect
    dsimp only
    split_ifs
    · rfl
    · rfl
    · exact conn_disconnectFinalize now hnot
  | finalize =>
    obtain ⟨n, -, hc⟩ := oneOf_eq_some.mp hc
    obtain rfl := Option.some.inj hc
    exact hkept (conn_disconnectFinalize now hnot)
  | disconnect =>
    obtain ⟨n, -, hc⟩ := oneOf_eq_some.mp hc
    obtain rfl := Option.some.inj hc
    exact hkept (conn_disconnect now hnot)
  | fakeReply =>
    obtain ⟨n, -, hc⟩ := oneOf_eq_some.mp hc
    exact (busy_onFakeReply lib h now hc).settles

/-- **A handler**, in any state that a proper run reaches. -/
theorem good_handle (hversion : c.exchange.conn.version = 999)
    (hstage : c.stage ≠ .released)
    (hphase : Undecided c.exchange.conn → ∃ p, InPhase p c hist)
    (hproper : Proper c (now, e)) (hc : handle lib h cfg now c e = some c') : Good hist e c c' := by
  by_cases hundecided : Undecided c.exchange.conn
  · obtain ⟨p, hphase⟩ := hphase hundecided
    exact good_of_phase lib h cfg now hundecided hphase hversion hproper hc
  · obtain ⟨hsettles, hkept⟩ := settles_handle lib h cfg now hundecided hversion hc
    have hengaged : c'.stage = c.stage → c'.stage ≠ .released := fun hsame => hsame ▸ hstage
    have hleaves : ¬ Leaves c c' := not_leaves hsettles (hkept.imp_right hengaged)
    exact ⟨hsettles.version, fun h => absurd h hleaves,
      fun hundecided' => absurd (hsettles.undecided hundecided') hundecided⟩

/-! ## Runs -/

/-- What holds in every state of a proper run. -/
structure Orderly (s : StratumClient μ × History) : Prop where
  version : s.1.exchange.conn.version = 999
  sound : s.2.sound = true
  phase : Undecided s.1.exchange.conn → s.1.stage = .released ∨ ∃ p, InPhase p s.1 s.2

theorem sound_historyAfter (hsound : hist.sound = true) (hstage : c.stage ≠ .released)
    (hgood : Good hist e c c') : (historyAfter hist e c c').sound = true := by
  unfold historyAfter
  rw [if_neg hstage]
  split_ifs with hleaves
  · obtain ⟨hestablished, hfailed⟩ := hgood.leaves hleaves
    show (hist.sound && (hist.established && hist.failed)) = true
    rw [hsound, hestablished, hfailed]
    rfl
  · exact hsound
  · exact hsound
  · exact hsound

theorem phase_create (conn : Uri) (owner : μ) (hist : History) :
    ∃ p, InPhase p (create conn owner now) hist :=
  ⟨.created, rfl, rfl, rfl, rfl, ⟨rfl, rfl, rfl, rfl⟩, rfl, rfl⟩

/-- **One event** keeps a run orderly, if it is a proper one. -/
theorem orderly_step {s s' : StratumClient μ × History} {e : TimePoint × Event}
    (horderly : Orderly s) (hproper : Proper s.1 e) (hs : stepHistory lib h cfg s e = some s') :
    Orderly s' := by
  obtain ⟨c, hist⟩ := s
  obtain ⟨now, e⟩ := e
  obtain ⟨c', hc, rfl⟩ := Option.map_eq_some_iff.mp hs
  rcases step_cases hc with ⟨hreleased, -, -, rfl⟩ | ⟨hstage, hc⟩
  · -- a new client, which knows nothing of the connections of the old one
    refine ⟨horderly.version, ?_, fun _ => .inr (phase_create now _ _ _)⟩
    show (historyAfter hist e c _).sound = true
    rw [historyAfter, if_pos hreleased]
    exact horderly.sound
  · have hclock : SameControl c { c with clock := now } :=
      ⟨rfl, rfl, rfl, rfl, rfl, rfl, rfl, id, id, fun _ => id⟩
    have hphase : Undecided c.exchange.conn → ∃ p, InPhase p { c with clock := now } hist :=
      fun hundecided => ((horderly.phase hundecided).resolve_left hstage).imp fun _ hphase =>
        hphase.of_sameControl hclock
    have hgood := good_handle lib h cfg now (c := { c with clock := now }) horderly.version hstage
      hphase hproper hc
    exact ⟨hgood.version.trans horderly.version,
      sound_historyAfter (c := { c with clock := now }) horderly.sound hstage hgood, hgood.phase⟩

end Steps

/-- A response to the first message that says that the pool does not understand it. -/
def refusal : StdString × Value :=
  ("refusal".toList, .object
    [("error".toList, .bool true), ("id".toList, .int 1), ("result".toList, .null)])

end StratumClient
end Stratum
end FpgaEthash
