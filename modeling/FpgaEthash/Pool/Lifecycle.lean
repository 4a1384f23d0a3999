import FpgaEthash.Computation.Throwing
import FpgaEthash.Pool.Failover

/-!
# Starting, reconnecting and stopping

`PoolManager` from `start` to the end of `stop`: what it has outstanding, and who ends it.
`rotateConnect` is posted, the reconnect timer runs or its handler is queued, or a client has been
told to connect and has not reported that it is disconnected; each of these leads to the next.
`stop` runs on the main thread, the rest on the thread of the I/O service.

A timer that expires queues its handler, and to cancel it after that is of no avail: the handler
runs, and without an error.  So the handlers of the timers of a session may run when the session
is over.  The one of the failover timer then calls `disconnect` of a client that is not live, and
a client reports that it is disconnected whenever it is told to disconnect (`ReportsAgain`).  The
one of the hash rate timer starts its timer again (`RestartsHashrate`).

* `one_at_a_time`: until `stop` is called, exactly one of the three is outstanding while the
  manager is running.  It never stalls, and no connection is tried twice at a time.  No request
  and no timer finds `p_client` null.  This is so exactly if no client reports a second time.
* `stop_final`: if `stop` finds the client connected, or waiting for the reconnect timer, then
  nothing is outstanding when it returns, and the farm does not mine again.  If it finds an
  attempt to connect on its way, it returns as well, but leaves it alone: when the attempt
  succeeds, the handler of `onConnected` starts the farm again.  A queued handler of the
  reconnect timer is such an attempt.

A live client that has reported that it is disconnected reports nothing more of its own accord, as
in `Stratum.Connection` and `Getwork.Client`.
-/

namespace FpgaEthash
namespace Pool

open Devcore Ethcore Runs Throwing

/-- How far a call of `stop` has come.  Where it has returned, `attempting` says that it left an
attempt to connect on its way. -/
inductive StopCall where
  | notCalled
  | waiting
  | returned (attempting : Bool)
  deriving DecidableEq

/-- A timer of boost::asio: whether somebody waits for it, and how many handlers of waits that are
over are queued. -/
structure Timer where
  waiting : Bool := false
  queued : ℕ := 0
  deriving DecidableEq

namespace Timer

/-- `expires_from_now`, which cancels a wait, and `async_wait`. -/
def wait (t : Timer) : Timer := { t with waiting := true }

/-- `cancel`.  It does not reach the handlers that are queued. -/
def cancel (t : Timer) : Timer := { t with waiting := false }

/-- The wait is over. -/
def expire (t : Timer) : Option Timer :=
  if t.waiting then some ⟨false, t.queued + 1⟩ else none

/-- A queued handler is run. -/
def take (t : Timer) : Option Timer :=
  match t.queued with
  | 0 => none
  | n + 1 => some { t with queued := n }

/-- The handlers that are still to run. -/
def outstanding (t : Timer) : ℕ := t.waiting.toNat + t.queued

theorem expire_eq_some {t t' : Timer} (h : t.expire = some t') :
    t.waiting = true ∧ t'.waiting = false ∧ t'.outstanding = t.outstanding := by
  unfold expire at h
  split_ifs at h with hwaiting
  obtain rfl := Option.some.inj h
  refine ⟨hwaiting, rfl, ?_⟩
  show 0 + (t.queued + 1) = t.waiting.toNat + t.queued
  rw [hwaiting, Bool.toNat_true]
  omega

theorem take_eq_some {t t' : Timer} (h : t.take = some t') :
    t'.waiting = t.waiting ∧ t.outstanding = t'.outstanding + 1 := by
  unfold take at h
  split at h
  · exact nomatch h
  · next n hqueued =>
      obtain rfl := Option.some.inj h
      exact ⟨rfl, by rw [outstanding, hqueued]; rfl⟩

end Timer

/-- The manager, its timers and what it has posted.  `live` says that the client has been told to
connect and has not reported that it is disconnected. -/
structure Lifecycle (κ : Type) where
  manager : Connections κ
  delayBeforeRetry : ℕ := 0
  poolFailoverTimeout : ℕ := 0
  reportHashrate : Bool := false
  stopping : Bool := false
  posted : ℕ := 0
  live : Bool := false
  reconnecttimer : Timer := {}
  failovertimer : Timer := {}
  submithrtimer : Timer := {}
  stopCall : StopCall := .notCalled

/-- What is asked of the manager from outside, at any time. -/
inductive ManagerRequest (κ : Type) where
  | addConnection (c : κ)
  | removeConnection (idx : ℕ)
  | setActiveConnection (idx : ℕ)
  | setActiveConnectionString (connstring : StdString)
  | markUnrecoverable (c : κ)
  deriving DecidableEq

def ManagerRequest.event {κ : Type} : ManagerRequest κ → Connections.Event κ
  | .addConnection c => .addConnection c
  | .removeConnection idx => .removeConnection idx
  | .setActiveConnection idx => .setActiveConnection idx
  | .setActiveConnectionString connstring => .setActiveConnectionString connstring
  | .markUnrecoverable c => .markUnrecoverable c

/-- What can happen.  A timer expires, or the handler that it has queued runs. -/
inductive LifeEvent (κ : Type) where
  | rotateConnect
  | reconnecttimerExpires
  | failovertimerExpires
  | submithrtimerExpires
  | reconnecttimerElapsed
  | failovertimerElapsed
  | submithrtimerElapsed
  | linked
  | unlinked
  | connected (draw : BitVec 64)
  | disconnected
  | request (r : ManagerRequest κ)
  | stop
  | stopReturns
  deriving DecidableEq

namespace Lifecycle

open Connections (OutOfRange)

variable {κ : Type}

/-! ## The functions -/

/-- The end of `rotateConnect`: the client connects at once, or when the timer has elapsed.  The
client before it is gone. -/
def beginAttempt (s : Lifecycle κ) : Lifecycle κ :=
  if 1 < s.manager.connectionAttempt ∧ 0 < s.delayBeforeRetry then
    { s with reconnecttimer := s.reconnecttimer.wait, live := false }
  else { s with live := true }

/-- `rotateConnect`. -/
def rotateConnect (address : κ → Address) (s : Lifecycle κ) : Except OutOfRange (Lifecycle κ) :=
  if s.manager.isConnected then pure s
  else do
    let manager ← s.manager.select
    if manager.connections = [] then pure { s with manager := manager.giveUp }
    else do
      let c ← manager.active
      if (address c).host ≠ Connections.exitHost then
        pure (beginAttempt { s with manager := manager.connect c })
      else pure { s with manager := manager.giveUp }

/-- `reconnecttimer_elapsed`, without an error. -/
def reconnecttimerElapsed (s : Lifecycle κ) : Lifecycle κ :=
  if s.manager.running ∧ s.manager.client.isSome ∧ ¬ s.manager.isConnected then
    { s with live := true }
  else s

/-- The handler of `onConnected`. -/
def onConnected (draw : BitVec 64) (s : Lifecycle κ) : Lifecycle κ :=
  { s with
    manager := s.manager.onConnected draw
    failovertimer := if s.manager.activeConnectionIdx ≠ 0 ∧ s.poolFailoverTimeout ≠ 0
      then s.failovertimer.wait else s.failovertimer.cancel
    submithrtimer := if s.reportHashrate then s.submithrtimer.wait else s.submithrtimer }

/-- The farm is shut down, if it is mining. -/
def shutDown (farm : Farm) : Farm := if farm.isMining then farm.stop else farm

/-- The handler of `onDisconnected`. -/
def onDisconnected (s : Lifecycle κ) : Lifecycle κ :=
  let s := { s with
    manager := s.manager.setLink false
    live := false
    failovertimer := s.failovertimer.cancel
    submithrtimer := s.submithrtimer.cancel }
  if s.stopping then
    { s with manager := { s.manager with
        client := s.manager.client.map fun p => { p with conn := none }
        farm := shutDown s.manager.farm
        running := false } }
  else { s with manager := s.manager.onDisconnected, posted := s.posted + 1 }

/-- `failovertimer_elapsed`, without an error.  A live client that is told to disconnect reports in
due time.  Any other does so at once: `EthGetworkClient::disconnect` calls `m_onDisconnected` each
time, `EthStratumClient::disconnect` as long as there is a connection definition.  (Without one,
and in a client for simulation, a null pointer is followed.) -/
def failovertimerElapsed (s : Lifecycle κ) : Option (Lifecycle κ) :=
  (s.manager.failovertimerElapsed false).map fun manager =>
    if s.live = false ∧ s.manager.running = true ∧ s.manager.activeConnectionIdx ≠ 0 then
      onDisconnected { s with manager }
    else { s with manager }

/-- `submithrtimer_elapsed`, without an error.  The hash rate is submitted if there is a
connection. -/
def submithrtimerElapsed (s : Lifecycle κ) : Lifecycle κ :=
  if s.manager.running then { s with submithrtimer := s.submithrtimer.wait } else s

/-- `stop`, to its end or to where it waits. -/
def stop (s : Lifecycle κ) : Lifecycle κ :=
  if s.manager.running then
    let s := { s with manager := { s.manager with asyncPending := true }, stopping := true }
    if s.manager.isConnected then { s with stopCall := .waiting }
    else
      { s with
        manager := { s.manager with farm := shutDown s.manager.farm }
        reconnecttimer := s.reconnecttimer.cancel
        failovertimer := s.failovertimer.cancel
        submithrtimer := s.submithrtimer.cancel
        stopCall := .returned (decide (0 < s.posted + s.reconnecttimer.queued) || s.live) }
  else { s with stopCall := .returned false }

/-- The end of a call of `stop` that has waited. -/
def stopReturns (s : Lifecycle κ) : Lifecycle κ :=
  { s with manager := { s.manager with client := none }, stopCall := .returned false }

/-- One event.  It is `none` where the event cannot happen, and where the program does not go
on. -/
def step [DecidableEq κ] (address : κ → Address) (s : Lifecycle κ) :
    LifeEvent κ → Option (Lifecycle κ)
  | .rotateConnect =>
    match s.posted with
    | 0 => none
    | n + 1 => (rotateConnect address { s with posted := n }).toOption
  | .reconnecttimerExpires =>
    s.reconnecttimer.expire.map fun reconnecttimer => { s with reconnecttimer }
  | .failovertimerExpires =>
    s.failovertimer.expire.map fun failovertimer => { s with failovertimer }
  | .submithrtimerExpires =>
    s.submithrtimer.expire.map fun submithrtimer => { s with submithrtimer }
  | .reconnecttimerElapsed =>
    s.reconnecttimer.take.map fun reconnecttimer =>
      ({ s with reconnecttimer }).reconnecttimerElapsed
  | .failovertimerElapsed =>
    s.failovertimer.take.bind fun failovertimer => ({ s with failovertimer }).failovertimerElapsed
  | .submithrtimerElapsed =>
    s.submithrtimer.take.map fun submithrtimer => ({ s with submithrtimer }).submithrtimerElapsed
  | .linked => if s.live then some { s with manager := s.manager.setLink true } else none
  | .unlinked => if s.live then some { s with manager := s.manager.setLink false } else none
  | .connected draw => if s.live then some (s.onConnected draw) else none
  | .disconnected => if s.live then some s.onDisconnected else none
  | .request r => (s.manager.step address r.event).map fun manager => { s with manager }
  | .stop => if s.stopCall = .notCalled then some s.stop else none
  | .stopReturns =>
    if s.stopCall = .waiting ∧ s.manager.running = false then some s.stopReturns else none

/-- The manager after `start`. -/
def start (connections : List κ) (connectionMaxRetries : ℕ) (farm : Farm)
    (delayBeforeRetry poolFailoverTimeout : ℕ) (reportHashrate : Bool) : Lifecycle κ where
  manager := (Connections.new connections connectionMaxRetries farm).start
  delayBeforeRetry
  poolFailoverTimeout
  reportHashrate
  posted := 1

/-- **`rotateConnect` is that of the connections**, with what follows it. -/
theorem manager_rotateConnect (address : κ → Address) (s : Lifecycle κ) :
    (rotateConnect address s).map Lifecycle.manager = s.manager.rotateConnect address := by
  have hbegin : ∀ t : Lifecycle κ, t.beginAttempt.manager = t.manager := by
    intro t
    unfold beginAttempt
    split_ifs <;> rfl
  unfold rotateConnect Connections.rotateConnect
  split_ifs
  · rfl
  · cases s.manager.select with
    | error e => rfl
    | ok manager =>
      show Except.map _ (if manager.connections = [] then _ else _) =
        (if manager.connections = [] then _ else _)
      split_ifs
      · rfl
      · cases manager.active with
        | error e => rfl
        | ok c =>
          show Except.map _ (if (address c).host ≠ Connections.exitHost then _ else _) =
            (if (address c).host ≠ Connections.exitHost then _ else _)
          split_ifs
          · exact congrArg Except.ok (hbegin _)
          · rfl

/-! ## What is outstanding -/

/-- What leads to the next attempt, or is one. -/
def outstanding (s : Lifecycle κ) : ℕ :=
  s.posted + s.reconnecttimer.outstanding + s.live.toNat

/-- `p_client->getConnection()`. -/
def getConnection (s : Lifecycle κ) : Option κ := s.manager.client.bind PoolClient.conn

/-- A client that is not live is told to disconnect, and reports that it is disconnected, once more
or without having been connected.  The next attempt is posted, and not the only one. -/
def ReportsAgain (s : Lifecycle κ) (e : LifeEvent κ) : Prop :=
  e = .failovertimerElapsed ∧ (s.live = false ∧ s.manager.running = true ∧
    s.manager.activeConnectionIdx ≠ 0) ∧ s.stopping = false

/-- The timer of the hash rate is started when there is no session. -/
def RestartsHashrate (s : Lifecycle κ) (e : LifeEvent κ) : Prop :=
  e = .submithrtimerElapsed ∧ s.live = false ∧ s.manager.running = true

instance [DecidableEq κ] (s : Lifecycle κ) (e : LifeEvent κ) : Decidable (s.ReportsAgain e) :=
  inferInstanceAs (Decidable (_ ∧ (_ ∧ _ ∧ _) ∧ _))

instance [DecidableEq κ] (s : Lifecycle κ) (e : LifeEvent κ) : Decidable (s.RestartsHashrate e) :=
  inferInstanceAs (Decidable (_ ∧ _ ∧ _))

/-- The manager is not running, or `stop` has returned; and it has left no attempt on its way. -/
def Ended (s : Lifecycle κ) : Prop :=
  s.stopCall ≠ .returned true ∧ (s.manager.running = false ∨ s.stopCall = .returned false)

/-- What holds as long as no client reports a second time.  In a run that is `quiet` the timer of
the hash rate is never started without a session. -/
structure Orderly (quiet : Prop) (s : Lifecycle κ) : Prop where
  single : s.outstanding ≤ 1
  going : s.stopping = false → s.manager.running = true → s.outstanding = 1
  link : s.manager.isConnected = true → s.live = true
  connection : s.live = true ∨ 0 < s.reconnecttimer.outstanding ∧ s.manager.running = true →
    s.getConnection.isSome = true
  asked : s.stopCall = .notCalled → s.manager.asyncPending = true ∨ s.manager.client.isSome = true
  found : 0 < s.failovertimer.outstanding →
    s.manager.client.isSome = true ∨ s.manager.running = false
  session : s.live = false → s.failovertimer.waiting = false
  hashrate : quiet → s.live = false → s.submithrtimer.waiting = false
  notCalled : s.stopCall = .notCalled → s.stopping = false
  waiting : s.stopCall = .waiting →
    s.stopping = true ∧ (s.manager.running = true → s.live = true)
  ended : s.Ended → s.outstanding = 0 ∧ s.manager.farm.isMining = false

section Steps

variable {address : κ → Address} {quiet : Prop} {s t : Lifecycle κ}

theorem isMining_shutDown (farm : Farm) : (shutDown farm).isMining = false := by
  unfold shutDown Farm.stop
  split_ifs with hmining
  · rfl
  · exact Bool.eq_false_iff.mpr hmining

/-- Choosing a connection touches neither the farm nor the client. -/
theorem select_frame {m m' : Connections κ} (h : m.select = .ok m') :
    m'.running = m.running ∧ m'.farm = m.farm ∧ m'.client = m.client ∧
      m'.asyncPending = m.asyncPending := by
  unfold Connections.select at h
  obtain ⟨c, -, h⟩ := except_bind_eq_ok.mp h
  split_ifs at h
  · obtain rfl := Except.ok.inj h
    exact ⟨rfl, rfl, rfl, rfl⟩
  · obtain rfl := Except.ok.inj h
    unfold Connections.rotate
    split_ifs <;> exact ⟨rfl, rfl, rfl, rfl⟩
  · obtain rfl := Except.ok.inj h
    exact ⟨rfl, rfl, rfl, rfl⟩

/-- **What `rotateConnect` does**, if no client is connected: the manager gives up, or an attempt
begins. -/
theorem rotateConnect_ok (hlink : s.manager.isConnected = false)
    (h : rotateConnect address s = .ok t) :
    ∃ m : Connections κ, m.running = s.manager.running ∧ m.client = s.manager.client ∧
      m.asyncPending = s.manager.asyncPending ∧
      (t = { s with manager := m.giveUp } ∨
        ∃ c, t = beginAttempt { s with manager := m.connect c }) := by
  unfold rotateConnect at h
  rw [hlink, if_neg Bool.false_ne_true] at h
  obtain ⟨m, hselect, h⟩ := except_bind_eq_ok.mp h
  obtain ⟨hrunning, -, hclient, hpending⟩ := select_frame hselect
  refine ⟨m, hrunning, hclient, hpending, ?_⟩
  split_ifs at h
  · exact .inl (Except.ok.inj h).symm
  · obtain ⟨c, -, h⟩ := except_bind_eq_ok.mp h
    split_ifs at h
    · exact .inr ⟨c, (Except.ok.inj h).symm⟩
    · exact .inl (Except.ok.inj h).symm

/-- What a request leaves alone.  It may take the flag of outstanding operations. -/
structure RequestFrame (m m' : Connections κ) : Prop where
  running : m'.running = m.running
  farm : m'.farm = m.farm
  client : m'.client = m.client
  locked : m'.asyncPending = m.asyncPending ∨ m'.asyncPending = true

theorem RequestFrame.refl (m : Connections κ) : RequestFrame m m := ⟨rfl, rfl, rfl, .inl rfl⟩

theorem frame_setActiveConnectionCommon {m m' : Connections κ} {idx : ℕ}
    (h : m.request (m.setActiveConnectionCommon idx) = some m') : RequestFrame m m' := by
  rcases Connections.request_eq_some h with rfl | hok
  · exact .refl m'
  · unfold Connections.setActiveConnectionCommon Connections.disconnect at hok
    split_ifs at hok
    · obtain ⟨-, -, rfl⟩ := Option.map_eq_some_iff.mp (Except.ok.inj hok)
      exact ⟨rfl, rfl, rfl, .inr rfl⟩
    · obtain rfl := Option.some.inj (Except.ok.inj hok)
      exact .refl _

theorem frame_request [DecidableEq κ] {m m' : Connections κ} {r : ManagerRequest κ}
    (h : m.step address r.event = some m') : RequestFrame m m' := by
  cases r with
  | addConnection c =>
    obtain rfl := Option.some.inj h
    exact ⟨rfl, rfl, rfl, .inl rfl⟩
  | removeConnection idx =>
    rcases Connections.request_eq_some h with rfl | hok
    · exact .refl m'
    · unfold Connections.removeConnection at hok
      split_ifs at hok
      · cases hok
      · cases hok
      · cases hok
      · obtain rfl := Option.some.inj (Except.ok.inj hok)
        exact ⟨rfl, rfl, rfl, .inl rfl⟩
      · obtain rfl := Option.some.inj (Except.ok.inj hok)
        exact ⟨rfl, rfl, rfl, .inl rfl⟩
  | setActiveConnection idx =>
    change m.request (m.setActiveConnection idx) = _ at h
    unfold Connections.setActiveConnection at h
    split_ifs at h
    · obtain rfl := Option.some.inj h
      exact .refl m
    · exact frame_setActiveConnectionCommon h
  | setActiveConnectionString connstring =>
    change m.request (m.setActiveConnectionString address connstring) = _ at h
    unfold Connections.setActiveConnectionString at h
    split at h
    · exact frame_setActiveConnectionCommon h
    · obtain rfl := Option.some.inj h
      exact .refl m
  | markUnrecoverable c =>
    obtain rfl := Option.some.inj h
    exact ⟨rfl, rfl, rfl, .inl rfl⟩

theorem getConnection_setLink (s : Lifecycle κ) (isConnected : Bool) :
    ({ s with manager := s.manager.setLink isConnected } : Lifecycle κ).getConnection =
      s.getConnection := by
  unfold getConnection Connections.setLink
  cases s.manager.client <;> rfl

/-! ## One step at a time -/

theorem Orderly.of_live (h : Orderly quiet s) (hlive : s.live = true) :
    s.posted = 0 ∧ s.reconnecttimer.outstanding = 0 ∧ s.getConnection.isSome = true ∧
      ¬ s.Ended := by
  have hsingle := h.single
  have hcount : s.outstanding = s.posted + s.reconnecttimer.outstanding + 1 := by
    rw [outstanding, hlive, Bool.toNat_true]
  refine ⟨by omega, by omega, h.connection (.inl hlive), fun hended => ?_⟩
  have hzero := (h.ended hended).1
  omega

/-- What leads to an attempt is the only thing outstanding. -/
theorem Orderly.of_due (h : Orderly quiet s) (hdue : 0 < s.posted + s.reconnecttimer.outstanding) :
    s.posted + s.reconnecttimer.outstanding = 1 ∧ s.live = false ∧
      s.manager.isConnected = false ∧ ¬ s.Ended := by
  have hsingle := h.single
  have hcount : s.outstanding = s.posted + s.reconnecttimer.outstanding + s.live.toNat := rfl
  have hlive : s.live = false := Bool.toNat_eq_zero.mp (by omega)
  refine ⟨by omega, hlive, Bool.eq_false_iff.mpr fun hlink => ?_, fun hended => ?_⟩
  · exact nomatch hlive.symm.trans (h.link hlink)
  · have hzero := (h.ended hended).1
    omega

/-- While `stop` waits for a client that is live, nothing else leads to an attempt. -/
theorem Orderly.not_running_of_waiting (h : Orderly quiet s) (hlive : s.live = false)
    (hwaiting : s.stopCall = .waiting) : s.manager.running = false :=
  Bool.eq_false_iff.mpr fun hrunning => nomatch hlive.symm.trans ((h.waiting hwaiting).2 hrunning)

/-- **A client is live**, and nothing else is outstanding. -/
theorem Orderly.of_live_next (h : Orderly quiet s) (hnot : ¬ s.Ended) (hlive : t.live = true)
    (hposted : t.posted = 0) (htimer : t.reconnecttimer.outstanding = 0)
    (hrunning : t.manager.running = s.manager.running) (hstopping : t.stopping = s.stopping)
    (hstopCall : t.stopCall = s.stopCall) (hconn : t.getConnection.isSome = true) :
    Orderly quiet t := by
  have hcount : t.outstanding = 1 := by
    rw [outstanding, hposted, htimer, hlive]
    rfl
  have hclient : t.manager.client.isSome = true := Option.isSome_of_isSome_bind hconn
  refine ⟨hcount.le, fun _ _ => hcount, fun _ => hlive, fun _ => hconn, fun _ => .inr hclient,
    fun _ => .inl hclient, fun hnone => (nomatch hlive.symm.trans hnone),
    fun _ hnone => (nomatch hlive.symm.trans hnone), ?_, ?_, ?_⟩
  · rw [hstopCall, hstopping]
    exact h.notCalled
  · rw [hstopCall, hstopping]
    exact fun hwaiting => ⟨(h.waiting hwaiting).1, fun _ => hlive⟩
  · unfold Ended
    rw [hstopCall, hrunning]
    exact fun hended => absurd hended hnot

/-- A live client stays live, and may get connected. -/
theorem Orderly.of_same_live (h : Orderly quiet s) (hlive : s.live = true) (hlive' : t.live = true)
    (hposted : t.posted = s.posted) (htimer : t.reconnecttimer = s.reconnecttimer)
    (hrunning : t.manager.running = s.manager.running) (hstopping : t.stopping = s.stopping)
    (hstopCall : t.stopCall = s.stopCall) (hconn : t.getConnection = s.getConnection) :
    Orderly quiet t := by
  obtain ⟨hnone, htimer', hsome, hnot⟩ := h.of_live hlive
  exact h.of_live_next hnot hlive' (hposted.trans hnone) (htimer ▸ htimer') hrunning hstopping
    hstopCall (hconn ▸ hsome)

/-- **A request, or a timer**: nothing becomes outstanding. -/
theorem Orderly.of_frame (h : Orderly quiet s) {m : Connections κ} (hm : RequestFrame s.manager m)
    {reconnect failover submithr : Timer}
    (hreconnect : reconnect.outstanding = s.reconnecttimer.outstanding)
    (hfailover : failover.outstanding ≤ s.failovertimer.outstanding)
    (hwaiting : failover.waiting = true → s.failovertimer.waiting = true)
    (hhashrate : quiet → s.live = false → submithr.waiting = true →
      s.submithrtimer.waiting = true) :
    Orderly quiet
      { s with
        manager := m
        reconnecttimer := reconnect
        failovertimer := failover
        submithrtimer := submithr } := by
  have hcount : s.posted + reconnect.outstanding + s.live.toNat = s.outstanding := by
    rw [hreconnect]
    rfl
  constructor
  · exact hcount.trans_le h.single
  · exact fun hstopping hrunning =>
      hcount.trans (h.going hstopping (hm.running.symm.trans hrunning))
  · exact fun hlink => h.link ((congrArg (Option.any PoolClient.isConnected) hm.client).symm.trans
      hlink)
  · show _ ∨ 0 < reconnect.outstanding ∧ m.running = true →
      (m.client.bind PoolClient.conn).isSome = true
    rw [hreconnect, hm.running, hm.client]
    exact h.connection
  · show _ → m.asyncPending = true ∨ m.client.isSome = true
    rw [hm.client]
    exact fun hcalled => (h.asked hcalled).imp_left fun hpending =>
      hm.locked.elim (fun heq => heq.trans hpending) id
  · show _ → m.client.isSome = true ∨ m.running = false
    rw [hm.client, hm.running]
    exact fun hpositive => h.found (hpositive.trans_le hfailover)
  · exact fun hlive => Bool.eq_false_iff.mpr fun htrue =>
      nomatch (h.session hlive).symm.trans (hwaiting htrue)
  · exact fun hquiet hlive => Bool.eq_false_iff.mpr fun htrue =>
      nomatch (h.hashrate hquiet hlive).symm.trans (hhashrate hquiet hlive htrue)
  · exact h.notCalled
  · show _ → _ ∧ (m.running = true → _)
    rw [hm.running]
    exact h.waiting
  · show _ ∧ (m.running = false ∨ _) → s.posted + reconnect.outstanding + s.live.toNat = 0 ∧
      m.farm.isMining = false
    rw [hm.running, hm.farm, hcount]
    exact h.ended

/-- **`rotateConnect`** takes up what was posted. -/
theorem orderly_rotateConnect {n : ℕ} (h : Orderly quiet s) (hposted : s.posted = n + 1)
    (ht : rotateConnect address { s with posted := n } = .ok t) : Orderly quiet t := by
  obtain ⟨hone, hlive, hlink, hnot⟩ := h.of_due (by omega)
  obtain rfl : n = 0 := by omega
  have htimer : s.reconnecttimer.outstanding = 0 := by omega
  obtain ⟨m, hm, hclient, hpending, rfl | ⟨c, rfl⟩⟩ :=
    rotateConnect_ok (s := { s with posted := 0 }) hlink ht
  · -- the manager gives up
    have hcount : 0 + s.reconnecttimer.outstanding + s.live.toNat = 0 := by
      rw [htimer, hlive]
      rfl
    constructor
    · exact hcount.le.trans (Nat.zero_le 1)
    · exact fun _ hrunning => nomatch hrunning
    · intro hlink'
      exact h.link ((congrArg (Option.any PoolClient.isConnected) hclient).symm.trans hlink')
    · rintro (hlive' | ⟨-, hrunning⟩)
      · exact nomatch hlive.symm.trans hlive'
      · exact nomatch hrunning
    · show _ → m.asyncPending = true ∨ m.client.isSome = true
      rw [hpending, hclient]
      exact h.asked
    · exact fun _ => .inr rfl
    · exact h.session
    · exact h.hashrate
    · exact h.notCalled
    · exact fun hwaiting => ⟨(h.waiting hwaiting).1, fun hrunning => nomatch hrunning⟩
    · exact fun _ => ⟨hcount, isMining_shutDown m.farm⟩
  · -- an attempt begins, at once or later
    unfold beginAttempt
    split_ifs
    · have hcount : 0 + s.reconnecttimer.wait.outstanding + false.toNat = 1 := by
        have hqueued : s.reconnecttimer.queued = 0 := Nat.eq_zero_of_add_eq_zero_left htimer
        rw [Timer.wait, Timer.outstanding, hqueued]
        rfl
      refine ⟨hcount.le, fun _ _ => hcount, fun hlink' => (nomatch hlink'), fun _ => rfl,
        fun _ => .inr rfl, fun _ => .inl rfl, fun _ => h.session hlive,
        fun hquiet _ => h.hashrate hquiet hlive, h.notCalled, fun hwaiting => ?_,
        fun hended => absurd ⟨hended.1, hended.2.imp_left hm.symm.trans⟩ hnot⟩
      exact ⟨(h.waiting hwaiting).1, fun hrunning => nomatch hrunning.symm.trans
        (hm.trans (h.not_running_of_waiting hlive hwaiting))⟩
    · exact h.of_live_next hnot rfl rfl htimer hm rfl rfl rfl

/-- **The client reports that it is disconnected**: the next attempt is posted, or it is over. -/
theorem orderly_onDisconnected (h : Orderly quiet s)
    (hlate : s.live = true ∨ s.stopping = true ∧ s.manager.running = true) :
    Orderly quiet s.onDisconnected := by
  have hunset : ∀ c : Option (PoolClient κ),
      ((c.map fun p => { p with isConnected := false }).map fun p =>
        ({ p with conn := none } : PoolClient κ)).any PoolClient.isConnected = false := by
    intro c
    cases c <;> rfl
  have hsome : ∀ c : Option (PoolClient κ), c.isSome = true →
      ((c.map fun p => { p with isConnected := false }).map fun p =>
        ({ p with conn := none } : PoolClient κ)).isSome = true := by
    intro c hc
    exact (Option.isSome_map.trans Option.isSome_map).trans hc
  have hless : s.posted + s.reconnecttimer.outstanding + false.toNat ≤ s.outstanding :=
    Nat.add_le_add_left (Nat.zero_le _) _
  unfold onDisconnected
  dsimp only
  split_ifs with hstopping
  · refine ⟨hless.trans h.single, fun hnot => (nomatch hstopping.symm.trans hnot), ?_, ?_, ?_,
      fun _ => .inr rfl, fun _ => rfl, fun _ _ => rfl, h.notCalled,
      fun _ => ⟨hstopping, fun hrunning => (nomatch hrunning)⟩, ?_⟩
    · exact fun hlink => nomatch (hunset _).symm.trans hlink
    · rintro (hlive | ⟨-, hrunning⟩)
      · exact nomatch hlive
      · exact nomatch hrunning
    · exact fun hcalled => nomatch hstopping.symm.trans (h.notCalled hcalled)
    · rintro ⟨hreturned, -⟩
      refine ⟨?_, isMining_shutDown _⟩
      by_cases hlive : s.live = true
      · obtain ⟨hposted, htimer, -, -⟩ := h.of_live hlive
        show s.posted + s.reconnecttimer.outstanding + false.toNat = 0
        rw [hposted, htimer]
        rfl
      · -- `stop` has been called, and does not wait
        have hrunning := (hlate.resolve_left hlive).2
        have hended : s.Ended := by
          refine ⟨hreturned, .inr ?_⟩
          cases hcall : s.stopCall with
          | notCalled => exact nomatch hstopping.symm.trans (h.notCalled hcall)
          | waiting => exact absurd ((h.waiting hcall).2 hrunning) hlive
          | returned attempting =>
            cases attempting with
            | false => rfl
            | true => exact absurd hcall hreturned
        exact Nat.eq_zero_of_le_zero (hless.trans (h.ended hended).1.le)
  · have hlive : s.live = true := hlate.resolve_right fun hstop => hstopping hstop.1
    obtain ⟨hposted, htimer, hconn, hnot⟩ := h.of_live hlive
    have hcount : s.posted + 1 + s.reconnecttimer.outstanding + false.toNat = 1 := by
      rw [hposted, htimer]
      rfl
    refine ⟨hcount.le, fun _ _ => hcount, ?_, ?_, fun _ => .inl rfl, fun _ => .inl ?_, fun _ => rfl,
      fun _ _ => rfl, h.notCalled, ?_, fun hended => absurd hended hnot⟩
    · exact fun hlink => nomatch (hunset _).symm.trans hlink
    · rintro (hlive' | ⟨hpositive, -⟩)
      · exact nomatch hlive'
      · exact absurd htimer hpositive.ne'
    · exact hsome _ (Option.isSome_of_isSome_bind hconn)
    · exact fun hwaiting => absurd (h.waiting hwaiting).1 hstopping

/-- **`stop`**, whatever it finds. -/
theorem orderly_stop (h : Orderly quiet s) (hcalled : s.stopCall = .notCalled) :
    Orderly quiet s.stop := by
  unfold stop
  dsimp only
  split_ifs with hrunning hlink
  · -- it waits for the client
    have hlive := h.link hlink
    obtain ⟨-, -, hconn, -⟩ := h.of_live hlive
    exact ⟨h.single, nofun, h.link, h.connection, nofun, h.found, h.session, h.hashrate, nofun,
      fun _ => ⟨rfl, fun _ => hlive⟩,
      fun hended => hended.2.elim (fun hnot => nomatch hrunning.symm.trans hnot) nofun⟩
  · have hless : s.posted + s.reconnecttimer.cancel.outstanding + s.live.toNat ≤ s.outstanding := by
      refine Nat.add_le_add_right (Nat.add_le_add_left ?_ _) _
      exact Nat.add_le_add_right (Nat.zero_le _) _
    refine ⟨hless.trans h.single, nofun, h.link, ?_, nofun, ?_, fun _ => rfl, fun _ _ => rfl,
      nofun, nofun, ?_⟩
    · exact fun hlive => h.connection (hlive.imp_right fun hwaits => ⟨hwaits.1.trans_le
        (Nat.add_le_add_right (Nat.zero_le _) _), hrunning⟩)
    · exact fun hpositive => h.found (hpositive.trans_le (Nat.add_le_add_right (Nat.zero_le _) _))
    · -- nothing was on its way, or it would have been noted
      rintro ⟨hreturned, -⟩
      refine ⟨?_, isMining_shutDown _⟩
      have hnone : (decide (0 < s.posted + s.reconnecttimer.queued) || s.live) = false :=
        Bool.eq_false_iff.mpr fun htrue => hreturned (congrArg StopCall.returned htrue)
      rw [Bool.or_eq_false_iff, decide_eq_false_iff_not] at hnone
      have hzero : s.posted = 0 ∧ s.reconnecttimer.queued = 0 := by omega
      show s.posted + (false.toNat + s.reconnecttimer.queued) + s.live.toNat = 0
      rw [hzero.1, hzero.2, hnone.2]
      rfl
  · have hidle : s.manager.running = false := Bool.eq_false_iff.mpr hrunning
    have hended : s.Ended := ⟨hcalled ▸ nofun, .inl hidle⟩
    exact ⟨h.single, h.going, h.link, h.connection, nofun, h.found, h.session, h.hashrate, nofun,
      nofun, fun _ => h.ended hended⟩

theorem orderly_stopReturns (h : Orderly quiet s) (hwaiting : s.stopCall = .waiting)
    (hidle : s.manager.running = false) : Orderly quiet s.stopReturns := by
  have hended : s.Ended := ⟨hwaiting ▸ nofun, .inl hidle⟩
  have hlive : s.live = false := by
    have hzero : s.posted + s.reconnecttimer.outstanding + s.live.toNat = 0 := (h.ended hended).1
    exact Bool.toNat_eq_zero.mp (by omega)
  refine ⟨h.single, h.going, nofun, ?_, nofun, fun _ => .inr hidle, h.session, h.hashrate, nofun,
    nofun, fun _ => h.ended hended⟩
  rintro (hlive' | ⟨-, hrunning⟩)
  · exact nomatch hlive.symm.trans hlive'
  · exact nomatch hidle.symm.trans hrunning

/-- **The handler of the reconnect timer** finds the client, and tells it to connect. -/
theorem orderly_reconnecttimerElapsed {timer : Timer} (h : Orderly quiet s)
    (htimer : s.reconnecttimer.outstanding = timer.outstanding + 1) :
    Orderly quiet ({ s with reconnecttimer := timer } : Lifecycle κ).reconnecttimerElapsed := by
  obtain ⟨hone, hlive, hlink, hnot⟩ := h.of_due (by omega)
  have hposted : s.posted = 0 := by omega
  have hnone : timer.outstanding = 0 := by omega
  have hzero : 0 < s.reconnecttimer.outstanding := by omega
  unfold reconnecttimerElapsed
  dsimp only
  by_cases hrunning : s.manager.running = true
  · have hconn := h.connection (.inr ⟨hzero, hrunning⟩)
    rw [if_pos ⟨hrunning, Option.isSome_of_isSome_bind hconn, Bool.eq_false_iff.mp hlink⟩]
    exact h.of_live_next hnot rfl hposted hnone rfl rfl rfl hconn
  · have hcount : s.posted + timer.outstanding + s.live.toNat = 0 := by
      rw [hposted, hnone, hlive]
      rfl
    rw [if_neg fun hall => hrunning hall.1]
    refine ⟨hcount.le.trans (Nat.zero_le 1), fun _ htrue => absurd htrue hrunning, h.link, ?_,
      h.asked, h.found, h.session, h.hashrate, h.notCalled, h.waiting,
      fun hended => absurd hended hnot⟩
    rintro (hlive' | ⟨-, htrue⟩)
    · exact nomatch hlive.symm.trans hlive'
    · exact absurd htrue hrunning

theorem frame_failovertimerElapsed {m m' : Connections κ} {ec : Bool}
    (h : m.failovertimerElapsed ec = some m') : RequestFrame m m' := by
  unfold Connections.failovertimerElapsed Connections.disconnect at h
  split_ifs at h
  · obtain ⟨-, -, rfl⟩ := Option.map_eq_some_iff.mp h
    exact ⟨rfl, rfl, rfl, .inl rfl⟩
  · obtain rfl := Option.some.inj h
    exact .refl m

/-- **One event** keeps the manager orderly, unless a client reports a second time. -/
theorem orderly_step [DecidableEq κ] {e : LifeEvent κ} (h : Orderly quiet s)
    (he : ¬ s.ReportsAgain e) (hquiet : quiet → ¬ s.RestartsHashrate e)
    (ht : s.step address e = some t) : Orderly quiet t := by
  cases e with
  | rotateConnect =>
    simp only [step] at ht
    split at ht
    · exact nomatch ht
    · next n hposted => exact orderly_rotateConnect h hposted (toOption_eq_some.mp ht)
  | reconnecttimerExpires =>
    obtain ⟨timer, htimer, rfl⟩ := Option.map_eq_some_iff.mp ht
    exact h.of_frame (.refl _) (Timer.expire_eq_some htimer).2.2 le_rfl id fun _ _ => id
  | failovertimerExpires =>
    obtain ⟨timer, htimer, rfl⟩ := Option.map_eq_some_iff.mp ht
    obtain ⟨hwaiting, -, hsame⟩ := Timer.expire_eq_some htimer
    exact h.of_frame (.refl _) rfl hsame.le (fun _ => hwaiting) fun _ _ => id
  | submithrtimerExpires =>
    obtain ⟨timer, htimer, rfl⟩ := Option.map_eq_some_iff.mp ht
    exact h.of_frame (.refl _) rfl le_rfl id fun _ _ _ => (Timer.expire_eq_some htimer).1
  | reconnecttimerElapsed =>
    obtain ⟨timer, htimer, rfl⟩ := Option.map_eq_some_iff.mp ht
    exact orderly_reconnecttimerElapsed h (Timer.take_eq_some htimer).2
  | failovertimerElapsed =>
    obtain ⟨timer, htimer, ht⟩ := Option.bind_eq_some_iff.mp ht
    obtain ⟨m, hm, rfl⟩ := Option.map_eq_some_iff.mp ht
    obtain ⟨hwaiting, hless⟩ := Timer.take_eq_some htimer
    have hframe := frame_failovertimerElapsed hm
    have hnext : Orderly quiet { s with manager := m, failovertimer := timer } :=
      h.of_frame hframe rfl (by omega) (fun htrue => hwaiting ▸ htrue) fun _ _ => id
    dsimp only
    split_ifs with hlate
    · have hstopping : s.stopping = true :=
        Bool.not_eq_false _ ▸ fun hnot => he ⟨rfl, hlate, hnot⟩
      exact orderly_onDisconnected hnext (.inr ⟨hstopping, hframe.running.trans hlate.2.1⟩)
    · exact hnext
  | submithrtimerElapsed =>
    obtain ⟨timer, htimer, rfl⟩ := Option.map_eq_some_iff.mp ht
    unfold submithrtimerElapsed
    split_ifs with hrunning
    · exact h.of_frame (.refl _) rfl le_rfl id fun hq hlive =>
        absurd ⟨rfl, hlive, hrunning⟩ (hquiet hq)
    · exact h.of_frame (.refl _) rfl le_rfl id fun _ _ htrue =>
        (Timer.take_eq_some htimer).1 ▸ htrue
  | linked | unlinked =>
    obtain ⟨hlive, ⟨⟩⟩ := Option.ite_none_right_eq_some.mp ht
    exact h.of_same_live hlive hlive rfl rfl rfl rfl rfl (getConnection_setLink s _)
  | connected draw =>
    obtain ⟨hlive, ⟨⟩⟩ := Option.ite_none_right_eq_some.mp ht
    exact h.of_same_live hlive hlive rfl rfl rfl rfl rfl rfl
  | disconnected =>
    obtain ⟨hlive, ⟨⟩⟩ := Option.ite_none_right_eq_some.mp ht
    exact orderly_onDisconnected h (.inl hlive)
  | request r =>
    obtain ⟨m, hm, rfl⟩ := Option.map_eq_some_iff.mp ht
    exact h.of_frame (frame_request hm) rfl le_rfl id fun _ _ => id
  | stop =>
    obtain ⟨hcalled, ⟨⟩⟩ := Option.ite_none_right_eq_some.mp ht
    exact orderly_stop h hcalled
  | stopReturns =>
    obtain ⟨hdone, ⟨⟩⟩ := Option.ite_none_right_eq_some.mp ht
    exact orderly_stopReturns h hdone.1 hdone.2

end Steps

theorem orderly_start (quiet : Prop) (connections : List κ) (connectionMaxRetries : ℕ)
    (farm : Farm) (delayBeforeRetry poolFailoverTimeout : ℕ) (reportHashrate : Bool) :
    Orderly quiet (start connections connectionMaxRetries farm delayBeforeRetry poolFailoverTimeout
      reportHashrate) where
  single := le_rfl
  going := fun _ _ => rfl
  link := nofun
  connection := nofun
  asked := fun _ => .inl rfl
  found := nofun
  session := fun _ => rfl
  hashrate := fun _ _ => rfl
  notCalled := fun _ => rfl
  waiting := nofun
  ended := fun hended => hended.2.elim nofun nofun

/-! ## Whole runs -/

/-- The manager goes on: one thing at a time is outstanding, and nobody finds a null pointer. -/
structure InOrder [DecidableEq κ] (address : κ → Address) (s : Lifecycle κ) : Prop where
  single : s.outstanding ≤ 1
  going : s.stopCall = .notCalled → s.manager.running = true → s.outstanding = 1
  connection : s.live = true → s.getConnection.isSome = true
  failover : 0 < s.failovertimer.queued → (s.step address .failovertimerElapsed).isSome = true
  requests : s.stopCall = .notCalled → ∀ r, (s.step address (.request r)).isSome = true

/-- A session on the second connection ends when the handler of its failover timer is queued. -/
example : (run (step fun _ => ⟨[], []⟩) (start [false, true] 3 {} 0 5 false)
    [.rotateConnect, .linked, .connected 0, .request (.setActiveConnection 1), .disconnected,
      .rotateConnect, .linked, .connected 0, .failovertimerExpires, .disconnected,
      .failovertimerElapsed]).map outstanding = some 2 := by
  decide

/-- **What `stop` leaves when it returns.**  Take a run in which no client reports a second time,
and the timer of the hash rate is not started without a session.  Unless `stop` found an attempt to
connect on its way, nothing is outstanding when it has returned, no timer runs, and the farm does
not mine, whatever happens afterwards. -/
theorem stop_final [DecidableEq κ] (address : κ → Address) (connections : List κ)
    (connectionMaxRetries : ℕ) (farm : Farm) (delayBeforeRetry poolFailoverTimeout : ℕ)
    (reportHashrate : Bool) (es : List (LifeEvent κ))
    (hes : StepsMeet (step address) (fun s e => ¬ s.ReportsAgain e ∧ ¬ s.RestartsHashrate e)
      (start connections connectionMaxRetries farm delayBeforeRetry poolFailoverTimeout
        reportHashrate) es) :
    Along (step address)
      (fun s => s.stopCall = .returned false →
        s.outstanding = 0 ∧ s.failovertimer.waiting = false ∧ s.submithrtimer.waiting = false ∧
          s.manager.farm.isMining = false)
      (start connections connectionMaxRetries farm delayBeforeRetry poolFailoverTimeout
        reportHashrate) es := by
  have hkept := along_of_stepsMeet (P := Orderly True)
    (fun s e t hs he ht => orderly_step hs he.1 (fun _ => he.2) ht) es _
    (orderly_start True connections connectionMaxRetries farm delayBeforeRetry poolFailoverTimeout
      reportHashrate) hes
  refine hkept.mono fun s h hreturned => ?_
  obtain ⟨hnone, hidle⟩ := h.ended ⟨hreturned ▸ nofun, .inr hreturned⟩
  have hlive : s.live = false := by
    rw [outstanding] at hnone
    exact Bool.toNat_eq_zero.mp (by omega)
  exact ⟨hnone, h.session hlive, h.hashrate trivial hlive, hidle⟩

/-- The manager is stopped in the middle of a session. -/
theorem stop_final_session :
    let s : Lifecycle Bool := start [false, true] 3 {} 0 5 true
    let es : List (LifeEvent Bool) :=
      [.rotateConnect, .linked, .connected 0, .submithrtimerExpires, .submithrtimerElapsed, .stop,
        .submithrtimerExpires, .disconnected, .submithrtimerElapsed, .stopReturns]
    (run (step fun _ => ⟨[], []⟩) s es).map (fun t => t.stopCall) = some (.returned false) ∧
      Along (step fun _ => ⟨[], []⟩)
        (fun t => t.stopCall = .returned false →
          t.outstanding = 0 ∧ t.failovertimer.waiting = false ∧ t.submithrtimer.waiting = false ∧
            t.manager.farm.isMining = false) s es := by
  intro s es
  have hes : StepsMeet (step fun _ => ⟨[], []⟩)
      (fun t e => ¬ t.ReportsAgain e ∧ ¬ t.RestartsHashrate e) s es := by
    decide
  exact ⟨by decide, stop_final (fun _ => ⟨[], []⟩) [false, true] 3 {} 0 5 true es hes⟩

/-- `stop` returns while the client is connecting; the client gets its connection, and the farm
is started. -/
example : (run (step fun _ => ⟨[], []⟩) (start [()] 3 {} 0 0 false)
    [.rotateConnect, .stop, .linked, .connected 0]).map (fun s =>
      (s.stopCall, s.manager.farm.isMining)) = some (.returned true, true) := by
  decide

end Lifecycle
end Pool
end FpgaEthash
