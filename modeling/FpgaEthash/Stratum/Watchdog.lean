import FpgaEthash.Stratum.Connection

/-!
# The watchdog

`m_workloop_timer` supervises a connection: every second `workloop_timer_elapsed` looks
for overdue responses, and submits the next wait.  From `connect` until the client is
released, a wait should be pending.

`workloop_timer_elapsed` has two branches that return before the wait is submitted.  They
close a socket, of a connection attempt or of a TLS shutdown, that has kept a plea waiting.
`Closes` says when they are taken: the comparison is the wrong way round, and they are
taken as long as the plea is *not* older than the timeout.  So

* the watchdog dies at the first tick that finds an attempt in progress (`watched_iff`),
* and this tick closes the socket of an attempt that has not had its time
  (`timely_iff`).

Everything else keeps the timer as it is, or releases the client.
-/

namespace FpgaEthash
namespace Stratum

open Devcore Ethcore Jsoncpp Pool Throwing Talk Runs Framing

variable {μ : Type}

namespace StratumClient

/-! ## What leaves the timer alone -/

/-- The timer, and the stage of the client. -/
def watch (c : StratumClient μ) : Option TimePoint × Stage := (c.timer, c.stage)

section Alone

variable (lib : Library) (h : Handlers μ) (now : TimePoint) (c : StratumClient μ)

/-- The client goes on with the next stratum mode, or is released. -/
theorem watch_disconnectFinalize :
    (c.disconnectFinalize now).watch = c.watch ∨
      (c.disconnectFinalize now).watch = (none, .released) := by
  unfold disconnectFinalize
  dsimp only
  split_ifs
  · exact .inl rfl
  · exact .inr rfl
  · exact .inr rfl

theorem watch_disconnect :
    (c.disconnect now).watch = c.watch ∨ (c.disconnect now).watch = (none, .released) := by
  unfold disconnect
  dsimp only
  split_ifs
  · exact .inl rfl
  · exact .inl rfl
  · exact watch_disconnectFinalize now _
  · exact watch_disconnectFinalize now _
  · exact .inl rfl
  · exact watch_disconnectFinalize now _
  · exact watch_disconnectFinalize now _

theorem watch_resolveHandler (result : Option (List Endpoint)) :
    (c.resolveHandler now result).watch = c.watch ∨
      (c.resolveHandler now result).watch = (none, .released) := by
  cases result with
  | some endpoints => exact .inl rfl
  | none => exact watch_disconnectFinalize now _

theorem watch_startConnect :
    (c.startConnect now).watch = c.watch ∨ (c.startConnect now).watch = (none, .released) := by
  unfold startConnect
  split_ifs
  · exact .inl rfl
  · exact .inl rfl
  · exact watch_disconnectFinalize now c

variable {c} {c' : StratumClient μ}

theorem watch_connectHandler {failed handshakeFailed : Bool}
    (hc : c.connectHandler lib now failed handshakeFailed = some c') : c'.watch = c.watch := by
  unfold connectHandler at hc
  dsimp only at hc
  split at hc
  · exact nomatch hc
  · split_ifs at hc
    · split at hc
      · exact nomatch hc
      · obtain rfl := Option.some.inj hc
        rfl
    · obtain rfl := Option.some.inj hc
      rfl
    · obtain rfl := Option.some.inj hc
      rfl

theorem watch_onRecv {result : Except ReadError StdString}
    (hc : c.onRecv lib h now result = some c') : c'.watch = c.watch := by
  unfold onRecv at hc
  split at hc
  · split_ifs at hc
    all_goals
      obtain rfl := Option.some.inj hc
      rfl
  · split at hc
    · exact nomatch hc
    · dsimp only at hc
      split_ifs at hc
      all_goals
        obtain rfl := Option.some.inj hc
        rfl

theorem watch_onSent (bytes : StdString) (result : WriteResult) :
    (c.onSent now bytes result).watch = c.watch := by
  unfold onSent stampTx
  cases result with
  | ok | failed protocolIsShutdown =>
    dsimp only
    split_ifs <;> rfl

theorem watch_onFakeReply (hc : c.onFakeReply lib h now = some c') : c'.watch = c.watch := by
  unfold onFakeReply at hc
  split at hc
  · exact nomatch hc
  · obtain rfl := Option.some.inj hc
    rfl

theorem watch_submitHashrate {jReq : Value} (hc : c.submitHashrate lib jReq = some c') :
    c'.watch = c.watch := by
  unfold submitHashrate at hc
  split_ifs at hc
  · obtain rfl := Option.some.inj hc
    rfl
  · obtain rfl := Option.some.inj hc
    rfl

theorem watch_submitSolution (id : BitVec 32) (jReq : Value) :
    (c.submitSolution lib now id jReq).watch = c.watch := by
  unfold submitSolution
  split_ifs <;> rfl

end Alone

/-! ## A tick -/

/-- The tick takes one of the branches that close a socket. -/
def Closes (cfg : Settings) (now : TimePoint) (c : StratumClient μ) : Prop :=
  c.exchange.pleas.responsePleasCount ≠ 0 ∧
    toMilliseconds (now - c.exchange.pleas.responsePleaOlder) ≤ cfg.responseMilliseconds ∧
    (c.connecting = true ∨
      c.disconnecting = true ∧ c.isSecure = true ∧ c.socket = some true)

instance (cfg : Settings) (now : TimePoint) (c : StratumClient μ) : Decidable (Closes cfg now c) :=
  inferInstanceAs (Decidable (_ ∧ _ ∧ (_ ∨ _ ∧ _ ∧ _)))

section Tick

variable (lib : Library) (cfg : Settings) (now : TimePoint) {c c' : StratumClient μ}

/-- What the message that keeps a session alive leaves alone. -/
theorem keepAlive_eq (c : StratumClient μ) :
    ∃ tx sent, c.keepAlive lib now = { c with tx, exchange := { c.exchange with sent } } := by
  unfold keepAlive
  split
  · exact ⟨_, _, rfl⟩
  · split_ifs
    · exact ⟨_, _, rfl⟩
    · exact ⟨_, _, rfl⟩

/-- What the checks while connected leave alone. -/
theorem checkConnected_eq {delay : ℤ} (hc : c.checkConnected cfg now delay = some c') :
    ∃ endpoints pleas disconnects pending, c' = { c with
      endpoints, pending, exchange := { c.exchange with pleas, disconnects } } := by
  have hdiscard : ∀ c', c.discardEndpoint now = some c' →
      ∃ endpoints pleas disconnects pending, c' = { c with
        endpoints, pending, exchange := { c.exchange with pleas, disconnects } } := by
    intro c' hc
    unfold discardEndpoint at hc
    split at hc
    · exact nomatch hc
    · obtain rfl := Option.some.inj hc
      exact ⟨_, _, _, _, rfl⟩
  unfold checkConnected at hc
  split_ifs at hc
  · obtain rfl := Option.some.inj hc
    exact ⟨_, _, _, _, rfl⟩
  · exact hdiscard c' hc
  · exact hdiscard c' hc
  · obtain rfl := Option.some.inj hc
    exact ⟨_, _, _, _, rfl⟩
  · obtain rfl := Option.some.inj hc
    exact ⟨_, _, _, _, rfl⟩

/-- A tick that goes on to these checks submits the next wait. -/
theorem watch_checkConnected {delay : ℤ}
    (hc : (c.checkConnected cfg now delay).map (rearm now) = some c') :
    c'.watch = (some (now + workloopInterval), c.stage) ∧ c'.socket = c.socket := by
  obtain ⟨d, hd, rfl⟩ := Option.map_eq_some_iff.mp hc
  obtain ⟨_, _, _, _, rfl⟩ := checkConnected_eq cfg now hd
  exact ⟨rfl, rfl⟩

/-- **What a tick does**: it closes the socket and submits no wait, or it leaves the socket
alone and submits one. -/
theorem workloopTimerElapsed_cases (hc : c.workloopTimerElapsed lib cfg now = some c') :
    (Closes cfg now c ∧ c'.watch = (none, c.stage) ∧ c'.socket = some false) ∨
      (¬ Closes cfg now c ∧ c'.watch = (some (now + workloopInterval), c.stage) ∧
        c'.socket = c.socket) := by
  obtain ⟨tx, sent, halive⟩ := keepAlive_eq lib now { c with timer := none }
  unfold workloopTimerElapsed at hc
  rw [halive] at hc
  dsimp only at hc
  unfold Closes
  split_ifs at hc with hcount hpending hconnecting hsocket hshutdown
  · obtain rfl := Option.some.inj hc
    exact .inl ⟨⟨hcount, hpending.2, .inl hconnecting⟩, rfl, rfl⟩
  · obtain rfl := Option.some.inj hc
    exact .inl ⟨⟨hcount, hpending.2, .inr hshutdown⟩, rfl, rfl⟩
  · obtain ⟨hwatch, hsame⟩ := watch_checkConnected cfg now hc
    refine .inr ⟨fun hcloses => ?_, hwatch, hsame⟩
    rcases hcloses.2.2 with hc' | hc'
    · exact hconnecting hc'
    · exact hshutdown hc'
  · obtain ⟨hwatch, hsame⟩ := watch_checkConnected cfg now hc
    refine .inr ⟨fun hcloses => hpending ⟨?_, hcloses.2.1⟩, hwatch, hsame⟩
    show (c.connecting || c.disconnecting) = true
    rw [Bool.or_eq_true]
    exact hcloses.2.2.imp_right And.left
  · obtain rfl := Option.some.inj hc
    exact .inr ⟨fun hcloses => hcount hcloses.1, rfl, rfl⟩

end Tick

/-! ## The watchdog along runs -/

/-- Between `connect` and the call of `m_onDisconnected`, a wait is pending that will come
back without an error. -/
def Watched (c : StratumClient μ) : Prop := c.stage = .engaged → c.timer.isSome = true

instance (c : StratumClient μ) : Decidable (Watched c) := inferInstanceAs (Decidable (_ → _))

/-- Only a client that is engaged has a wait pending. -/
def OnlyWatched (c : StratumClient μ) : Prop := c.timer.isSome = true → c.stage = .engaged

/-- Whether the event is a tick that closes a socket. -/
def ClosesNow (cfg : Settings) (c : StratumClient μ) (e : TimePoint × Event) : Prop :=
  match e.2 with
  | .tick => Closes cfg e.1 c
  | _ => False

section Runs

variable (lib : Library) (h : Handlers μ) (cfg : Settings) (now : TimePoint)
  {c c' : StratumClient μ}

theorem watch_connect (c : StratumClient μ) :
    (c.connect now).watch = c.watch ∨
      (c.connect now).watch = (some (now + workloopInterval), .engaged) := by
  unfold connect
  dsimp only
  split_ifs
  · exact .inl rfl
  · exact .inr rfl
  · exact .inr rfl

/-- **What an event does to the timer**, if it is no tick: nothing, or the client is engaged
or released. -/
theorem watch_handle {e : Event} (hc : handle lib h cfg now c e = some c') (htick : e ≠ .tick) :
    c'.watch = c.watch ∨ c'.watch = (some (now + workloopInterval), .engaged) ∨
      c'.watch = (none, .released) := by
  cases e with
  | tick => exact absurd rfl htick
  | connect =>
    obtain rfl := Option.some.inj hc
    exact (watch_connect now c).imp_right .inl
  | disconnectCall =>
    obtain rfl := Option.some.inj hc
    exact (watch_disconnect now c).imp_right .inr
  | rotateConnect => exact nomatch hc
  | submitHashrate jReq => exact .inl (watch_submitHashrate lib hc)
  | submitSolution id jReq =>
    obtain rfl := Option.some.inj hc
    exact .inl (watch_submitSolution lib now id jReq)
  | resolved result =>
    obtain ⟨n, -, hc⟩ := oneOf_eq_some.mp hc
    obtain rfl := Option.some.inj hc
    exact (watch_resolveHandler now _ result).imp_right .inr
  | connectCompleted failed handshakeFailed =>
    obtain ⟨n, -, hc⟩ := oneOf_eq_some.mp hc
    have hwatch := watch_connectHandler lib now hc
    exact .inl hwatch
  | received result | lateReceived result =>
    obtain ⟨n, -, hc⟩ := oneOf_eq_some.mp hc
    have hwatch := watch_onRecv lib h now hc
    exact .inl hwatch
  | sent result | lateSent result =>
    obtain ⟨bytes, rest, -, hc⟩ := oldestOf_eq_some.mp hc
    obtain rfl := Option.some.inj hc
    exact .inl (watch_onSent now bytes result)
  | shutdownCompleted =>
    obtain ⟨n, -, hc⟩ := oneOf_eq_some.mp hc
    obtain rfl := Option.some.inj hc
    exact .inl rfl
  | startConnect =>
    obtain ⟨n, -, hc⟩ := oneOf_eq_some.mp hc
    obtain rfl := Option.some.inj hc
    exact (watch_startConnect now _).imp_right .inr
  | finalize =>
    obtain ⟨n, -, hc⟩ := oneOf_eq_some.mp hc
    obtain rfl := Option.some.inj hc
    exact (watch_disconnectFinalize now _).imp_right .inr
  | disconnect =>
    obtain ⟨n, -, hc⟩ := oneOf_eq_some.mp hc
    obtain rfl := Option.some.inj hc
    exact (watch_disconnect now _).imp_right .inr
  | fakeReply =>
    obtain ⟨n, -, hc⟩ := oneOf_eq_some.mp hc
    have hwatch := watch_onFakeReply lib h now hc
    exact .inl hwatch

/-- A tick comes when the wait is over. -/
theorem handle_tick (hc : handle lib h cfg now c .tick = some c') :
    c.timer.isSome = true ∧ c.workloopTimerElapsed lib cfg now = some c' := by
  unfold handle at hc
  dsimp only at hc
  split at hc
  · exact nomatch hc
  · next expiry htimer =>
      split_ifs at hc
      rw [htimer]
      exact ⟨rfl, hc⟩

/-- What one event does to the timer. -/
theorem watch_step {e : TimePoint × Event} (hc : step lib h cfg c e = some c') :
    (ClosesNow cfg c e ∧ c.timer.isSome = true ∧ c'.watch = (none, c.stage)) ∨
      (¬ ClosesNow cfg c e ∧
        (c'.watch = c.watch ∨ c'.watch = (some (e.1 + workloopInterval), .engaged) ∨
          c'.watch = (none, .released) ∨ c'.watch = (none, .created) ∨
          (c.timer.isSome = true ∧ c'.watch = (some (e.1 + workloopInterval), c.stage)))) := by
  obtain ⟨now, e⟩ := e
  rcases step_cases hc with ⟨-, rfl, -, rfl⟩ | ⟨-, hc⟩
  · exact .inr ⟨id, .inr (.inr (.inr (.inl rfl)))⟩
  · cases e with
    | tick =>
      obtain ⟨htimer, hc⟩ := handle_tick lib h cfg now hc
      rcases workloopTimerElapsed_cases lib cfg now hc with
        ⟨hcloses, hwatch, -⟩ | ⟨hcloses, hwatch, -⟩
      · exact .inl ⟨hcloses, htimer, hwatch⟩
      · exact .inr ⟨hcloses, .inr (.inr (.inr (.inr ⟨htimer, hwatch⟩)))⟩
    | _ =>
      refine .inr ⟨id, ?_⟩
      have hwatch := watch_handle lib h cfg now hc nofun
      exact hwatch.imp_right (Or.imp_right .inl)

theorem onlyWatched_step (c : StratumClient μ) (e : TimePoint × Event) (c' : StratumClient μ)
    (honly : OnlyWatched c) (hc : step lib h cfg c e = some c') : OnlyWatched c' := by
  intro htimer
  rcases watch_step lib h cfg hc with ⟨-, -, hwatch⟩ | ⟨-, hwatch | hwatch | hwatch | hwatch |
    ⟨hsome, hwatch⟩⟩
  all_goals
    obtain ⟨htimer', hstage⟩ := Prod.mk.inj hwatch
    rw [htimer'] at htimer
    rw [hstage]
  · exact nomatch htimer
  · exact honly htimer
  · exact nomatch htimer
  · exact nomatch htimer
  · exact honly hsome

/-- **One event keeps the watch exactly when it is no tick that closes a socket.** -/
theorem watched_step_iff (c : StratumClient μ) (e : TimePoint × Event) (c' : StratumClient μ)
    (honly : OnlyWatched c) (hwatched : Watched c) (hc : step lib h cfg c e = some c') :
    Watched c' ↔ ¬ ClosesNow cfg c e := by
  rcases watch_step lib h cfg hc with ⟨hcloses, hsome, hwatch⟩ | ⟨hcloses, hwatch⟩
  · obtain ⟨htimer, hstage⟩ := Prod.mk.inj hwatch
    refine iff_of_false (fun hwatched' => ?_) (not_not.mpr hcloses)
    have htimer' := hwatched' (hstage.trans (honly hsome))
    rw [htimer] at htimer'
    exact nomatch htimer'
  · refine iff_of_true (fun hengaged => ?_) hcloses
    rcases hwatch with hwatch | hwatch | hwatch | hwatch | ⟨-, hwatch⟩
    all_goals
      obtain ⟨htimer, hstage⟩ := Prod.mk.inj hwatch
      rw [htimer]
      rw [hstage] at hengaged
    · exact hwatched hengaged
    · rfl
    · exact nomatch hengaged
    · exact nomatch hengaged
    · rfl

/-- **When the watchdog stays armed.**  Along a run of a new client and its successors, a wait
is always pending between `connect` and the call of `m_onDisconnected`, exactly when no tick
of the run finds a plea that is not older than the response timeout while a connection is
being made, or while a TLS connection is being shut down and its socket is open. -/
theorem watched_iff (conn : Uri) (owner : μ) (start : TimePoint)
    (es : List (TimePoint × Event)) :
    Along (step lib h cfg) Watched (create conn owner start) es ↔
      StepsMeet (step lib h cfg) (fun c e => ¬ ClosesNow cfg c e) (create conn owner start) es :=
  along_iff_stepsMeet (onlyWatched_step lib h cfg) (watched_step_iff lib h cfg) es _ nofun nofun

end Runs

/-- A connection to a pool with two addresses.  The first attempt is still under way at the
first tick.  The second one succeeds, and nobody watches over it. -/
theorem unwatched_second_attempt :
    let conn : Uri := { version := 0, hostNameType := .dns }
    let cfg : Settings := { worktimeout := 180, responsetimeout := 2 }
    let es : List (TimePoint × Event) :=
      [(0, .connect), (0, .resolved (some [⟨"a".toList, 1⟩, ⟨"b".toList, 1⟩])), (0, .startConnect),
        (1000000000, .tick), (1000000000, .connectCompleted true false),
        (1000000000, .startConnect), (1100000000, .connectCompleted false false)]
    ¬ Along (step default {} cfg) Watched (create conn () 0) es ∧
      (run (step default {} cfg) (create conn () 0) es).map
          (fun c => (c.isConnected, c.timer, c.stage)) =
        some (true, none, .engaged) := by
  decide +kernel

/-! ## Connection attempts that time out -/

/-- A connection attempt is in progress, or a TLS shutdown, and a plea is counted. -/
def Attempting (c : StratumClient μ) : Prop :=
  c.exchange.pleas.responsePleasCount ≠ 0 ∧ c.socket = some true ∧
    (c.connecting = true ∨ c.disconnecting = true ∧ c.isSecure = true)

/-- The plea that was enqueued at its start is as old as the response timeout. -/
def Overdue (cfg : Settings) (now : TimePoint) (c : StratumClient μ) : Prop :=
  cfg.responsetimeout.toInt * 1000000000 ≤ now - c.pleaTime

/-- A tick that closes an open socket finds the plea overdue. -/
def Timely (lib : Library) (h : Handlers μ) (cfg : Settings) (c : StratumClient μ)
    (e : TimePoint × Event) : Prop :=
  e.2 = .tick → c.socket = some true →
    (∃ c', step lib h cfg c e = some c' ∧ c'.socket = some false) → Overdue cfg e.1 c

/-- A tick that finds an attempt in progress finds its plea overdue, or the oldest plea
beyond the timeout. -/
def LateTick (cfg : Settings) (c : StratumClient μ) (e : TimePoint × Event) : Prop :=
  e.2 = .tick → Attempting c → Overdue cfg e.1 c ∨
    cfg.responseMilliseconds < toMilliseconds (e.1 - c.exchange.pleas.responsePleaOlder)

section Timeouts

variable (lib : Library) (h : Handlers μ) (cfg : Settings) {c c' : StratumClient μ}

theorem timely_step_iff {e : TimePoint × Event} (hc : step lib h cfg c e = some c') :
    Timely lib h cfg c e ↔ LateTick cfg c e := by
  obtain ⟨now, e⟩ := e
  refine forall_congr' fun htick => ?_
  obtain rfl : e = .tick := htick
  rcases step_cases hc with ⟨-, htick, -⟩ | ⟨-, hhandle⟩
  · exact nomatch htick
  · obtain ⟨-, hrun⟩ := handle_tick lib h cfg now hhandle
    constructor
    · rintro htimely ⟨hcount, hopen, hattempt⟩
      by_cases hdelay : toMilliseconds (now - c.exchange.pleas.responsePleaOlder) ≤
          cfg.responseMilliseconds
      · have hcloses : Closes cfg now c :=
          ⟨hcount, hdelay, hattempt.imp_right fun hsecure => ⟨hsecure.1, hsecure.2, hopen⟩⟩
        rcases workloopTimerElapsed_cases lib cfg now hrun with
          ⟨-, -, hsocket⟩ | ⟨hopen', -, -⟩
        · exact .inl (htimely hopen ⟨c', hc, hsocket⟩)
        · exact absurd hcloses hopen'
      · exact .inr (not_le.mp hdelay)
    · rintro hlate hopen ⟨d, hd, hsocket⟩
      obtain rfl := Option.some.inj (hc.symm.trans hd)
      rcases workloopTimerElapsed_cases lib cfg now hrun with
        ⟨⟨hcount, hdelay, hattempt⟩, -, -⟩ | ⟨-, -, hsame⟩
      · have hattempting : Attempting c :=
          ⟨hcount, hopen, hattempt.imp_right fun hsecure => ⟨hsecure.1, hsecure.2.1⟩⟩
        exact (hlate hattempting).resolve_right (not_lt.mpr hdelay)
      · exact nomatch (hsame.symm.trans hsocket).symm.trans hopen

/-- **When no connection attempt is closed before its time.**  In a run of a new client and its
successors, every socket that a tick closes has kept its plea waiting for the response
timeout, exactly when every tick that finds a connection attempt or a TLS shutdown in
progress comes that late, or finds an older plea beyond the timeout. -/
theorem timely_iff (conn : Uri) (owner : μ) (start : TimePoint)
    (es : List (TimePoint × Event)) :
    StepsMeet (step lib h cfg) (Timely lib h cfg) (create conn owner start) es ↔
      StepsMeet (step lib h cfg) (LateTick cfg) (create conn owner start) es :=
  stepsMeet_congr (fun _ _ _ hc => timely_step_iff lib h cfg hc) es _

end Timeouts

/-- The first tick closes the socket of an attempt that is one second old.  The timeout is two
seconds. -/
theorem closed_after_one_second :
    let conn : Uri := { version := 0, hostNameType := .ipv4 }
    let cfg : Settings := { worktimeout := 180, responsetimeout := 2 }
    let es : List (TimePoint × Event) := [(0, .connect), (0, .startConnect)]
    ∃ c, run (step default {} cfg) (create conn () 0) es = some c ∧
      ¬ Timely default {} cfg c (1000000000, .tick) := by
  intro conn cfg es
  have hbefore : (run (step default {} cfg) (create conn () 0) es).map
      (fun c => (c.socket, c.pleaTime)) = some (some true, 0) := by
    decide +kernel
  have hafter : (run (step default {} cfg) (create conn () 0) es).bind
      (fun c => (step default {} cfg c (1000000000, .tick)).map (·.socket)) =
        some (some false) := by
    decide +kernel
  obtain ⟨c, hc, hpair⟩ := Option.map_eq_some_iff.mp hbefore
  obtain ⟨hopen, hplea⟩ := Prod.mk.inj hpair
  rw [hc, Option.bind_some] at hafter
  obtain ⟨c', hc', hsocket⟩ := Option.map_eq_some_iff.mp hafter
  refine ⟨c, hc, fun htimely => ?_⟩
  have hoverdue := htimely rfl hopen ⟨c', hc', hsocket⟩
  rw [Overdue, hplea] at hoverdue
  exact absurd hoverdue (by decide)

end StratumClient
end Stratum
end FpgaEthash
