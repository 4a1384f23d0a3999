import FpgaEthash.Getwork.Client

/-!
# Does the client go on polling?

While the client is connected, something must be outstanding that leads to the next
request for work: a socket operation, or a wait on `m_getwork_timer` (`Polls`).

Two facts carry the argument.  The client does one thing at a time (`Tidy`): the flag
`m_txPending` guards the socket, so when an operation completes there is no other.  And
only a response arms the timer.  So polling goes on after a read if the response has
armed it, or if other requests are queued; it also ends after a connection for which the
queue has nothing left, because the request was taken out before it could be written.
`Dies` lists what may happen, and `polling_iff` says that the list is complete.
-/

namespace FpgaEthash
namespace Getwork

open Devcore Ethcore Jsoncpp Pool Throwing Runs
open Stratum (Abort Handlers Library TimePoint Endpoint Stage toSeconds oneOf oneOf_eq_some)

variable {μ : Type}

namespace GetworkClient

/-! ## One operation at a time -/

/-- Between `connect` and `m_onDisconnected` at most one operation is outstanding, `m_txPending`
is set if one is, and a socket that is being connected is open. -/
structure Engaged (c : GetworkClient μ) : Prop where
  stage : c.stage = .engaged
  single : c.operations ≤ c.txPending.toNat
  socket : c.connects ≠ 0 → c.socketOpen = true
  begun : c.connecting = true ∨ c.connected = true

/-- The client is as it was created, or does one thing at a time, or has been released. -/
inductive Tidy (c : GetworkClient μ) : Prop
  | created (hstage : c.stage = .created) (hoperations : c.operations = 0)
      (hresolves : c.resolves = 0) (htimer : c.timer = none) (hsession : c.session = false)
      (htxPending : c.txPending = false)
  | engaged (hengaged : Engaged c)
  | released (hstage : c.stage = .released)

/-- An operation has just completed. -/
structure Completed (c : GetworkClient μ) : Prop where
  stage : c.stage = .engaged
  operations : c.operations = 0
  txPending : c.txPending = true
  begun : c.connecting = true ∨ c.connected = true

section Tidiness

variable (lib : Library) (h : Handlers μ) (cfg : Settings) (now : TimePoint)
  {c c' : GetworkClient μ}

theorem Tidy.engaged_of_operations (htidy : Tidy c) (hstage : c.stage ≠ .released)
    (hoperations : c.operations ≠ 0) : Engaged c := by
  cases htidy with
  | created _ hzero => exact absurd hzero hoperations
  | engaged hengaged => exact hengaged
  | released hreleased => exact absurd hreleased hstage

theorem tidy_beginConnect (hdone : Completed c) : Tidy c.beginConnect := by
  unfold beginConnect
  split
  · exact .released rfl
  · refine .engaged ⟨hdone.stage, ?_, fun _ => rfl, hdone.begun⟩
    have hzero : c.connects + c.writes + c.reads = 0 := hdone.operations
    show c.connects + 1 + c.writes + c.reads ≤ c.txPending.toNat
    rw [hdone.txPending, Bool.toNat_true]
    omega

theorem tidy_discardEndpoint (hdone : Completed c) (hc : c.discardEndpoint = some c') :
    Tidy c' := by
  unfold discardEndpoint at hc
  split at hc
  · exact nomatch hc
  · obtain rfl := Option.some.inj hc
    exact tidy_beginConnect ⟨hdone.stage, hdone.operations, hdone.txPending, hdone.begun⟩

/-- The flag is taken before the client connects. -/
theorem tidy_send (line : StdString) (hengaged : Engaged c) : Tidy (c.send line) := by
  unfold send
  dsimp only
  split_ifs with htx
  · exact .engaged ⟨hengaged.stage, hengaged.single, hengaged.socket, hengaged.begun⟩
  · have hle := hengaged.single
    rw [Bool.eq_false_iff.mpr htx] at hle
    exact tidy_beginConnect ⟨hengaged.stage, Nat.le_zero.mp hle, rfl, hengaged.begun⟩

/-- Nothing follows the operation. -/
theorem tidy_idle (hdone : Completed c) (hstage : c'.stage = c.stage)
    (hoperations : c'.operations = c.operations)
    (hbegun : c'.connecting = true ∨ c'.connected = true) : Tidy c' := by
  have hzero : c'.connects + c'.writes + c'.reads = 0 := hoperations.trans hdone.operations
  refine .engaged ⟨hstage.trans hdone.stage, ?_, fun hne => ?_, hbegun⟩
  · rw [hoperations, hdone.operations]
    exact Nat.zero_le _
  · omega

theorem tidy_connect (htidy : Tidy c) (hstage : c.stage ≠ .released) : Tidy (c.connect lib) := by
  unfold connect
  split_ifs with hconnecting
  · exact htidy
  · have hengaged : ∀ d : GetworkClient μ, d.stage = .engaged → d.operations = c.operations →
        d.connects = c.connects → d.txPending = c.txPending → d.socketOpen = c.socketOpen →
        d.connecting = true → Engaged d := by
      intro d hengaged hoperations hconnects htx hsocket hbegun
      cases htidy with
      | created _ hzero _ _ _ _ =>
        refine ⟨hengaged, ?_, fun hne => absurd ?_ hne, .inl hbegun⟩
        · rw [hoperations, hzero]
          exact Nat.zero_le _
        · have hzero' : c.connects + c.writes + c.reads = 0 := hzero
          omega
      | engaged hc =>
        exact ⟨hengaged, by rw [hoperations, htx]; exact hc.single,
          by rw [hconnects, hsocket]; exact hc.socket, .inl hbegun⟩
      | released hreleased => exact absurd hreleased hstage
    dsimp only
    split_ifs
    · exact .engaged (hengaged _ rfl rfl rfl rfl rfl rfl)
    · exact tidy_send _ (hengaged _ rfl rfl rfl rfl rfl rfl)

/-- The session has started. -/
theorem completed_beginSession (hdone : Completed c) (hc : c.beginSession h now = some c') :
    Completed c' ∧ c'.connected = true ∧ c'.txQueue = c.txQueue ∧ c'.timer = c.timer := by
  unfold beginSession at hc
  split_ifs at hc with hconnecting
  · split at hc
    · exact nomatch hc
    · obtain rfl := Option.some.inj hc
      exact ⟨⟨hdone.stage, hdone.operations, hdone.txPending, .inr rfl⟩, rfl, rfl, rfl⟩
  · obtain rfl := Option.some.inj hc
    exact ⟨hdone, hdone.begun.resolve_left hconnecting, rfl, rfl⟩

theorem tidy_submitNext (hdone : Completed c) (hc : c.submitNext lib now = some c') : Tidy c' := by
  unfold submitNext at hc
  split_ifs at hc with hempty
  · obtain rfl := Option.some.inj hc
    exact tidy_idle hdone rfl rfl hdone.begun
  · split at hc
    · obtain rfl := Option.some.inj hc
      exact tidy_idle hdone rfl rfl hdone.begun
    · split at hc
      · exact nomatch hc
      · obtain rfl := Option.some.inj hc
        have hzero : c.connects + c.writes + c.reads = 0 := hdone.operations
        refine .engaged ⟨hdone.stage, ?_, fun hne => absurd ?_ hne, hdone.begun⟩
        · show c.connects + (c.writes + 1) + c.reads ≤ c.txPending.toNat
          rw [hdone.txPending, Bool.toNat_true]
          omega
        · show c.connects = 0
          omega

theorem tidy_handleConnect {outcome : Outcome} (hdone : Completed c)
    (hc : c.handleConnect lib h now outcome = some c') : Tidy c' := by
  unfold handleConnect at hc
  split_ifs at hc with hok haborted
  · obtain ⟨d, hd, hc⟩ := Option.bind_eq_some_iff.mp hc
    exact tidy_submitNext lib now (completed_beginSession h now hdone hd).1 hc
  · obtain rfl := Option.some.inj hc
    exact tidy_idle hdone rfl rfl hdone.begun
  · exact tidy_discardEndpoint hdone hc

theorem tidy_handleWrite {outcome : Outcome} {written : ℕ} (hdone : Completed c)
    (hc : c.handleWrite outcome written = some c') : Tidy c' := by
  cases outcome with
  | ok =>
    obtain rfl := Option.some.inj hc
    have hzero : c.connects + c.writes + c.reads = 0 := hdone.operations
    refine .engaged ⟨hdone.stage, ?_, fun hne => absurd ?_ hne, hdone.begun⟩
    · show c.connects + c.writes + (c.reads + 1) ≤ c.txPending.toNat
      rw [hdone.txPending, Bool.toNat_true]
      omega
    · show c.connects = 0
      omega
  | aborted =>
    obtain rfl := Option.some.inj hc
    exact tidy_idle hdone rfl rfl hdone.begun
  | failed =>
    exact tidy_discardEndpoint (c := { c with request := c.request.drop written })
      ⟨hdone.stage, hdone.operations, hdone.txPending, hdone.begun⟩ hc

theorem tidy_handleRead {outcome : Outcome} {data : StdString} (hdone : Completed c)
    (hc : c.handleRead lib h cfg now outcome data = some c') : Tidy c' := by
  unfold handleRead at hc
  dsimp only at hc
  cases outcome with
  | ok =>
    dsimp only at hc
    split_ifs at hc
    · split at hc
      · exact nomatch hc
      · obtain rfl := Option.some.inj hc
        unfold continueQueue
        split_ifs
        · exact tidy_idle hdone rfl rfl hdone.begun
        · exact tidy_beginConnect
            ⟨hdone.stage, hdone.operations, hdone.txPending, hdone.begun⟩
    · obtain rfl := Option.some.inj hc
      exact .released rfl
  | aborted =>
    obtain rfl := Option.some.inj hc
    exact tidy_idle hdone rfl rfl hdone.begun
  | failed =>
    obtain rfl := Option.some.inj hc
    exact .released rfl

/-- When an operation completes there is no other. -/
theorem Tidy.completed (htidy : Tidy c) (hreleased : c.stage ≠ .released)
    {d : GetworkClient μ} (hoperations : c.operations = d.operations + 1)
    (hstage : d.stage = c.stage) (htxPending : d.txPending = c.txPending)
    (hconnecting : d.connecting = c.connecting) (hconnected : d.connected = c.connected) :
    Completed d := by
  have hengaged := htidy.engaged_of_operations hreleased (hoperations ▸ Nat.succ_ne_zero _)
  have hle := hengaged.single
  rw [hoperations] at hle
  cases htx : c.txPending with
  | false =>
    rw [htx] at hle
    exact absurd hle (Nat.not_succ_le_zero _)
  | true =>
    rw [htx] at hle
    refine ⟨hstage.trans hengaged.stage, Nat.le_zero.mp (Nat.le_of_succ_le_succ hle),
      htxPending.trans htx, ?_⟩
    rw [hconnecting, hconnected]
    exact hengaged.begun

/-- The handlers of the socket run when nothing else is outstanding. -/
theorem Tidy.completed_connect {n : ℕ} (htidy : Tidy c) (hstage : c.stage ≠ .released)
    (hn : c.connects = n + 1) : Completed { c with connects := n } := by
  have hoperations : c.operations = n + c.writes + c.reads + 1 := by
    rw [operations, hn]
    omega
  exact htidy.completed hstage hoperations rfl rfl rfl rfl

theorem Tidy.completed_write {n : ℕ} (htidy : Tidy c) (hstage : c.stage ≠ .released)
    (hn : c.writes = n + 1) : Completed { c with writes := n } := by
  have hoperations : c.operations = c.connects + n + c.reads + 1 := by
    rw [operations, hn]
    omega
  exact htidy.completed hstage hoperations rfl rfl rfl rfl

theorem Tidy.completed_read {n : ℕ} (htidy : Tidy c) (hstage : c.stage ≠ .released)
    (hn : c.reads = n + 1) : Completed { c with reads := n } := by
  have hoperations : c.operations = c.connects + c.writes + n + 1 := by
    rw [operations, hn]
    omega
  exact htidy.completed hstage hoperations rfl rfl rfl rfl

/-- A client that is not engaged has nothing to send. -/
theorem Tidy.engaged_or (htidy : Tidy c) (hstage : c.stage ≠ .released) :
    Engaged c ∨ (c.session = false ∧ c.timer = none ∧ c.resolves = 0) := by
  cases htidy with
  | created _ _ hresolves htimer hsession _ => exact .inr ⟨hsession, htimer, hresolves⟩
  | engaged hengaged => exact .inl hengaged
  | released hreleased => exact absurd hreleased hstage

/-- **One event** keeps the client tidy. -/
theorem tidy_handle {e : Event} (htidy : Tidy c) (hstage : c.stage ≠ .released)
    (hc : handle lib h cfg now c e = some c') : Tidy c' := by
  have hengaged := htidy.engaged_or hstage
  cases e with
  | connect =>
    obtain rfl := Option.some.inj hc
    exact tidy_connect lib htidy hstage
  | disconnectCall =>
    obtain rfl := Option.some.inj hc
    exact .released rfl
  | rotateConnect maxId => exact nomatch hc
  | submitHashrate rate id =>
    obtain rfl := Option.some.inj hc
    unfold submitHashrate
    split_ifs with hsession
    · rcases hengaged with hengaged | ⟨hnone, -, -⟩
      · exact tidy_send _ hengaged
      · exact nomatch hnone.symm.trans hsession
    · exact htidy
  | submitSolution solution =>
    obtain rfl := Option.some.inj hc
    unfold submitSolution
    split_ifs with hsession
    · rcases hengaged with hengaged | ⟨hnone, -, -⟩
      · exact tidy_send _ ⟨hengaged.stage, hengaged.single, hengaged.socket, hengaged.begun⟩
      · exact nomatch hnone.symm.trans hsession
    · exact htidy
  | tick =>
    obtain ⟨htimer, hc⟩ := onTick_eq_some lib cfg hc
    rcases hengaged with hengaged | ⟨-, hnone, -⟩
    · unfold getworkTimerElapsed at hc
      split_ifs at hc with hstale
      · split at hc
        · exact nomatch hc
        · obtain rfl := Option.some.inj hc
          exact .released rfl
      · obtain rfl := Option.some.inj hc
        exact tidy_send _ ⟨hengaged.stage, hengaged.single, hengaged.socket, hengaged.begun⟩
    · rw [hnone] at htimer
      exact nomatch htimer
  | resolved result =>
    obtain ⟨n, hn, hc⟩ := oneOf_eq_some.mp hc
    obtain rfl := Option.some.inj hc
    rcases hengaged with hengaged | ⟨-, -, hnone⟩
    · cases result with
      | some endpoints =>
        exact tidy_send _ ⟨hengaged.stage, hengaged.single, hengaged.socket, hengaged.begun⟩
      | none => exact .released rfl
    · exact nomatch hnone.symm.trans hn
  | connectCompleted outcome =>
    obtain ⟨n, hn, hc⟩ := oneOf_eq_some.mp hc
    exact tidy_handleConnect lib h now (htidy.completed_connect hstage hn) hc
  | writeCompleted outcome written =>
    obtain ⟨n, hn, hc⟩ := oneOf_eq_some.mp hc
    exact tidy_handleWrite (htidy.completed_write hstage hn) hc
  | readCompleted outcome data =>
    obtain ⟨n, hn, hc⟩ := oneOf_eq_some.mp hc
    exact tidy_handleRead lib h cfg now (htidy.completed_read hstage hn) hc

theorem tidy_create (conn : Uri) (maxId : BitVec 32) (owner : μ) :
    Tidy (create conn maxId owner now) :=
  .created rfl rfl rfl rfl rfl rfl

theorem Tidy.withClock (htidy : Tidy c) : Tidy { c with clock := now } := by
  cases htidy with
  | created hstage hoperations hresolves htimer hsession htxPending =>
    exact .created hstage hoperations hresolves htimer hsession htxPending
  | engaged hengaged =>
    exact .engaged ⟨hengaged.stage, hengaged.single, hengaged.socket, hengaged.begun⟩
  | released hstage => exact .released hstage

/-- **The client does one thing at a time**, in every state of a run. -/
theorem tidy_step {e : TimePoint × Event} (htidy : Tidy c) (hc : step lib h cfg c e = some c') :
    Tidy c' := by
  obtain ⟨now, e⟩ := e
  rcases step_cases hc with ⟨maxId, -, -, rfl⟩ | ⟨hstage, hc⟩
  · exact tidy_create now c.conn maxId c.owner
  · exact tidy_handle lib h cfg now (htidy.withClock now) hstage hc

end Tidiness

/-! ## What leads to the next request -/

/-- While the client is connected, a socket operation is outstanding, or the timer is armed. -/
def Polls (c : GetworkClient μ) : Prop :=
  c.connected = true → c.operations ≠ 0 ∨ c.timer.isSome = true

instance (c : GetworkClient μ) : Decidable (Polls c) := inferInstanceAs (Decidable (_ → _ ∨ _))

/-- Polling ends with the event:

* `connect` is called again, with nothing outstanding, and waits for the name of the host or
  for a flag that nobody resets;
* the client has connected, and the queue has nothing to write;
* an operation was aborted;
* a response was read that does not arm the timer;
* the timer elapses while `m_txPending` is set and nothing is outstanding.

In the last four the timer is not armed, and in the case of a response the queue is empty. -/
def Dies (lib : Library) (cfg : Settings) (c : GetworkClient μ) (e : TimePoint × Event) : Prop :=
  match e.2 with
  | .connect => c.connected = true ∧ c.connecting = false ∧ c.operations = 0 ∧
      (c.isNamed = true ∨ c.txPending = true)
  | .tick => c.connected = true ∧ c.operations = 0 ∧ c.txPending = true ∧
      c.isStale cfg e.1 = false
  | .connectCompleted .ok => c.timer = none ∧ ∀ line ∈ c.txQueue, line = []
  | .connectCompleted .aborted => c.connected = true ∧ c.timer = none
  | .writeCompleted .aborted _ => c.connected = true ∧ c.timer = none
  | .readCompleted .aborted _ => c.connected = true ∧ c.timer = none
  | .readCompleted .ok data => c.connected = true ∧ c.timer = none ∧ c.txQueue = [] ∧
      isAnswer ((c.response ++ data).take data.length) = true ∧
      ∀ text ∈ bodyTexts true (cutLines [] ((c.response ++ data).take data.length)),
        arms lib c.pendingJReq text = false
  | _ => False

section Polling

variable (lib : Library) (h : Handlers μ) (cfg : Settings) (now : TimePoint)
  {c c' : GetworkClient μ}

theorem polls_of_not_connected (hconnected : c.connected = false) : Polls c :=
  fun h => nomatch hconnected.symm.trans h

theorem polls_disconnect (c : GetworkClient μ) : Polls c.disconnect := polls_of_not_connected rfl

theorem polls_of_operations (hoperations : c.operations ≠ 0) : Polls c := fun _ => .inl hoperations

theorem polls_beginConnect (c : GetworkClient μ) : Polls c.beginConnect := by
  unfold beginConnect
  split
  · exact polls_disconnect c
  · refine polls_of_operations ?_
    show c.connects + 1 + c.writes + c.reads ≠ 0
    omega

theorem polls_discardEndpoint (hc : c.discardEndpoint = some c') : Polls c' := by
  unfold discardEndpoint at hc
  split at hc
  · exact nomatch hc
  · exact Option.some.inj hc ▸ polls_beginConnect _

/-- A request leads to a connection, unless one is said to be under way. -/
theorem polls_send_iff (line : StdString) :
    Polls (c.send line) ↔ (c.txPending = true → Polls c) := by
  unfold send
  dsimp only
  split_ifs with htx
  · exact ⟨fun h _ => h, fun h => h htx⟩
  · exact ⟨fun _ h => absurd h htx, fun _ => polls_beginConnect _⟩

/-- With nothing outstanding, it is for the timer. -/
theorem polls_idle_iff (hoperations : c.operations = 0) :
    Polls c ↔ ¬ (c.connected = true ∧ c.timer = none) := by
  unfold Polls
  rw [not_and, ← ne_eq, ← Option.isSome_iff_ne_none]
  exact forall_congr' fun _ => ⟨fun h => h.resolve_left (absurd hoperations), .inr⟩

/-- Without the timer, it is for the socket. -/
theorem polls_cancelled_iff (htimer : c.timer = none) :
    Polls c ↔ ¬ (c.connected = true ∧ c.operations = 0) := by
  unfold Polls
  rw [htimer, not_and]
  exact forall_congr' fun _ => ⟨fun h => h.resolve_right Bool.false_ne_true, .inl⟩

theorem polls_connect_iff (hpolls : Polls c) :
    Polls (c.connect lib) ↔ ¬ (c.connected = true ∧ c.connecting = false ∧ c.operations = 0 ∧
      (c.isNamed = true ∨ c.txPending = true)) := by
  unfold connect
  split_ifs with hconnecting
  · exact ⟨fun _ hdies => (nomatch hdies.2.1.symm.trans hconnecting), fun _ => hpolls⟩
  · have hconnecting' : c.connecting = false := Bool.eq_false_iff.mpr hconnecting
    dsimp only
    split_ifs with hnamed
    · refine (polls_cancelled_iff (by rfl)).trans (not_congr ?_)
      exact ⟨fun h => ⟨h.1, hconnecting', h.2, .inl hnamed⟩, fun h => ⟨h.1, h.2.2.1⟩⟩
    · refine (polls_send_iff _).trans ⟨fun h hdies => ?_, fun h htx => ?_⟩
      · have hpending := hdies.2.2.2.resolve_left hnamed
        exact (polls_cancelled_iff (by rfl)).mp (h hpending) ⟨hdies.1, hdies.2.2.1⟩
      · refine (polls_cancelled_iff (by rfl)).mpr fun hnothing => ?_
        exact h ⟨hnothing.1, hconnecting', hnothing.2, .inr htx⟩

theorem polls_tick_iff (hc : c.getworkTimerElapsed lib cfg now = some c') :
    Polls c' ↔ ¬ (c.connected = true ∧ c.operations = 0 ∧ c.txPending = true ∧
      c.isStale cfg now = false) := by
  unfold getworkTimerElapsed at hc
  split_ifs at hc with hstale
  · split at hc
    · exact nomatch hc
    · obtain rfl := Option.some.inj hc
      exact ⟨fun _ hdies => (nomatch hdies.2.2.2.symm.trans hstale), fun _ => polls_disconnect _⟩
  · obtain rfl := Option.some.inj hc
    have hstale' : c.isStale cfg now = false := Bool.eq_false_iff.mpr hstale
    refine (polls_send_iff _).trans ⟨fun h hdies => ?_, fun h htx => ?_⟩
    · exact (polls_cancelled_iff (by rfl)).mp (h hdies.2.2.1) ⟨hdies.1, hdies.2.1⟩
    · refine (polls_cancelled_iff (by rfl)).mpr fun hnothing => ?_
      exact h ⟨hnothing.1, hnothing.2, htx, hstale'⟩

theorem popLine_eq_none_iff (queue : List StdString) :
    popLine queue = none ↔ ∀ line ∈ queue, line = [] := by
  induction queue with
  | nil => exact ⟨fun _ => nofun, fun _ => rfl⟩
  | cons line queue ih =>
    rw [List.forall_mem_cons, ← ih]
    cases line with
    | nil => exact ⟨fun h => ⟨rfl, h⟩, fun h => h.2⟩
    | cons x xs => exact ⟨nofun, fun h => nomatch h.1⟩

theorem polls_submitNext_iff (hdone : Completed c) (hconnected : c.connected = true)
    (hc : c.submitNext lib now = some c') :
    Polls c' ↔ ¬ (c.timer = none ∧ ∀ line ∈ c.txQueue, line = []) := by
  -- nothing is written
  have hidle : ∀ d : GetworkClient μ, d.operations = c.operations → d.connected = c.connected →
      d.timer = c.timer → popLine c.txQueue = none →
      (Polls d ↔ ¬ (c.timer = none ∧ ∀ line ∈ c.txQueue, line = [])) := by
    intro d hoperations hconnected' htimer hpop
    rw [polls_idle_iff (hoperations.trans hdone.operations), hconnected', htimer]
    have hlines := (popLine_eq_none_iff c.txQueue).mp hpop
    exact not_congr ⟨fun h => ⟨h.2, hlines⟩, fun h => ⟨hconnected, h.1⟩⟩
  unfold submitNext at hc
  split_ifs at hc with hempty
  · obtain rfl := Option.some.inj hc
    refine hidle _ rfl rfl rfl ?_
    rw [List.isEmpty_iff.mp hempty]
    rfl
  · split at hc
    · next hpop =>
        obtain rfl := Option.some.inj hc
        exact hidle _ rfl rfl rfl hpop
    · next line txQueue hpop =>
        split at hc
        · exact nomatch hc
        · obtain rfl := Option.some.inj hc
          refine ⟨fun _ hdies => ?_, fun _ => polls_of_operations ?_⟩
          · exact nomatch hpop.symm.trans ((popLine_eq_none_iff c.txQueue).mpr hdies.2)
          · show c.connects + (c.writes + 1) + c.reads ≠ 0
            omega

/-- **After a connection attempt** polling goes on if there is something to write. -/
theorem polls_handleConnect_iff {outcome : Outcome} (hdone : Completed c)
    (hopen : c.socketOpen = true) (hc : c.handleConnect lib h now outcome = some c') :
    Polls c' ↔ ¬ ((outcome = .ok ∧ c.timer = none ∧ ∀ line ∈ c.txQueue, line = []) ∨
      (outcome = .aborted ∧ c.connected = true ∧ c.timer = none)) := by
  unfold handleConnect at hc
  cases outcome with
  | ok =>
    rw [if_pos ⟨rfl, hopen⟩] at hc
    obtain ⟨d, hd, hc⟩ := Option.bind_eq_some_iff.mp hc
    obtain ⟨hdone', hconnected, hqueue, htimer⟩ := completed_beginSession h now hdone hd
    rw [polls_submitNext_iff lib now hdone' hconnected hc, hqueue, htimer]
    exact not_congr ⟨fun h => .inl ⟨rfl, h⟩, fun h => h.elim (·.2) (nomatch ·.1)⟩
  | aborted =>
    obtain rfl := Option.some.inj hc
    rw [polls_idle_iff hdone.operations]
    exact not_congr ⟨fun h => .inr ⟨rfl, h⟩, fun h => h.elim (nomatch ·.1) (·.2)⟩
  | failed =>
    refine ⟨fun _ => ?_, fun _ => polls_discardEndpoint hc⟩
    rintro (⟨hok, -⟩ | ⟨haborted, -⟩)
    · exact nomatch hok
    · exact nomatch haborted

theorem polls_handleWrite_iff {outcome : Outcome} {written : ℕ} (hdone : Completed c)
    (hc : c.handleWrite outcome written = some c') :
    Polls c' ↔ ¬ (outcome = .aborted ∧ c.connected = true ∧ c.timer = none) := by
  cases outcome with
  | ok =>
    obtain rfl := Option.some.inj hc
    refine ⟨fun _ h => (nomatch h.1), fun _ => polls_of_operations ?_⟩
    show c.connects + c.writes + (c.reads + 1) ≠ 0
    omega
  | aborted =>
    obtain rfl := Option.some.inj hc
    have hoperations : ({ c with request := c.request.drop written } :
        GetworkClient μ).operations = 0 := hdone.operations
    refine (polls_idle_iff hoperations).trans (not_congr ?_)
    exact ⟨fun h => ⟨rfl, h⟩, fun h => h.2⟩
  | failed =>
    exact ⟨fun _ h => (nomatch h.1), fun _ =>
      polls_discardEndpoint (c := { c with request := c.request.drop written }) hc⟩

/-- **After a response** polling goes on if it has armed the timer, or if requests are queued. -/
theorem polls_answer_iff {texts : List StdString} {t : Exchange μ} {u : Unit}
    (hdone : Completed c)
    (hs : texts.forM (processText lib h cfg now) c.toExchange = .ok u t) :
    Polls (({ c with toExchange := t } : GetworkClient μ).continueQueue) ↔
      ¬ (c.connected = true ∧ c.timer = none ∧ c.txQueue = [] ∧
        ∀ text ∈ texts, arms lib c.pendingJReq text = false) := by
  have hanswered := answered_forM hs
  unfold continueQueue
  split_ifs with hempty
  · have hqueue : c.txQueue = [] := List.isEmpty_iff.mp hempty
    have htimer : t.timer = none ↔
        c.timer = none ∧ ∀ text ∈ texts, arms lib c.pendingJReq text = false := by
      rw [← Option.isNone_iff_eq_none, ← Option.isNone_iff_eq_none, ← Option.not_isSome,
        ← Option.not_isSome, hanswered.timer, Bool.not_or, Bool.and_eq_true, Bool.not_eq_true',
        Bool.not_eq_true', List.any_eq_false]
      exact and_congr_right fun _ => forall₂_congr fun _ _ => by rw [Bool.not_eq_true]
    have hoperations : ({ c with toExchange := t, txPending := false } : GetworkClient μ).operations
        = 0 := hdone.operations
    refine (polls_idle_iff hoperations).trans (not_congr ?_)
    exact ⟨fun h => ⟨h.1, (htimer.mp h.2).1, hqueue, (htimer.mp h.2).2⟩,
      fun h => ⟨h.1, htimer.mpr ⟨h.2.1, h.2.2.2⟩⟩⟩
  · refine ⟨fun _ h => hempty ?_, fun _ => polls_beginConnect _⟩
    show c.txQueue.isEmpty = true
    rw [h.2.2.1]
    rfl

theorem polls_handleRead_iff {outcome : Outcome} {data : StdString} (hdone : Completed c)
    (hc : c.handleRead lib h cfg now outcome data = some c') :
    Polls c' ↔ ¬ Dies lib cfg c (now, .readCompleted outcome data) := by
  unfold handleRead at hc
  dsimp only at hc
  cases outcome with
  | ok =>
    dsimp only at hc
    split_ifs at hc with hanswer
    · split at hc
      · exact nomatch hc
      · next u t hs =>
          obtain rfl := Option.some.inj hc
          have hdone' : Completed ({ c with
              socketOpen := false
              response := (c.response ++ data).drop data.length } : GetworkClient μ) :=
            ⟨hdone.stage, hdone.operations, hdone.txPending, hdone.begun⟩
          refine (polls_answer_iff lib h cfg now hdone' hs).trans (not_congr ?_)
          exact ⟨fun hd => ⟨hd.1, hd.2.1, hd.2.2.1, hanswer, hd.2.2.2⟩,
            fun hd => ⟨hd.1, hd.2.1, hd.2.2.1, hd.2.2.2.2⟩⟩
    · obtain rfl := Option.some.inj hc
      exact ⟨fun _ hd => hanswer hd.2.2.2.1, fun _ => polls_disconnect _⟩
  | aborted =>
    obtain rfl := Option.some.inj hc
    have hoperations : ({ c with response := c.response ++ data } : GetworkClient μ).operations
        = 0 := hdone.operations
    exact polls_idle_iff hoperations
  | failed =>
    obtain rfl := Option.some.inj hc
    exact ⟨fun _ hd => hd, fun _ => polls_disconnect _⟩

/-- **One event** ends polling exactly in the cases that are listed. -/
theorem polls_handle_iff {e : Event} (htidy : Tidy c) (hstage : c.stage ≠ .released)
    (hpolls : Polls c) (hc : handle lib h cfg now c e = some c') :
    Polls c' ↔ ¬ Dies lib cfg c (now, e) := by
  have hgoes : ∀ {d : GetworkClient μ} {e : Event}, ¬ Dies lib cfg c (now, e) → Polls d →
      (Polls d ↔ ¬ Dies lib cfg c (now, e)) :=
    fun hlives hd => ⟨fun _ => hlives, fun _ => hd⟩
  cases e with
  | connect =>
    obtain rfl := Option.some.inj hc
    exact polls_connect_iff lib hpolls
  | disconnectCall =>
    obtain rfl := Option.some.inj hc
    exact hgoes id (polls_disconnect c)
  | rotateConnect maxId => exact nomatch hc
  | submitHashrate rate name =>
    obtain rfl := Option.some.inj hc
    refine hgoes id ?_
    unfold submitHashrate
    split_ifs
    · exact (polls_send_iff _).mpr fun _ => hpolls
    · exact hpolls
  | submitSolution solution =>
    obtain rfl := Option.some.inj hc
    refine hgoes id ?_
    unfold submitSolution
    split_ifs
    · exact (polls_send_iff _).mpr fun _ => hpolls
    · exact hpolls
  | tick =>
    obtain ⟨-, hc⟩ := onTick_eq_some lib cfg hc
    exact polls_tick_iff lib cfg now hc
  | resolved result =>
    obtain ⟨n, -, hc⟩ := oneOf_eq_some.mp hc
    obtain rfl := Option.some.inj hc
    refine hgoes id ?_
    cases result with
    | some endpoints => exact (polls_send_iff _).mpr fun _ => hpolls
    | none => exact polls_disconnect _
  | connectCompleted outcome =>
    obtain ⟨n, hn, hc⟩ := oneOf_eq_some.mp hc
    have hconnects : c.connects ≠ 0 := hn ▸ Nat.succ_ne_zero n
    have hoperations : c.operations ≠ 0 := by
      rw [operations]
      omega
    have hopen := (htidy.engaged_of_operations hstage hoperations).socket hconnects
    refine (polls_handleConnect_iff lib h now (htidy.completed_connect hstage hn) hopen hc).trans
      (not_congr ?_)
    cases outcome with
    | ok => exact ⟨fun hd => hd.elim (·.2) (nomatch ·.1), fun hd => .inl ⟨rfl, hd⟩⟩
    | aborted => exact ⟨fun hd => hd.elim (nomatch ·.1) (·.2), fun hd => .inr ⟨rfl, hd⟩⟩
    | failed => exact ⟨fun hd => hd.elim (nomatch ·.1) (nomatch ·.1), nofun⟩
  | writeCompleted outcome written =>
    obtain ⟨n, hn, hc⟩ := oneOf_eq_some.mp hc
    refine (polls_handleWrite_iff (htidy.completed_write hstage hn) hc).trans (not_congr ?_)
    cases outcome with
    | ok => exact ⟨fun hd => (nomatch hd.1), nofun⟩
    | aborted => exact ⟨fun hd => hd.2, fun hd => ⟨rfl, hd⟩⟩
    | failed => exact ⟨fun hd => (nomatch hd.1), nofun⟩
  | readCompleted outcome data =>
    obtain ⟨n, hn, hc⟩ := oneOf_eq_some.mp hc
    have hread := polls_handleRead_iff lib h cfg now (htidy.completed_read hstage hn) hc
    cases outcome with
    | ok => exact hread
    | aborted => exact hread
    | failed => exact hread

theorem polls_step_iff (c : GetworkClient μ) (e : TimePoint × Event) (c' : GetworkClient μ)
    (htidy : Tidy c) (hpolls : Polls c) (hc : step lib h cfg c e = some c') :
    Polls c' ↔ ¬ Dies lib cfg c e := by
  obtain ⟨now, e⟩ := e
  rcases step_cases hc with ⟨maxId, -, rfl, rfl⟩ | ⟨hstage, hc⟩
  · exact ⟨fun _ hd => hd, fun _ => polls_of_not_connected rfl⟩
  · have hlater := polls_handle_iff lib h cfg now (c := { c with clock := now })
      (htidy.withClock now) hstage hpolls hc
    refine hlater.trans (not_congr ?_)
    -- the clock is not looked at
    cases e with
    | connectCompleted outcome | writeCompleted outcome written | readCompleted outcome data =>
      cases outcome <;> exact Iff.rfl
    | _ => exact Iff.rfl

/-- **When polling goes on.**  Along a run of a new client and its successors, a socket operation
is outstanding or the timer is armed in every state in which the client is connected, exactly
when none of the events of the run is one of those with which polling ends. -/
theorem polling_iff (conn : Uri) (maxId : BitVec 32) (owner : μ) (start : TimePoint)
    (es : List (TimePoint × Event)) :
    Along (step lib h cfg) Polls (create conn maxId owner start) es ↔
      StepsMeet (step lib h cfg) (fun c e => ¬ Dies lib cfg c e) (create conn maxId owner start)
        es :=
  along_iff_stepsMeet (fun _ _ _ htidy hc => tidy_step lib h cfg htidy hc)
    (polls_step_iff lib h cfg) es _ (tidy_create start conn maxId owner)
    (polls_of_not_connected rfl)

end Polling

/-- What a node, and the client, may say, with the texts that stand for it. -/
def nodeReader : Library :=
  { (default : Library) with
    writeString := fun _ => "getWork".toList
    parse := fun text => .ok
      ([("getWork".toList, .object [("id".toList, .int 1)]),
        ("\x7b\x7d".toList, .object [])].lookup text) }

/-- A response of status 200, whose body is an object that has no members. -/
def emptyAnswer : StdString := "HTTP/1.1 200 OK\r\n\r\n\x7b\x7d".toList

/-- The node answers the first request with an object that has no members.  The client is
connected, and nothing will make it ask again. -/
theorem silent_after_empty_object :
    let conn : Uri := { version := 0, hostNameType := .ipv4 }
    let cfg : Settings := { worktimeout := 180, farmRecheckPeriod := 500 }
    let es : List (TimePoint × Event) :=
      [(0, .connect), (0, .connectCompleted .ok), (0, .writeCompleted .ok 0),
        (0, .readCompleted .ok emptyAnswer)]
    ¬ Along (step nodeReader {} cfg) Polls (create conn 0 () 0) es ∧
      (run (step nodeReader {} cfg) (create conn 0 () 0) es).map
          (fun c => (c.connected, c.operations, c.timer, c.stage)) =
        some (true, 0, none, .engaged) := by
  decide +kernel

end GetworkClient
end Getwork
end FpgaEthash
