import FpgaEthash.Getwork.Body
import FpgaEthash.Getwork.Polling

/-!
# The requests of the getwork client

A request is written to `m_request` and given to `async_write`, which takes out what it has
written.  What the node gets should be one request, whose body is the line that was next in the
queue when the write began (`Outgoing` remembers that queue).

`handle_connect` appends to `m_request` and nothing else empties it, short of `disconnect`.  So
when a write fails half way and another endpoint is tried, the rest of the old request is still
there, and the next one is written behind it; the line that was being sent is lost.
`requests_whole_iff` says that this is the only way in which a request is spoiled.

`receive` is the other side: what a node makes of all that it gets on a connection.
-/

namespace FpgaEthash
namespace Getwork

open Devcore Ethcore Jsoncpp Pool Throwing Runs
open Stratum (Abort Handlers Library TimePoint Endpoint Stage toSeconds oneOf oneOf_eq_some)

variable {μ : Type}

/-! ## What the node receives -/

/-- The length that a header declares. -/
def contentLength (line : StdString) : Option ℕ :=
  if "Content-Length: ".toList.isPrefixOf line && (line.drop 16).all Char.isDigit then
    some (Nat.ofDigitChars 10 (line.drop 16) 0)
  else none

/-- The rest of a request, line by line: headers, the first of which that declares a length
counts, an empty line, and a body that is as long as declared. -/
def readHeaders (length : Option ℕ) : List (StdString × StdString) → Option StdString
  | [] => none
  | ([], body) :: _ => if length = some body.length then some body else none
  | (line, _) :: lines => readHeaders (length <|> contentLength line) lines

/-- The body of the one request that makes up all that a node gets on a connection. -/
def receive (text : StdString) : Option StdString :=
  match cutLines [] text with
  | [] => none
  | (requestLine, _) :: lines =>
    if "POST ".toList.isPrefixOf requestLine then readHeaders none lines else none

/-- Nothing in the address can end a line of the request. -/
structure PlainAddress (conn : Uri) : Prop where
  path : '\r' ∉ conn.path
  host : '\r' ∉ conn.host

theorem unbroken_of_notMem {line : StdString} (h : '\r' ∉ line) : Unbroken line := fun hinside =>
  h (hinside.subset List.mem_cons_self)

/-- A request, line by line. -/
theorem httpRequest_eq (conn : Uri) (line : StdString) :
    GetworkClient.httpRequest conn line =
      ("POST ".toList ++ (if conn.path = [] then ['/'] else conn.path) ++ " HTTP/1.0".toList) ++
        '\r' :: '\n' :: (("Host: ".toList ++ conn.host) ++
          '\r' :: '\n' :: ("Content-Type: application/json".toList ++
            '\r' :: '\n' :: (("Content-Length: ".toList ++ (toString line.length).toList) ++
              '\r' :: '\n' :: ("Connection: close".toList ++
                '\r' :: '\n' :: ([] ++ '\r' :: '\n' :: line))))) := by
  unfold GetworkClient.httpRequest
  simp only [List.append_assoc]
  rfl

theorem isDigit_of_mem_toString {n : ℕ} {c : Char} (h : c ∈ (toString n).toList) :
    c.isDigit = true := by
  rw [Nat.toString_eq_repr, Nat.repr_eq_ofList_toDigits, String.toList_ofList] at h
  exact Nat.isDigit_of_mem_toDigits (b := 10) (by decide) (by decide) h

/-- The declared length can be read. -/
theorem contentLength_numeral (n : ℕ) :
    contentLength ("Content-Length: ".toList ++ (toString n).toList) = some n := by
  have hdrop : ("Content-Length: ".toList ++ (toString n).toList).drop 16 =
      (toString n).toList := List.drop_left' (by decide)
  have hprefix : "Content-Length: ".toList.isPrefixOf
      ("Content-Length: ".toList ++ (toString n).toList) = true :=
    List.isPrefixOf_iff_prefix.mpr (List.prefix_append _ _)
  have hdigits : (toString n).toList.all Char.isDigit = true :=
    List.all_eq_true.mpr fun c hc => isDigit_of_mem_toString hc
  rw [contentLength, hdrop, hprefix, hdigits, Bool.and_self, if_pos rfl, Nat.toString_eq_repr,
    Nat.repr_eq_ofList_toDigits, String.toList_ofList,
    Nat.ofDigitChars_toDigits (by decide) (by decide)]

theorem readHeaders_line {line : StdString} (hne : line ≠ []) (hline : '\r' ∉ line)
    (length : Option ℕ) (rest : StdString) :
    readHeaders length (cutLines [] (line ++ '\r' :: '\n' :: rest)) =
      readHeaders (length <|> contentLength line) (cutLines [] rest) := by
  obtain ⟨c, line, rfl⟩ := List.exists_cons_of_ne_nil hne
  rw [cutLines_line (unbroken_of_notMem hline)]
  rfl

/-- **A request can be read back**, whatever its line is. -/
theorem receive_httpRequest {conn : Uri} (h : PlainAddress conn) (line : StdString) :
    receive (GetworkClient.httpRequest conn line) = some line := by
  have hpath : '\r' ∉ "POST ".toList ++ (if conn.path = [] then ['/'] else conn.path) ++
      " HTTP/1.0".toList := by
    have hchosen : '\r' ∉ (if conn.path = [] then ['/'] else conn.path) := by
      split_ifs
      · decide
      · exact h.path
    rw [List.mem_append, List.mem_append, not_or, not_or]
    exact ⟨⟨by decide, hchosen⟩, by decide⟩
  have hhost : '\r' ∉ "Host: ".toList ++ conn.host := by
    rw [List.mem_append, not_or]
    exact ⟨by decide, h.host⟩
  have hlength : '\r' ∉ "Content-Length: ".toList ++ (toString line.length).toList := by
    rw [List.mem_append, not_or]
    exact ⟨by decide, fun hdigit => absurd (isDigit_of_mem_toString hdigit) (by decide)⟩
  have hne : ∀ {a : StdString} (b : StdString), a ≠ [] → a ++ b ≠ [] := fun b ha =>
    List.append_ne_nil_of_left_ne_nil ha b
  rw [httpRequest_eq, receive, cutLines_line (unbroken_of_notMem hpath)]
  show readHeaders none _ = _
  rw [readHeaders_line (hne _ (by decide)) hhost, readHeaders_line (by decide) (by decide),
    readHeaders_line (hne _ (by decide)) hlength, contentLength_numeral,
    readHeaders_line (by decide) (by decide), List.nil_append]
  exact if_pos rfl

namespace GetworkClient

/-! ## What is written -/

/-- A client, and its queue as it was when the last write began. -/
structure Outgoing (μ : Type) where
  client : GetworkClient μ
  queue : List StdString := []

/-- The queue to remember after a step.  A write begins where there is one more. -/
def queueAfter (queue : List StdString) (c c' : GetworkClient μ) : List StdString :=
  if c.writes < c'.writes then c.txQueue else queue

/-- A step, with the queue that is remembered. -/
def stepOutgoing (lib : Library) (h : Handlers μ) (cfg : Settings) (s : Outgoing μ)
    (e : TimePoint × Event) : Option (Outgoing μ) :=
  (step lib h cfg s.client e).map fun c' => ⟨c', queueAfter s.queue s.client c'⟩

/-- What the client is writing has its line from the queue: it was the next one when the write
began, and the lines behind it are still queued, before all that were sent since.  The text is one
request, which a node reads back if the address is plain. -/
structure WritesLine (queue : List StdString) (c : GetworkClient μ) (line : StdString)
    (rest : List StdString) : Prop where
  popped : popLine queue = some (line, rest)
  queued : rest <+: c.txQueue
  request : c.request = httpRequest c.conn line
  received : PlainAddress c.conn → receive c.request = some line

/-- While the client is in use, what it is writing is one request for a line of the queue, and
nothing is left over of one when it is not writing. -/
structure Whole (queue : List StdString) (c : GetworkClient μ) : Prop where
  idle : c.stage ≠ .released → c.writes = 0 → c.request = []
  writing : c.stage ≠ .released → c.writes ≠ 0 → ∃ line rest, WritesLine queue c line rest

/-- A write ends early, and the client goes on. -/
def BreaksOff (c : GetworkClient μ) : Event → Prop
  | .writeCompleted .aborted written => written < c.request.length
  | .writeCompleted .failed written => written < c.request.length ∧ 2 ≤ c.endpoints.length
  | _ => False

/-- The client goes on with what it is writing, and lines are only added to the queue. -/
structure SameWriting (c d : GetworkClient μ) : Prop where
  conn : d.conn = c.conn
  writes : d.writes = c.writes
  request : d.request = c.request
  queue : c.txQueue <+: d.txQueue

section Writing

variable (lib : Library) (h : Handlers μ) (cfg : Settings) (now : TimePoint)
  {queue : List StdString} {c c' d : GetworkClient μ}

theorem whole_of_released (hstage : c.stage = .released) : Whole queue c :=
  ⟨fun hne => absurd hstage hne, fun hne => absurd hstage hne⟩

theorem whole_of_nil (hwrites : c.writes = 0) (hnil : c.request = []) : Whole queue c :=
  ⟨fun _ _ => hnil, fun _ hne => absurd hwrites hne⟩

theorem whole_iff_nil (hstage : c.stage ≠ .released) (hwrites : c.writes = 0) :
    Whole queue c ↔ c.request = [] :=
  ⟨fun hc => hc.idle hstage hwrites, whole_of_nil hwrites⟩

theorem SameWriting.refl (c : GetworkClient μ) : SameWriting c c :=
  ⟨rfl, rfl, rfl, List.prefix_rfl⟩

theorem Whole.withClock (hc : Whole queue c) : Whole queue { c with clock := now } := by
  refine ⟨hc.idle, fun hstage hwrites => ?_⟩
  obtain ⟨line, rest, hline⟩ := hc.writing hstage hwrites
  exact ⟨line, rest, hline.popped, hline.queued, hline.request, hline.received⟩

/-- The client has been released, or is writing what it was writing. -/
theorem Whole.of_same (hc : Whole queue c) (hstage : c.stage ≠ .released)
    (hd : d.stage = .released ∨ SameWriting c d) : Whole (queueAfter queue c d) d := by
  rcases hd with hreleased | hsame
  · exact whole_of_released hreleased
  · rw [queueAfter, if_neg hsame.writes.le.not_gt]
    refine ⟨fun _ hwrites => ?_, fun _ hwrites => ?_⟩
    · rw [hsame.request]
      exact hc.idle hstage (hsame.writes.symm.trans hwrites)
    · obtain ⟨line, rest, hline⟩ :=
        hc.writing hstage fun hzero => hwrites (hsame.writes.trans hzero)
      refine ⟨line, rest, hline.popped, hline.queued.trans hsame.queue, ?_, ?_⟩
      · rw [hsame.request, hsame.conn]
        exact hline.request
      · rw [hsame.request, hsame.conn]
        exact hline.received

theorem SameWriting.beginConnect (hd : SameWriting c d) :
    d.beginConnect.stage = .released ∨ SameWriting c d.beginConnect := by
  unfold GetworkClient.beginConnect
  split
  · exact .inl rfl
  · exact .inr ⟨hd.conn, hd.writes, hd.request, hd.queue⟩

theorem SameWriting.send (hd : SameWriting c d) (line : StdString) :
    (d.send line).stage = .released ∨ SameWriting c (d.send line) := by
  unfold GetworkClient.send
  dsimp only
  have hqueue : c.txQueue <+: d.txQueue ++ [line] := hd.queue.trans (List.prefix_append _ _)
  split_ifs
  · exact .inr ⟨hd.conn, hd.writes, hd.request, hqueue⟩
  · exact SameWriting.beginConnect ⟨hd.conn, hd.writes, hd.request, hqueue⟩

theorem same_connect (c : GetworkClient μ) :
    (c.connect lib).stage = .released ∨ SameWriting c (c.connect lib) := by
  unfold connect
  split_ifs
  · exact .inr (.refl c)
  · dsimp only
    split_ifs
    · exact .inr ⟨rfl, rfl, rfl, List.prefix_rfl⟩
    · refine SameWriting.send ?_ _
      exact ⟨rfl, rfl, rfl, List.prefix_rfl⟩

theorem same_discardEndpoint (hc : c.discardEndpoint = some c') :
    c'.stage = .released ∨ SameWriting c c' := by
  unfold discardEndpoint at hc
  split at hc
  · exact nomatch hc
  · obtain rfl := Option.some.inj hc
    exact SameWriting.beginConnect ⟨rfl, rfl, rfl, List.prefix_rfl⟩

/-- With one endpoint the client gives up, with more it goes on to the next. -/
theorem stage_discardEndpoint (hstage : c.stage ≠ .released) (hc : c.discardEndpoint = some c') :
    c'.stage = .released ↔ ¬ 2 ≤ c.endpoints.length := by
  unfold discardEndpoint at hc
  split at hc
  · exact nomatch hc
  · next endpoint endpoints hendpoints =>
      obtain rfl := Option.some.inj hc
      rw [hendpoints]
      cases endpoints with
      | nil => exact iff_of_true rfl (by simp)
      | cons next endpoints =>
        refine iff_of_false hstage ?_
        simp

theorem same_beginSession (hc : c.beginSession h now = some c') :
    c'.request = c.request ∧ c'.writes = c.writes ∧ c'.txQueue = c.txQueue := by
  unfold beginSession at hc
  split_ifs at hc
  · split at hc
    · exact nomatch hc
    · obtain rfl := Option.some.inj hc
      exact ⟨rfl, rfl, rfl⟩
  · obtain rfl := Option.some.inj hc
    exact ⟨rfl, rfl, rfl⟩

theorem Completed.writes_eq_zero (hdone : Completed c) : c.writes = 0 := by
  have hzero : c.connects + c.writes + c.reads = 0 := hdone.operations
  omega

/-- **A write begins**: it is one request for the next line, as nothing was left over. -/
theorem whole_submitNext (hdone : Completed c) (hnil : c.request = [])
    (hc : c.submitNext lib now = some c') : Whole (queueAfter queue c c') c' := by
  have hwrites : c.writes = 0 := hdone.writes_eq_zero
  unfold submitNext at hc
  split_ifs at hc
  · obtain rfl := Option.some.inj hc
    exact whole_of_nil hwrites hnil
  · split at hc
    · obtain rfl := Option.some.inj hc
      exact whole_of_nil hwrites hnil
    · next line txQueue hpop =>
        split at hc
        · exact nomatch hc
        · obtain rfl := Option.some.inj hc
          rw [queueAfter, if_pos (Nat.lt_succ_self c.writes)]
          refine ⟨fun _ hzero => absurd hzero (Nat.succ_ne_zero _), fun _ _ => ?_⟩
          have hrequest : c.request ++ httpRequest c.conn line = httpRequest c.conn line := by
            rw [hnil, List.nil_append]
          refine ⟨line, txQueue, hpop, List.prefix_rfl, hrequest, fun hplain => ?_⟩
          show receive (c.request ++ httpRequest c.conn line) = some line
          rw [hrequest]
          exact receive_httpRequest hplain line

theorem whole_handleConnect {outcome : Outcome} (hdone : Completed c) (hnil : c.request = [])
    (hc : c.handleConnect lib h now outcome = some c') : Whole (queueAfter queue c c') c' := by
  have hwhole : Whole queue c := whole_of_nil hdone.writes_eq_zero hnil
  have hstage : c.stage ≠ .released := by
    rw [hdone.stage]
    decide
  unfold handleConnect at hc
  split_ifs at hc
  · obtain ⟨d, hd, hc⟩ := Option.bind_eq_some_iff.mp hc
    obtain ⟨hrequest, hwrites, hqueue⟩ := same_beginSession h now hd
    have hnext : Whole (queueAfter queue d c') c' := whole_submitNext lib now
      (completed_beginSession h now hdone hd).1 (hrequest.trans hnil) hc
    rw [queueAfter, hwrites, hqueue] at hnext
    exact hnext
  · obtain rfl := Option.some.inj hc
    exact hwhole.of_same hstage (.inr (.refl c))
  · exact hwhole.of_same hstage (same_discardEndpoint hc)

/-- **A write ends**: nothing of it is left, unless it breaks off. -/
theorem whole_handleWrite_iff {outcome : Outcome} {written : ℕ} (hdone : Completed c)
    (hc : c.handleWrite outcome written = some c') :
    Whole queue c' ↔ ¬ BreaksOff c (.writeCompleted outcome written) := by
  have hwrites : c.writes = 0 := hdone.writes_eq_zero
  have hstage : c.stage ≠ .released := by
    rw [hdone.stage]
    decide
  have hleft : c.request.drop written = [] ↔ ¬ written < c.request.length := by
    rw [List.drop_eq_nil_iff, Nat.not_lt]
  cases outcome with
  | ok =>
    obtain rfl := Option.some.inj hc
    exact iff_of_true (whole_of_nil hwrites rfl) id
  | aborted =>
    obtain rfl := Option.some.inj hc
    exact (whole_iff_nil (c := { c with request := c.request.drop written }) hstage
      hwrites).trans hleft
  | failed =>
    have hreleased := stage_discardEndpoint (c := { c with request := c.request.drop written })
      hstage hc
    rw [BreaksOff, not_and_or]
    by_cases hgone : c'.stage = .released
    · exact iff_of_true (whole_of_released hgone) (.inr (hreleased.mp hgone))
    · have hsame := (same_discardEndpoint hc).resolve_left hgone
      rw [whole_iff_nil hgone (hsame.writes.trans hwrites), hsame.request, hleft]
      exact ⟨.inl, fun hor => hor.resolve_right fun hfew => hgone (hreleased.mpr hfew)⟩

theorem whole_handleRead {outcome : Outcome} {data : StdString} (hdone : Completed c)
    (hnil : c.request = []) (hc : c.handleRead lib h cfg now outcome data = some c') :
    Whole queue c' := by
  have hidle : ∀ d : GetworkClient μ, d.writes = c.writes → d.request = c.request →
      Whole queue d := fun d hwrites hrequest =>
    whole_of_nil (hwrites.trans hdone.writes_eq_zero) (hrequest.trans hnil)
  unfold handleRead at hc
  dsimp only at hc
  cases outcome with
  | ok =>
    dsimp only at hc
    split_ifs at hc
    · split at hc
      · exact nomatch hc
      · obtain rfl := Option.some.inj hc
        unfold continueQueue
        split_ifs
        · exact hidle _ rfl rfl
        · rcases (SameWriting.refl _).beginConnect with hreleased | hsame
          · exact whole_of_released hreleased
          · exact hidle _ hsame.writes hsame.request
    · obtain rfl := Option.some.inj hc
      exact whole_of_released rfl
  | aborted =>
    obtain rfl := Option.some.inj hc
    exact hidle _ rfl rfl
  | failed =>
    obtain rfl := Option.some.inj hc
    exact whole_of_released rfl

/-- **One event**, exactly. -/
theorem whole_handle_iff {e : Event} (htidy : Tidy c) (hstage : c.stage ≠ .released)
    (hwhole : Whole queue c) (hc : handle lib h cfg now c e = some c') :
    Whole (queueAfter queue c c') c' ↔ ¬ BreaksOff c e := by
  cases e with
  | connect =>
    obtain rfl := Option.some.inj hc
    exact iff_of_true (hwhole.of_same hstage (same_connect lib c)) id
  | disconnectCall =>
    obtain rfl := Option.some.inj hc
    exact iff_of_true (whole_of_released rfl) id
  | rotateConnect maxId => exact nomatch hc
  | submitHashrate rate id =>
    obtain rfl := Option.some.inj hc
    refine iff_of_true ?_ (fun hbreak => hbreak)
    unfold submitHashrate
    split_ifs
    · exact hwhole.of_same hstage ((SameWriting.refl c).send _)
    · exact hwhole.of_same hstage (.inr (.refl c))
  | submitSolution solution =>
    obtain rfl := Option.some.inj hc
    refine iff_of_true ?_ id
    unfold submitSolution
    split_ifs
    · refine hwhole.of_same hstage (SameWriting.send ?_ _)
      exact ⟨rfl, rfl, rfl, List.prefix_rfl⟩
    · exact hwhole.of_same hstage (.inr (.refl c))
  | tick =>
    obtain ⟨-, hc⟩ := onTick_eq_some lib cfg hc
    refine iff_of_true ?_ id
    unfold getworkTimerElapsed at hc
    split_ifs at hc
    · split at hc
      · exact nomatch hc
      · obtain rfl := Option.some.inj hc
        exact whole_of_released rfl
    · obtain rfl := Option.some.inj hc
      refine hwhole.of_same hstage (SameWriting.send ?_ _)
      exact ⟨rfl, rfl, rfl, List.prefix_rfl⟩
  | resolved result =>
    obtain ⟨n, -, hc⟩ := oneOf_eq_some.mp hc
    obtain rfl := Option.some.inj hc
    refine iff_of_true ?_ id
    cases result with
    | some endpoints =>
      refine hwhole.of_same hstage (SameWriting.send ?_ _)
      exact ⟨rfl, rfl, rfl, List.prefix_rfl⟩
    | none => exact whole_of_released rfl
  | connectCompleted outcome =>
    obtain ⟨n, hn, hc⟩ := oneOf_eq_some.mp hc
    have hdone := htidy.completed_connect hstage hn
    have hnil := hwhole.idle hstage hdone.writes_eq_zero
    have hnext : Whole (queueAfter queue { c with connects := n } c') c' :=
      whole_handleConnect lib h now hdone hnil hc
    exact iff_of_true hnext id
  | writeCompleted outcome written =>
    obtain ⟨n, hn, hc⟩ := oneOf_eq_some.mp hc
    exact (whole_handleWrite_iff (htidy.completed_write hstage hn) hc).trans (by
      cases outcome <;> exact Iff.rfl)
  | readCompleted outcome data =>
    obtain ⟨n, hn, hc⟩ := oneOf_eq_some.mp hc
    have hdone := htidy.completed_read hstage hn
    have hnil := hwhole.idle hstage hdone.writes_eq_zero
    exact iff_of_true (whole_handleRead lib h cfg now hdone hnil hc) id

theorem whole_step_iff (s : Outgoing μ) (e : TimePoint × Event) (s' : Outgoing μ)
    (htidy : Tidy s.client) (hwhole : Whole s.queue s.client)
    (hs : stepOutgoing lib h cfg s e = some s') :
    Whole s'.queue s'.client ↔ ¬ BreaksOff s.client e.2 := by
  obtain ⟨now, e⟩ := e
  obtain ⟨c', hc, rfl⟩ := Option.map_eq_some_iff.mp hs
  rcases step_cases hc with ⟨maxId, -, rfl, rfl⟩ | ⟨hstage, hc⟩
  · exact iff_of_true (whole_of_nil rfl rfl) id
  · refine (whole_handle_iff lib h cfg now (htidy.withClock now) hstage (hwhole.withClock now)
      hc).trans ?_
    cases e with
    | writeCompleted outcome written => cases outcome <;> exact Iff.rfl
    | _ => exact Iff.rfl

/-- **When the node gets whole requests.**  Along a run of a new client and its successors, the
text that the client writes on a connection is at all times one request, whose body is the line
that was next in the queue when the write began, and nothing is left over between two of them,
exactly when no write of the run ends early on a client that goes on. -/
theorem requests_whole_iff (conn : Uri) (maxId : BitVec 32) (owner : μ) (start : TimePoint)
    (es : List (TimePoint × Event)) :
    Along (stepOutgoing lib h cfg) (fun s => Whole s.queue s.client)
        ⟨create conn maxId owner start, []⟩ es ↔
      StepsMeet (stepOutgoing lib h cfg) (fun s e => ¬ BreaksOff s.client e.2)
        ⟨create conn maxId owner start, []⟩ es := by
  refine along_iff_stepsMeet (I := fun s => Tidy s.client) (fun s e s' htidy hs => ?_)
    (whole_step_iff lib h cfg) es _ (tidy_create start conn maxId owner) (whole_of_nil rfl rfl)
  obtain ⟨c', hc, rfl⟩ := Option.map_eq_some_iff.mp hs
  exact tidy_step lib h cfg htidy hc

end Writing

end GetworkClient
end Getwork
end FpgaEthash
