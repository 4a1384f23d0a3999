import FpgaEthash.Stratum.ProcessResponse

/-!
# Responses to `EthGetworkClient`

A node answers a request with an HTTP response, and closes the connection.  `handle_read`
cuts what it has read at `"\r\n"`.  The first line must be a status of 200.  The lines
after an empty one are the body, and each is given to the JSON reader by itself; so is
what follows the last line, but only right after an empty one.

`processResponse` looks at the request that is pending to know what a response is for.
The next poll is scheduled here, and nowhere else: `arms` says which responses do it.
A response that nothing can be made of does not, and neither does one to a solution or
to a hash rate.
-/

namespace FpgaEthash
namespace Getwork

open Devcore Ethcore Jsoncpp Pool Throwing
open Stratum (Abort Handlers Library TimePoint toMilliseconds processError)

variable {μ : Type}

/-! ## The text of a response -/

/-- The lines that the delimiter ends, each with what follows it. -/
def cutLines (line : StdString) : StdString → List (StdString × StdString)
  | [] => []
  | '\r' :: '\n' :: rest => (line, rest) :: cutLines [] rest
  | c :: rest => cutLines (line ++ [c]) rest

/-- A status line that reports 200. -/
def isStatus200 (line : StdString) : Bool :=
  line.take 7 == "HTTP/1.".toList &&
    match line.dropWhile (· != ' ') with
    | [] => false
    | _ :: status => status.take 3 == "200".toList

/-- The first line is a header, and not the status that is wanted. -/
def isRefused : List (StdString × StdString) → Bool
  | [] => false
  | (line, _) :: _ => !line.isEmpty && !isStatus200 line

/-- The texts that the JSON reader is given. -/
def bodyTexts (isHeader : Bool) : List (StdString × StdString) → List StdString
  | [] => []
  | ([], rest) :: lines =>
    if lines.isEmpty then [rest.filter (· != '\n')] else bodyTexts false lines
  | (line, _) :: lines =>
    if isHeader then bodyTexts isHeader lines else line :: bodyTexts isHeader lines

/-! ## The members -/

/-- The arguments of the constructor, in seconds and in milliseconds. -/
structure Settings where
  worktimeout : BitVec 32
  farmRecheckPeriod : BitVec 32

/-- The members of `EthGetworkClient` that `processResponse` works on, and the state of the
owner.  `timer` is when the wait on `m_getwork_timer` ends, if there is one. -/
structure Exchange (μ : Type) where
  conn : Uri
  pendingJReq : Value := .null
  pendingTimestamp : TimePoint := 0
  solutionSubmittedMaxId : BitVec 32
  current : WorkPackage := {}
  currentTimestamp : TimePoint := 0
  timer : Option TimePoint := none
  owner : μ

/-- A function of the client that works on these members. -/
abbrev Reply (μ : Type) := EStateM Abort (Exchange μ)

namespace Reply

/-- A conversion of jsoncpp. -/
def ofJson {α : Type} (x : Except Jsoncpp.Exception α) : Reply μ α := ofExcept .json x

/-- A handler of the owner. -/
def call {ε : Type} (f : ε → Abort) (x : EStateM ε μ Unit) : Reply μ Unit := fun s =>
  match x s.owner with
  | .ok _ owner => .ok () { s with owner }
  | .error e owner => .error (f e) { s with owner }

/-- `m_getwork_timer.expires_from_now`, and `async_wait`. -/
def arm (now : TimePoint) (delay : ℤ) : Reply μ Unit :=
  modify fun s => { s with timer := some (now + delay) }

end Reply

open Reply

section Process

variable (lib : Library) (h : Handlers μ) (cfg : Settings) (now : TimePoint)

/-! ## What a response is for -/

/-- `h256(JPrm.get(i, "").asString())`. -/
def hashAt (jPrm : Value) (i : ℕ) : Reply μ H256 := do
  let element ← ofJson (jPrm.getIndex i (.string []))
  let text ← ofJson (element.asString lib.realText)
  ofExcept .std (FixedHash.ofString 32 text)

/-- Work with another header is new. -/
def takeWork (newWp : WorkPackage) : Reply μ Unit := do
  let s ← get
  if s.current.header != newWp.header then do
    modify fun s => { s with current := newWp, currentTimestamp := now }
    call id (h.onWorkReceived s.conn newWp)
  else pure ()

/-- The result of `eth_getWork`. -/
def processWork (jPrm : Value) : Reply μ Unit := do
  let header ← hashAt lib jPrm 0
  let seed ← hashAt lib jPrm 1
  let boundary ← hashAt lib jPrm 2
  takeWork h now { header, seed, boundary, job := header.hex .dontAdd }
  arm now (cfg.farmRecheckPeriod.toNat * 1000000)

/-- The response to `eth_getWork`.  After an error, further requests are delayed by 30
seconds. -/
def processGetWork (isSuccess : Bool) (jRes : Value.Members) : Reply μ Unit :=
  if !isSuccess then arm now 30000000000
  else if !jRes.isMember "result".toList then pure ()
  else processWork lib h cfg now (jRes.get "result".toList .null)

/-- Whether a solution was accepted.  The result counts, if it can be read as a truth value. -/
def isAccepted (isSuccess : Bool) (result : Value) : Except Jsoncpp.Exception Bool :=
  if isSuccess && result.isConvertibleToBool then result.asBool else .ok isSuccess

/-- The response to a solution. -/
def processSolution (id : BitVec 32) (isSuccess : Bool) (jRes : Value.Members) : Reply μ Unit := do
  let s ← get
  let isSuccess ← ofJson (isAccepted isSuccess (jRes.item "result".toList))
  let delay := toMilliseconds (now - s.pendingTimestamp)
  if isSuccess then call .std (h.onSolutionAccepted delay (id - 40) false)
  else call .std (h.onSolutionRejected delay (id - 40))

/-- The id of a request. -/
def requestId (jReq : Value) : Except Jsoncpp.Exception (BitVec 32) := do
  let members ← jReq.members
  (members.get "id".toList (.int 0)).asUInt

/-- Responses by the id of the request that they are for. -/
def processById (id : BitVec 32) (isSuccess : Bool) (jRes : Value.Members) : Reply μ Unit := do
  let s ← get
  if id = 0 ∨ id = 1 then processGetWork lib h cfg now isSuccess jRes
  else if id = 9 then pure ()
  else if 40 ≤ id ∧ id ≤ s.solutionSubmittedMaxId then processSolution h now id isSuccess jRes
  else pure ()

/-- `processResponse`.  The id is the one of the pending request. -/
def processResponse (jRes : Value) : Reply μ Unit := do
  let jRes ← ofJson jRes.members
  if !jRes.isMember "id".toList then pure ()
  else do
    let s ← get
    let id ← ofJson (requestId s.pendingJReq)
    let isSuccess := (jRes.get "error".toList .null).empty
    -- the reason is only logged
    let _errReason ← ofJson (if isSuccess then .ok [] else processError lib jRes)
    processById lib h cfg now id isSuccess jRes

/-- A text of the body.  One that is not valid JSON is passed over. -/
def processText (text : StdString) : Reply μ Unit := do
  match ← ofJson (lib.parse text) with
  | none => pure ()
  | some jRes => processResponse lib h cfg now jRes

end Process

/-! ## Which responses schedule the next poll -/

/-- A response to `eth_getWork` with an `id`, and with an error or a result. -/
def armsMembers (jReq : Value) (jRes : Value.Members) : Bool :=
  jRes.isMember "id".toList &&
    (match requestId jReq with
      | .ok id => id == 0 || id == 1
      | .error _ => false) &&
    (!(jRes.get "error".toList .null).empty || jRes.isMember "result".toList)

/-- The text schedules the next poll, if the request is pending. -/
def arms (lib : Library) (jReq : Value) (text : StdString) : Bool :=
  match lib.parse text with
  | .ok (some jRes) =>
    match jRes.members with
    | .ok jRes => armsMembers jReq jRes
    | .error _ => false
  | _ => false

/-- What a call that returns has done to the timer, and left alone. -/
structure Answered (armed : Bool) (s t : Exchange μ) : Prop where
  jReq : t.pendingJReq = s.pendingJReq
  timer : t.timer.isSome = (s.timer.isSome || armed)

theorem Answered.refl (s : Exchange μ) : Answered false s s := ⟨rfl, (Bool.or_false _).symm⟩

theorem Answered.trans {a b : Bool} {s t u : Exchange μ} (hst : Answered a s t)
    (htu : Answered b t u) : Answered (a || b) s u :=
  ⟨htu.jReq.trans hst.jReq, by rw [htu.timer, hst.timer, Bool.or_assoc]⟩

section Answers

variable {lib : Library} {h : Handlers μ} {cfg : Settings} {now : TimePoint}
  {s t : Exchange μ} {u : Unit}

theorem answered_arm {delay : ℤ} (hs : arm now delay s = .ok u t) : Answered true s t := by
  obtain ⟨-, rfl⟩ := EStateM.Result.ok.inj hs
  exact ⟨rfl, (Bool.or_true _).symm⟩

theorem answered_call {ε : Type} {f : ε → Abort} {x : EStateM ε μ Unit}
    (hs : call f x s = .ok u t) : Answered false s t := by
  unfold call at hs
  split at hs
  · obtain ⟨-, rfl⟩ := EStateM.Result.ok.inj hs
    exact ⟨rfl, (Bool.or_false _).symm⟩
  · exact nomatch hs

theorem hashAt_ok {jPrm : Value} {i : ℕ} {a : H256} (hs : hashAt lib jPrm i s = .ok a t) :
    s = t := by
  obtain ⟨_, _, h1, hs⟩ := bind_eq_ok.mp hs
  obtain ⟨-, rfl⟩ := ofExcept_eq_ok.mp h1
  obtain ⟨_, _, h2, hs⟩ := bind_eq_ok.mp hs
  obtain ⟨-, rfl⟩ := ofExcept_eq_ok.mp h2
  exact (ofExcept_eq_ok.mp hs).2

theorem answered_takeWork {newWp : WorkPackage} (hs : takeWork h now newWp s = .ok u t) :
    Answered false s t := by
  have hget : takeWork h now newWp s = (if s.current.header != newWp.header then _ else _ :
    Reply μ Unit) s := rfl
  rw [hget] at hs
  split_ifs at hs
  · have hnew := answered_call hs
    exact ⟨hnew.jReq, hnew.timer⟩
  · obtain ⟨-, rfl⟩ := EStateM.Result.ok.inj hs
    exact .refl s

theorem answered_processWork {jPrm : Value} (hs : processWork lib h cfg now jPrm s = .ok u t) :
    Answered true s t := by
  obtain ⟨header, _, h1, hs⟩ := bind_eq_ok.mp hs
  obtain rfl := hashAt_ok h1
  obtain ⟨seed, _, h2, hs⟩ := bind_eq_ok.mp hs
  obtain rfl := hashAt_ok h2
  obtain ⟨boundary, _, h3, hs⟩ := bind_eq_ok.mp hs
  obtain rfl := hashAt_ok h3
  obtain ⟨_, s', h4, hs⟩ := bind_eq_ok.mp hs
  exact (answered_takeWork h4).trans (answered_arm hs)

/-- **The response to `eth_getWork`** schedules the next poll, unless it is neither an error nor
has a result. -/
theorem answered_processGetWork {isSuccess : Bool} {jRes : Value.Members}
    (hs : processGetWork lib h cfg now isSuccess jRes s = .ok u t) :
    Answered (!isSuccess || jRes.isMember "result".toList) s t := by
  unfold processGetWork at hs
  split_ifs at hs with hfailed hmissing
  · rw [hfailed, Bool.true_or]
    exact answered_arm hs
  · rw [Bool.not_eq_true'] at hmissing
    rw [Bool.eq_false_iff.mpr hfailed, hmissing]
    obtain ⟨-, rfl⟩ := EStateM.Result.ok.inj hs
    exact .refl s
  · rw [Bool.not_eq_true, Bool.not_eq_false'] at hmissing
    rw [hmissing, Bool.or_true]
    exact answered_processWork hs

theorem answered_processSolution {id : BitVec 32} {isSuccess : Bool} {jRes : Value.Members}
    (hs : processSolution h now id isSuccess jRes s = .ok u t) : Answered false s t := by
  obtain ⟨_, _, hget, hs⟩ := bind_eq_ok.mp hs
  obtain ⟨rfl, rfl⟩ := EStateM.Result.ok.inj hget
  obtain ⟨success, _, hresult, hs⟩ := bind_eq_ok.mp hs
  obtain ⟨-, rfl⟩ := ofExcept_eq_ok.mp hresult
  split_ifs at hs
  · exact answered_call hs
  · exact answered_call hs

theorem answered_processById {id : BitVec 32} {isSuccess : Bool} {jRes : Value.Members}
    (hs : processById lib h cfg now id isSuccess jRes s = .ok u t) :
    Answered ((id == 0 || id == 1) && (!isSuccess || jRes.isMember "result".toList)) s t := by
  obtain ⟨_, _, hget, hs⟩ := bind_eq_ok.mp hs
  obtain ⟨rfl, rfl⟩ := EStateM.Result.ok.inj hget
  have hid : (id == 0 || id == 1) = true ↔ id = 0 ∨ id = 1 := by
    rw [Bool.or_eq_true, beq_iff_eq, beq_iff_eq]
  split_ifs at hs with hwork hhashrate hsolution
  · rw [hid.mpr hwork, Bool.true_and]
    exact answered_processGetWork hs
  all_goals rw [Bool.eq_false_iff.mpr (mt hid.mp hwork), Bool.false_and]
  · obtain ⟨-, rfl⟩ := EStateM.Result.ok.inj hs
    exact .refl s
  · exact answered_processSolution hs
  · obtain ⟨-, rfl⟩ := EStateM.Result.ok.inj hs
    exact .refl s

theorem answered_processResponse {jRes : Value} {ms : Value.Members} (hms : jRes.members = .ok ms)
    (hs : processResponse lib h cfg now jRes s = .ok u t) :
    Answered (armsMembers s.pendingJReq ms) s t := by
  obtain ⟨_, _, hread, hs⟩ := bind_eq_ok.mp hs
  obtain ⟨hmembers, rfl⟩ := ofExcept_eq_ok.mp hread
  obtain rfl := Except.ok.inj (hms.symm.trans hmembers)
  unfold armsMembers
  split_ifs at hs with hmissing
  · rw [Bool.not_eq_true'] at hmissing
    rw [hmissing, Bool.false_and, Bool.false_and]
    obtain ⟨-, rfl⟩ := EStateM.Result.ok.inj hs
    exact .refl s
  · rw [Bool.not_eq_true, Bool.not_eq_false'] at hmissing
    obtain ⟨_, _, hget, hs⟩ := bind_eq_ok.mp hs
    obtain ⟨rfl, rfl⟩ := EStateM.Result.ok.inj hget
    obtain ⟨id, _, hread', hs⟩ := bind_eq_ok.mp hs
    obtain ⟨hid, rfl⟩ := ofExcept_eq_ok.mp hread'
    obtain ⟨_, _, hreason, hs⟩ := bind_eq_ok.mp hs
    obtain ⟨-, rfl⟩ := ofExcept_eq_ok.mp hreason
    rw [hmissing, hid, Bool.true_and]
    exact answered_processById hs

theorem answered_processText {text : StdString}
    (hs : processText lib h cfg now text s = .ok u t) :
    Answered (arms lib s.pendingJReq text) s t := by
  obtain ⟨parsed, _, hread, hs⟩ := bind_eq_ok.mp hs
  obtain ⟨hparsed, rfl⟩ := ofExcept_eq_ok.mp hread
  unfold arms
  rw [hparsed]
  cases parsed with
  | none =>
    obtain ⟨-, rfl⟩ := EStateM.Result.ok.inj hs
    exact .refl s
  | some jRes =>
    dsimp only
    cases hms : jRes.members with
    | ok ms => exact answered_processResponse hms hs
    | error e =>
      obtain ⟨_, _, hmembers, -⟩ := bind_eq_ok.mp hs
      exact nomatch hms.symm.trans (ofExcept_eq_ok.mp hmembers).1

/-- **A body** schedules the next poll exactly when one of its texts does. -/
theorem answered_forM {texts : List StdString}
    (hs : texts.forM (processText lib h cfg now) s = .ok u t) :
    Answered (texts.any (arms lib s.pendingJReq)) s t := by
  induction texts generalizing s with
  | nil =>
    obtain ⟨-, rfl⟩ := EStateM.Result.ok.inj hs
    exact .refl s
  | cons text texts ih =>
    obtain ⟨_, s', htext, hs⟩ := bind_eq_ok.mp hs
    have hfirst := answered_processText htext
    have hrest := ih hs
    rw [hfirst.jReq] at hrest
    rw [List.any_cons]
    exact hfirst.trans hrest

end Answers

end Getwork
end FpgaEthash
