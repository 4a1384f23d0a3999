import FpgaEthash.Ethcore.SolutionAccount
import FpgaEthash.Stratum.MessageFrame

/-!
# Submissions and their responses

`submitSolution` gives its request the id `40 + midx`, and remembers the largest such id of
the connection.  A response is known by its id alone: whatever lies between 40 and that
maximum is taken for an answer to a submission, and the miner is `_id - 40`.

`solutionReply?` says which messages get to the two branches for such responses, and
`verdict` what the branches conclude.  In EthereumStratum/2.0.0 the first digit of an error
code decides, and reading the code may throw; the response is then lost.

* `leaves_solutionReply`: a response to a submission makes the handlers account for one
  solution, or for none if its code cannot be read, and changes nothing else but the pleas.
* `leaves_other`: any other message leaves the maximum alone, and the owner of the client
  learns at most that a session has started.
-/

namespace FpgaEthash
namespace Stratum

open Devcore Ethcore Jsoncpp Pool Throwing Talk

variable {μ : Type}

/-! ## Submissions -/

/-- The JSON object of a submission. -/
def Request.toValue (request : Request) : Value :=
  .object
    ([("id".toList, .int request.id.toNat), ("method".toList, .string request.method),
        ("params".toList, .array (request.params.map .string))] ++
      (request.jsonrpc.toList.map fun version => ("jsonrpc".toList, .string version)) ++
      request.worker.toList.map fun worker => ("worker".toList, .string worker))

/-- The id of a submission. -/
def submissionId (solution : Solution) : BitVec 32 := 40 + BitVec.ofNat 32 solution.midx

/-- The request of `submitSolution`.  A mode that the switch does not know leaves it without
parameters. -/
def submission (conn : Uri) (session : Session) (solution : Solution) :
    Except StdException Value :=
  match StratumMode.ofNumber conn.stratumMode with
  | some stratumMode =>
    (solutionRequest { user := conn.user, workername := conn.workername, stratumMode } session
      solution).map Request.toValue
  | none => .ok (Request.toValue
      { id := submissionId solution, method := "mining.submit".toList, params := [] })

/-- `submitSolution`. -/
def submit (now : TimePoint) (solution : Solution) : Talk μ Unit := do
  let s ← get
  match s.session with
  | none => pure ()
  | some session =>
    if session.authorized then do
      modify fun s => { s with
        solutionSubmittedMaxId :=
          if s.solutionSubmittedMaxId < submissionId solution then submissionId solution
          else s.solutionSubmittedMaxId }
      let jReq ← ofStd (submission s.conn session.toSession solution)
      enqueueResponsePlea now
      send jReq
    else pure ()

section Submissions

variable {s : Exchange μ} (now : TimePoint) (solution : Solution)

/-- Nothing is sent without authorization. -/
theorem submit_of_not_isAuthorized (h : s.isAuthorized = false) :
    submit now solution s = .ok () s := by
  unfold submit
  rw [get_bind]
  cases hs : s.session with
  | none => rfl
  | some session =>
    have hnot : session.authorized = false := by
      rw [Exchange.isAuthorized, hs] at h
      exact h
    dsimp only
    rw [hnot]
    rfl

/-- An authorized client sends the request, unless making it throws. -/
theorem submit_of_isAuthorized (h : s.isAuthorized = true) {t : Exchange μ}
    (ht : submit now solution s = .ok () t) :
    ∃ pleas sent, t = { s with
      pleas, sent
      solutionSubmittedMaxId :=
        if s.solutionSubmittedMaxId < submissionId solution then submissionId solution
        else s.solutionSubmittedMaxId } := by
  obtain ⟨session, hs, hyes⟩ := (Option.any_eq_true _ _).mp h
  unfold submit at ht
  rw [get_bind, hs] at ht
  dsimp only at ht
  rw [if_pos hyes, modify_bind] at ht
  obtain ⟨jReq, u, hu, ht⟩ := bind_eq_ok.mp ht
  obtain ⟨-, rfl⟩ := ofExcept_eq_ok.mp hu
  obtain ⟨-, rfl⟩ := EStateM.Result.ok.inj ht
  exact ⟨_, _, rfl⟩

end Submissions

/-- The client of `submitSolution` is the exchange, as far as submissions go.  The exchange has
sent other messages before. -/
structure Client.Shows (before : List Value) (client : Client) (s : Exchange μ) : Prop where
  conn : client.conn =
    { user := s.conn.user, workername := s.conn.workername
      stratumMode := client.conn.stratumMode }
  mode : s.mode = some client.conn.stratumMode
  session : client.session = s.session.map (·.toSession)
  maxId : client.solutionSubmittedMaxId = s.solutionSubmittedMaxId
  pleas : client.pleas = s.pleas
  sent : s.sent = before ++ client.sent.map Request.toValue

/-- The two make the same request. -/
theorem Client.Shows.submission {before : List Value} {client : Client} {s : Exchange μ}
    (h : client.Shows before s) (session : Session) (solution : Solution) :
    submission s.conn session solution =
      (solutionRequest client.conn session solution).map Request.toValue := by
  have hmode : StratumMode.ofNumber s.conn.stratumMode = some client.conn.stratumMode := h.mode
  rw [Stratum.submission, hmode, h.conn]

/-- **`submit` is `submitSolution`**: they send the same request or throw the same exception. -/
theorem Client.Shows.submit {before : List Value} {client : Client} {s : Exchange μ}
    (h : client.Shows before s) (now : TimePoint) (solution : Solution) :
    (∃ client' t, submitSolution solution now client = .ok () client' ∧
      submit now solution s = .ok () t ∧ client'.Shows before t) ∨
    ∃ e client' t, submitSolution solution now client = .error e client' ∧
      submit now solution s = .error (.std e) t ∧ client'.Shows before t := by
  have hclient := h.session
  have hmax := congrArg
    (fun id => if id < submissionId solution then submissionId solution else id) h.maxId
  unfold submitSolution Stratum.submit
  rw [get_bind, get_bind]
  cases hs : s.session with
  | none =>
    rw [hs] at hclient
    rw [hclient]
    exact .inl ⟨client, s, rfl, rfl, h⟩
  | some session =>
    rw [hs] at hclient
    rw [hclient]
    dsimp only [Option.map_some]
    cases hauth : session.authorized with
    | false => exact .inl ⟨client, s, rfl, rfl, h⟩
    | true =>
      rw [h.submission]
      cases hrequest : solutionRequest client.conn session.toSession solution with
      | error e =>
        exact .inr ⟨e, _, _, rfl, rfl, h.conn, h.mode, h.session, hmax, h.pleas, h.sent⟩
      | ok request =>
        refine .inl ⟨_, _, rfl, rfl, h.conn, h.mode, h.session, hmax,
          congrArg (·.enqueueResponsePlea now) h.pleas, ?_⟩
        dsimp only
        rw [h.sent, List.map_append, List.append_assoc]
        rfl

/-! ## Which messages are responses -/

/-- The message as a response to a submission, if it gets to one of the branches for
these. -/
def solutionReply? (lib : Library) (s : Exchange μ) (m : Value) : Option Essentials :=
  match essentials lib s.mode m with
  | .error _ => none
  | .ok e =>
    if e.invalid || e.isNotification then none
    else if 40 ≤ e.id ∧ e.id ≤ s.solutionSubmittedMaxId then some e
    else none

/-- What the response is taken for. -/
def verdict (lib : Library) (mode : Option StratumMode) (e : Essentials) :
    Except Jsoncpp.Exception SolutionAccountingEnum :=
  if mode ≠ some .ethereumstratum2 then
    .ok (if granted e.isSuccess e.jResult then .accepted else .rejected)
  else if e.isSuccess then .ok .accepted
  else (errCode lib e).map fun code => if code = "2".toList then .accepted else .rejected

/-- The handlers for solutions do nothing but account for them. -/
structure Accounts (h : Handlers μ)
    (account : ℕ → SolutionAccountingEnum → EStateM StdException μ Unit) : Prop where
  accepted : ∀ delay miner stale,
    h.onSolutionAccepted delay miner stale = account miner.toNat .accepted
  rejected : ∀ delay miner, h.onSolutionRejected delay miner = account miner.toNat .rejected

section Replies

variable (lib : Library) (h : Handlers μ) (now : TimePoint) {s : Exchange μ} {m : Value}
  {e : Essentials}

theorem solutionReply?_eq_some : solutionReply? lib s m = some e ↔
    essentials lib s.mode m = .ok e ∧ e.invalid = false ∧ e.isNotification = false ∧
      40 ≤ e.id ∧ e.id ≤ s.solutionSubmittedMaxId := by
  unfold solutionReply?
  cases hessentials : essentials lib s.mode m with
  | error exception => simp
  | ok e' =>
    dsimp only
    split_ifs with hflags hid
    · simp only [Bool.or_eq_true] at hflags
      refine ⟨nofun, ?_⟩
      rintro ⟨heq, hinvalid, hnote, -⟩
      obtain rfl := Except.ok.inj heq
      simp [hinvalid, hnote] at hflags
    · simp only [Bool.or_eq_true, not_or, Bool.not_eq_true] at hflags
      refine ⟨fun heq => ?_, fun heq => congrArg some (Except.ok.inj heq.1)⟩
      obtain rfl := Option.some.inj heq
      exact ⟨rfl, hflags.1, hflags.2, hid⟩
    · refine ⟨nofun, ?_⟩
      rintro ⟨heq, -, -, hid'⟩
      obtain rfl := Except.ok.inj heq
      exact absurd hid' hid

/-- Ids from 40 on belong to no other request. -/
theorem processReply_of_le (hle : 40 ≤ e.id) (hmax : e.id ≤ s.solutionSubmittedMaxId) :
    processReply lib h now e s =
      (if s.mode ≠ some .ethereumstratum2 then onSubmitReply h now e
        else onSubmitReply2 lib h now e : Talk μ Unit) s := by
  have hne : ∀ id : BitVec 32, id < 40 → e.id ≠ id := by
    rintro id hid rfl
    exact absurd hle (BitVec.not_le.mpr hid)
  show (if e.id = 1 then _ else _ : Talk μ Unit) s = _
  rw [if_neg (hne 1 (by decide)), if_neg (hne 2 (by decide)),
    if_neg fun hand => hne 3 (by decide) hand.1, if_neg (hne 3 (by decide))]
  by_cases hmode : s.mode = some .ethereumstratum2
  · rw [if_neg fun hand => hand.2.2 hmode, if_pos ⟨hle, hmax⟩, if_neg (not_not.mpr hmode)]
  · rw [if_pos ⟨hle, hmax, hmode⟩, if_pos hmode]

theorem processResponse_of_solutionReply (hm : solutionReply? lib s m = some e) :
    processResponse lib h now m s =
      (if s.mode ≠ some .ethereumstratum2 then onSubmitReply h now e
        else onSubmitReply2 lib h now e : Talk μ Unit) s := by
  obtain ⟨he, hinvalid, hnote, hle, hmax⟩ := (solutionReply?_eq_some lib).mp hm
  rw [← processReply_of_le lib h now hle hmax]
  show (ofJson (essentials lib s.mode m) >>= _ : Talk μ Unit) s = _
  rw [he]
  show (if e.invalid then _ else _ : Talk μ Unit) s = _
  rw [if_neg (by simp [hinvalid]), if_neg (by simp [hnote])]

/-- The state that a call of the owner leaves. -/
theorem leaves_call (x : EStateM StdException μ Unit) (t : Exchange μ) :
    leaves (call x) t = { t with owner := leaves x t.owner } := by
  unfold leaves call
  cases x t.owner <;> rfl

section Accounting

variable {account : ℕ → SolutionAccountingEnum → EStateM StdException μ Unit}

/-- What a verdict makes of the owner. -/
def settle (account : ℕ → SolutionAccountingEnum → EStateM StdException μ Unit) (id : BitVec 32)
    (owner : μ) : Except Jsoncpp.Exception SolutionAccountingEnum → μ
  | .error _ => owner
  | .ok kind => leaves (account (id - 40).toNat kind) owner

theorem leaves_onSubmitReply (haccounts : Accounts h account)
    (hmode : s.mode ≠ some .ethereumstratum2) :
    leaves (onSubmitReply h now e) s = { s with
      pleas := (s.pleas.dequeueResponsePlea now).2
      owner := settle account e.id s.owner (verdict lib s.mode e) } := by
  show leaves (if granted e.isSuccess e.jResult then _ else _ : Talk μ Unit) { s with
    pleas := (s.pleas.dequeueResponsePlea now).2 } = _
  rw [verdict, if_pos hmode]
  by_cases hgranted : granted e.isSuccess e.jResult = true
  · rw [if_pos hgranted, if_pos hgranted, leaves_call, haccounts.accepted]
    rfl
  · rw [if_neg hgranted, if_neg hgranted, leaves_call, haccounts.rejected]
    rfl

theorem leaves_onSubmitReply2 (haccounts : Accounts h account)
    (hmode : s.mode = some .ethereumstratum2) :
    leaves (onSubmitReply2 lib h now e) s = { s with
      pleas := (s.pleas.dequeueResponsePlea now).2
      owner := settle account e.id s.owner (verdict lib s.mode e) } := by
  show leaves (if e.isSuccess then _ else _ : Talk μ Unit) { s with
    pleas := (s.pleas.dequeueResponsePlea now).2 } = _
  rw [verdict, if_neg (not_not.mpr hmode)]
  by_cases hsuccess : e.isSuccess = true
  · rw [if_pos hsuccess, if_pos hsuccess, leaves_call, haccounts.accepted]
    rfl
  · rw [if_neg hsuccess, if_neg hsuccess]
    cases hcode : errCode lib e with
    | error exception => rfl
    | ok code =>
      show leaves (if code = "2".toList then _ else _ : Talk μ Unit) { s with
        pleas := (s.pleas.dequeueResponsePlea now).2 } = _
      by_cases htwo : code = "2".toList
      · rw [if_pos htwo, leaves_call, haccounts.accepted, Except.map, if_pos htwo]
        rfl
      · rw [if_neg htwo, leaves_call, haccounts.rejected, Except.map, if_neg htwo]
        rfl

/-- **A response to a submission** is accounted for as its verdict says, if it has one. -/
theorem leaves_solutionReply (haccounts : Accounts h account)
    (hm : solutionReply? lib s m = some e) :
    leaves (processResponse lib h now m) s = { s with
      pleas := (s.pleas.dequeueResponsePlea now).2
      owner := settle account e.id s.owner (verdict lib s.mode e) } := by
  rw [leaves, processResponse_of_solutionReply lib h now hm, ← leaves]
  by_cases hmode : s.mode = some .ethereumstratum2
  · rw [if_neg (not_not.mpr hmode)]
    exact leaves_onSubmitReply2 lib h now haccounts hmode
  · rw [if_pos hmode]
    exact leaves_onSubmitReply lib h now haccounts hmode

end Accounting

/-! ## What the pool answers

The pool goes by the ids alone, whatever the client makes of its messages. -/

/-- The id and the method of a message. -/
def idAndMethod (lib : Library) (m : Value) :
    Except Jsoncpp.Exception (BitVec 32 × StdString) := do
  let members ← m.members
  let id ← (members.get "id".toList (.int 0)).asUInt
  let method ← (members.get "method".toList (.string [])).asString lib.realText
  return (id, method)

/-- The id that a message answers: it has no method. -/
def answers? (lib : Library) (m : Value) : Option (BitVec 32) :=
  match idAndMethod lib m with
  | .ok (id, []) => some id
  | _ => none

theorem idAndMethod_of_essentials {mode : Option StratumMode}
    (he : essentials lib mode m = .ok e) : ∃ method, idAndMethod lib m = .ok (e.id, method) ∧
      e.isNotification = (method != [] || e.id == 0) := by
  obtain ⟨members, hmembers, he⟩ := except_bind_eq_ok.mp he
  obtain ⟨id, hid, he⟩ := except_bind_eq_ok.mp he
  have hread : ∀ method,
      (members.get "method".toList (.string [])).asString lib.realText = .ok method →
        idAndMethod lib m = .ok (id, method) := fun method hmethod =>
    except_bind_eq_ok.mpr ⟨members, hmembers,
      except_bind_eq_ok.mpr ⟨id, hid, except_bind_eq_ok.mpr ⟨method, hmethod, rfl⟩⟩⟩
  -- the reason of an error is read in between, and forgotten
  dsimp only at he
  split at he
  all_goals
    obtain ⟨reason, -, he⟩ := except_bind_eq_ok.mp he
    obtain ⟨method, hmethod, he⟩ := except_bind_eq_ok.mp he
    refine ⟨method, ?_⟩
    split at he
    all_goals
      obtain rfl := Except.ok.inj he
      exact ⟨hread method hmethod, rfl⟩

theorem answers?_of_solutionReply (hm : solutionReply? lib s m = some e) :
    answers? lib m = some e.id := by
  obtain ⟨he, -, hnote, -, -⟩ := (solutionReply?_eq_some lib).mp hm
  obtain ⟨method, hread, hflag⟩ := idAndMethod_of_essentials lib he
  have hempty : method = [] := by
    rw [hnote, eq_comm, Bool.or_eq_false_iff] at hflag
    simpa using hflag.1
  rw [answers?, hread, hempty]

/-! ## Every other message -/

/-- The maximum stays, and the owner moves within a preorder. -/
def ownerWithin (R : μ → μ → Prop) (hrefl : ∀ o, R o o)
    (htrans : ∀ {o p q}, R o p → R p q → R o q) : Frame (Exchange μ) Abort where
  moves s t := t.solutionSubmittedMaxId = s.solutionSubmittedMaxId ∧ R s.owner t.owner
  throws _ _ := True
  refl s := ⟨rfl, hrefl s.owner⟩
  trans hst htu := ⟨htu.1.trans hst.1, htrans hst.2 htu.2⟩
  back _ _ := trivial

theorem ownerWithin_admits {R : μ → μ → Prop} (hrefl : ∀ o, R o o)
    (htrans : ∀ {o p q}, R o p → R p q → R o q) : Admits (ownerWithin R hrefl htrans) where
  json _ _ := trivial
  std _ _ := trivial
  nullSession _ _ := trivial
  sent s _ := ⟨rfl, hrefl s.owner⟩
  disconnects s := ⟨rfl, hrefl s.owner⟩
  pleas s _ := ⟨rfl, hrefl s.owner⟩
  authpending s _ := ⟨rfl, hrefl s.owner⟩
  session s _ _ := ⟨rfl, hrefl s.owner⟩
  unrecoverable s := ⟨rfl, hrefl s.owner⟩
  confirmed s _ _ := ⟨rfl, hrefl s.owner⟩

/-- **Any other message** leaves the maximum alone, and moves the owner at most by the
handler of `onConnected`. -/
theorem leaves_other {R : μ → μ → Prop} (hrefl : ∀ o, R o o)
    (htrans : ∀ {o p q}, R o p → R p q → R o q) (hconnected : ∀ o, R o (leaves h.onConnected o))
    (hm : solutionReply? lib s m = none) :
    (leaves (processResponse lib h now m) s).solutionSubmittedMaxId = s.solutionSubmittedMaxId ∧
      R s.owner (leaves (processResponse lib h now m) s).owner := by
  cases hjob : jobMessage? lib s m with
  | some obj =>
    rw [leaves, processResponse_of_job lib h now hjob, ← leaves]
    obtain ⟨current, stamp, processed, ht, -⟩ := (processJob_jobOnly lib now obj (s := s)).1
    rw [ht]
    exact ⟨rfl, hrefl s.owner⟩
  | none =>
    have hcall : ∀ t, WithinAt (ownerWithin R hrefl htrans) (call h.onConnected) t := by
      intro t
      refine ⟨?_, fun _ _ => trivial⟩
      rw [leaves_call]
      exact ⟨rfl, hconnected t.owner⟩
    refine (admits_processResponse lib h now (ownerWithin_admits hrefl htrans) ?_ hjob).1
    intro e he hinvalid hnote
    have hnot : 40 ≤ e.id → ¬ e.id ≤ s.solutionSubmittedMaxId := by
      intro hle hmax
      have hsome := (solutionReply?_eq_some lib).mpr ⟨he, hinvalid, hnote, hle, hmax⟩
      rw [hm] at hsome
      cases hsome
    exact ⟨hcall, fun hle hmax => absurd hmax (hnot hle), fun hle hmax => absurd hmax (hnot hle)⟩

end Replies
end Stratum
end FpgaEthash
