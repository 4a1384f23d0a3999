import FpgaEthash.Stratum.ProcessResponse

/-!
# What one message can do

`processResponse` has some thirty branches.  This file goes through them once and says
what a message can do at most.

* `Bound` is what every message keeps: the connection is the same but for the two flags
  that are only ever set, a session is replaced but never taken away, and posted
  disconnections stay posted.
* A message that is no job leaves `m_current` and `m_newjobprocessed` alone as well
  (`Quiet`), never throws the pointer, and meets a null `m_session` only where there
  is none: `processResponse_quiet`.
* A job changes `m_current`, its time stamp and `m_newjobprocessed`, and nothing else
  (`JobOnly`): `processResponse_of_job`, `processJob_jobOnly`.

Which messages are jobs is decided by `jobMessage?`, from the message and the mode.
-/

namespace FpgaEthash
namespace Stratum

open Devcore Ethcore Jsoncpp Pool Throwing Talk

variable {μ : Type}

/-! ## Numbers of modes -/

/-- The number of a mode. -/
def StratumMode.number : StratumMode → ℕ
  | .stratum => 0
  | .ethproxy => 1
  | .ethereumstratum => 2
  | .ethereumstratum2 => 3

theorem StratumMode.ofNumber_eq_some {n : ℕ} {m : StratumMode}
    (h : StratumMode.ofNumber n = some m) : n = m.number := by
  unfold StratumMode.ofNumber at h
  split at h
  all_goals
    first
    | (obtain rfl := Option.some.inj h; rfl)
    | exact nomatch h

/-! ## Frames -/

/-- What every message keeps. -/
structure Bound (s t : Exchange μ) : Prop where
  conn : ∃ c u, t.conn = { s.conn with stratumModeConfirmed := c, unrecoverable := u } ∧
    (s.conn.stratumModeConfirmed = true → c = true) ∧ (s.conn.unrecoverable = true → u = true)
  session : s.session.isSome = true → t.session.isSome = true
  disconnects : s.disconnects ≤ t.disconnects

theorem Bound.refl (s : Exchange μ) : Bound s s := ⟨⟨_, _, rfl, id, id⟩, id, le_rfl⟩

theorem Bound.trans {s t u : Exchange μ} (hst : Bound s t) (htu : Bound t u) : Bound s u := by
  obtain ⟨c, r, hconn, hc, hr⟩ := hst.conn
  obtain ⟨c', r', hconn', hc', hr'⟩ := htu.conn
  rw [hconn] at hconn' hc' hr'
  exact ⟨⟨c', r', hconn', fun h => hc' (hc h), fun h => hr' (hr h)⟩,
    fun h => htu.session (hst.session h), hst.disconnects.trans htu.disconnects⟩

/-- A message that keeps the connection itself. -/
theorem Bound.of_conn_eq {s t : Exchange μ} (hconn : t.conn = s.conn)
    (hsession : s.session.isSome = true → t.session.isSome = true)
    (hdisconnects : s.disconnects ≤ t.disconnects) : Bound s t :=
  ⟨⟨_, _, hconn, id, id⟩, hsession, hdisconnects⟩

theorem Bound.mode {s t : Exchange μ} (h : Bound s t) : t.mode = s.mode := by
  obtain ⟨c, r, hconn, -, -⟩ := h.conn
  rw [Exchange.mode, hconn, Exchange.mode]

theorem Bound.confirmed {s t : Exchange μ} (h : Bound s t)
    (hc : s.conn.stratumModeConfirmed = true) : t.conn.stratumModeConfirmed = true := by
  obtain ⟨c, r, hconn, hc', -⟩ := h.conn
  rw [hconn]
  exact hc' hc

/-- What a message keeps that is no job. -/
structure Quiet (s t : Exchange μ) : Prop extends Bound s t where
  current : t.current = s.current
  newjobprocessed : t.newjobprocessed = s.newjobprocessed

/-- A message that is no job: it stays within `Quiet`, and throws neither the pointer nor,
in a session, on a null `m_session`. -/
def quiet : Frame (Exchange μ) Abort where
  moves := Quiet
  throws s e := e ≠ .exceptionPointer ∧ (e = .nullSession → s.session = none)
  refl s := ⟨.refl s, rfl, rfl⟩
  trans hst htu := ⟨hst.toBound.trans htu.toBound, htu.current.trans hst.current,
    htu.newjobprocessed.trans hst.newjobprocessed⟩
  back := by
    rintro s t e hst ⟨hpointer, hnull⟩
    refine ⟨hpointer, fun he => ?_⟩
    cases hs : s.session with
    | none => rfl
    | some session =>
      have ht := hst.session (by rw [hs]; rfl)
      rw [hnull he] at ht
      exact nomatch ht

/-- What a job changes. -/
def JobOnly (s t : Exchange μ) : Prop :=
  ∃ current currentTimestamp newjobprocessed,
    t = { s with current, currentTimestamp, newjobprocessed } ∧
      (s.newjobprocessed = true → newjobprocessed = true)

theorem JobOnly.bound {s t : Exchange μ} (h : JobOnly s t) : Bound s t := by
  obtain ⟨c, τ, n, rfl, -⟩ := h
  exact .of_conn_eq rfl id le_rfl

/-- A job: it stays within `JobOnly`, and never meets a null `m_session`. -/
def jobOnly : Frame (Exchange μ) Abort where
  moves := JobOnly
  throws _ e := e ≠ .nullSession
  refl s := ⟨_, _, _, rfl, id⟩
  trans := by
    rintro s t u ⟨c, τ, n, rfl, hn⟩ ⟨c', τ', n', rfl, hn'⟩
    exact ⟨c', τ', n', rfl, fun h => hn' (hn h)⟩
  back _ h := h

/-! ## The operations

What a message is made of is the same for every frame: `Admits` lists it, and the functions
of `processResponse` are gone through once, for any frame that admits it. -/

/-- The frame admits what a message is made of, the handlers of the owner apart. -/
structure Admits (F : Frame (Exchange μ) Abort) : Prop where
  json : ∀ s e, F.throws s (.json e)
  std : ∀ s e, F.throws s (.std e)
  nullSession : ∀ s, s.session = none → F.throws s .nullSession
  sent : ∀ s sent, F.moves s { s with sent }
  disconnects : ∀ s, F.moves s { s with disconnects := s.disconnects + 1 }
  pleas : ∀ s pleas, F.moves s { s with pleas }
  authpending : ∀ s authpending, F.moves s { s with authpending }
  session : ∀ s session currentTimestamp,
    F.moves s { s with session := some session, currentTimestamp }
  unrecoverable : ∀ s, F.moves s { s with conn := s.conn.markUnrecoverable }
  confirmed : ∀ s (m : StratumMode), s.mode = some m →
    F.moves s { s with conn := s.conn.setStratumMode m.number true }

theorem quiet_admits : Admits (quiet (μ := μ)) where
  json _ _ := ⟨nofun, nofun⟩
  std _ _ := ⟨nofun, nofun⟩
  nullSession _ hs := ⟨nofun, fun _ => hs⟩
  sent _ _ := ⟨.of_conn_eq rfl id le_rfl, rfl, rfl⟩
  disconnects _ := ⟨.of_conn_eq rfl id (Nat.le_succ _), rfl, rfl⟩
  pleas _ _ := ⟨.of_conn_eq rfl id le_rfl, rfl, rfl⟩
  authpending _ _ := ⟨.of_conn_eq rfl id le_rfl, rfl, rfl⟩
  session _ _ _ := ⟨.of_conn_eq rfl (fun _ => rfl) le_rfl, rfl, rfl⟩
  unrecoverable _ := ⟨⟨⟨_, _, rfl, id, fun _ => rfl⟩, id, le_rfl⟩, rfl, rfl⟩
  confirmed s m hm := by
    refine ⟨⟨⟨true, s.conn.unrecoverable, ?_, fun _ => rfl, id⟩, id, le_rfl⟩, rfl, rfl⟩
    rw [← StratumMode.ofNumber_eq_some hm]
    rfl

theorem quiet_call {s : Exchange μ} (x : EStateM StdException μ Unit) :
    WithinAt quiet (call x) s := by
  cases hx : x s.owner with
  | ok a owner =>
    have hcall : call x s = .ok () { s with owner } := by rw [call, hx]
    exact withinAt_of_ok hcall ⟨.of_conn_eq rfl id le_rfl, rfl, rfl⟩
  | error e owner =>
    have hcall : call x s = .error (.std e) { s with owner } := by rw [call, hx]
    exact withinAt_of_error hcall ⟨.of_conn_eq rfl id le_rfl, rfl, rfl⟩ (quiet_admits.std s e)

section Operations

variable {F : Frame (Exchange μ) Abort} {s : Exchange μ}

theorem admits_ofJson_bind (hF : Admits F) {α β : Type} {y : Except Jsoncpp.Exception α}
    {k : α → Talk μ β} (hk : ∀ a, y = .ok a → WithinAt F (k a) s) :
    WithinAt F (ofJson y >>= k) s :=
  withinAt_ofExcept_bind (hF.json s) hk

theorem admits_ofStd_bind (hF : Admits F) {α β : Type} {y : Except StdException α}
    {k : α → Talk μ β} (hk : ∀ a, y = .ok a → WithinAt F (k a) s) :
    WithinAt F (ofStd y >>= k) s :=
  withinAt_ofExcept_bind (hF.std s) hk

theorem admits_send (hF : Admits F) (jReq : Value) : WithinAt F (send jReq) s :=
  withinAt_modify (hF.sent s _)

theorem admits_postDisconnect (hF : Admits F) : WithinAt F postDisconnect s :=
  withinAt_modify (hF.disconnects s)

theorem admits_enqueue (hF : Admits F) (now : TimePoint) :
    WithinAt F (enqueueResponsePlea now) s :=
  withinAt_modify (hF.pleas s _)

theorem admits_dequeue (hF : Admits F) (now : TimePoint) :
    WithinAt F (dequeueResponsePlea now) s :=
  withinAt_of_ok rfl (hF.pleas s _)

theorem admits_setAuthpending (hF : Admits F) (pending : Bool) :
    WithinAt F (setAuthpending pending) s :=
  withinAt_modify (hF.authpending s _)

theorem admits_markUnrecoverable (hF : Admits F) : WithinAt F markUnrecoverable s :=
  withinAt_modify (hF.unrecoverable s)

/-- Confirming the mode that is being tested. -/
theorem admits_confirmStratumMode (hF : Admits F) {m : StratumMode} (hm : s.mode = some m) :
    WithinAt F (confirmStratumMode m.number) s :=
  withinAt_modify (hF.confirmed s m hm)

theorem admits_withSession (hF : Admits F) (f : LiveSession → LiveSession) :
    WithinAt F (withSession f) s := by
  cases hs : s.session with
  | none =>
    have hx : withSession f s = .error .nullSession s := by rw [withSession, hs]
    exact withinAt_of_error hx (F.refl s) (hF.nullSession s hs)
  | some session =>
    have hx : withSession f s = .ok () { s with session := some (f session) } := by
      rw [withSession, hs]
    exact withinAt_of_ok hx (hF.session s _ _)

theorem admits_onSession (hF : Admits F) (x : EStateM StdException Session Unit) :
    WithinAt F (onSession x) s := by
  cases hs : s.session with
  | none =>
    have hx : onSession x s = .error .nullSession s := by rw [onSession, hs]
    exact withinAt_of_error hx (F.refl s) (hF.nullSession s hs)
  | some session =>
    cases hrun : x session.toSession with
    | ok a next =>
      have hx : onSession x s =
          .ok () { s with session := some { session with toSession := next } } := by
        rw [onSession, hs]
        dsimp only
        rw [hrun]
      exact withinAt_of_ok hx (hF.session s _ _)
    | error e next =>
      have hx : onSession x s =
          .error (.std e) { s with session := some { session with toSession := next } } := by
        rw [onSession, hs]
        dsimp only
        rw [hrun]
      exact withinAt_of_error hx (hF.session s _ _) (hF.std s e)

theorem admits_startSession (hF : Admits F) {h : Handlers μ}
    (hconnected : ∀ t, WithinAt F (call h.onConnected) t) (now : TimePoint) :
    WithinAt F (startSession h now) s :=
  withinAt_modify_bind (hF.session s _ _) (hconnected _)

end Operations

/-! ## Notifications -/

section Notifications

variable {F : Frame (Exchange μ) Abort} (hF : Admits F) {s : Exchange μ}

include hF

theorem admits_setExtranonce (enonce : StdString) : WithinAt F (setExtranonce enonce) s := by
  unfold setExtranonce
  split_ifs
  · exact withinAt_pure ()
  · exact admits_onSession hF _

theorem admits_onSetDifficulty (lib : Library) (obj : Value.Members) :
    WithinAt F (onSetDifficulty lib obj) s := by
  unfold onSetDifficulty
  dsimp only
  split_ifs
  · refine admits_ofJson_bind hF fun difficulty _ => admits_ofStd_bind hF fun boundary _ => ?_
    exact admits_withSession hF _
  · exact withinAt_pure ()

theorem admits_onSetExtranonce (lib : Library) (obj : Value.Members) :
    WithinAt F (onSetExtranonce lib obj) s := by
  unfold onSetExtranonce
  dsimp only
  split_ifs
  · exact admits_ofJson_bind hF fun enonce _ => admits_setExtranonce hF enonce
  · exact withinAt_pure ()

/-- A text that is read if it is not empty, and stored in the session. -/
theorem admits_store {α : Type} (text : StdString) (read : StdString → Except StdException α)
    (f : α → LiveSession → LiveSession) :
    WithinAt F
      (if text = [] then pure () else ofStd (read text) >>= fun a => withSession (f a)) s := by
  split_ifs
  · exact withinAt_pure ()
  · exact admits_ofStd_bind hF fun a _ => admits_withSession hF _

theorem admits_onSet (lib : Library) (obj : Value.Members) : WithinAt F (onSet lib obj) s := by
  unfold onSet
  split
  · refine withinAt_bind (admits_withSession hF _) fun _ t => ?_
    refine admits_ofJson_bind hF fun timeout _ => admits_ofJson_bind hF fun epoch _ =>
      admits_ofJson_bind hF fun target _ => ?_
    refine withinAt_bind (admits_store hF timeout stoi _) fun _ t => ?_
    refine withinAt_bind (admits_store hF epoch stoull _) fun _ t => ?_
    refine withinAt_bind (admits_store hF target (fun text => FixedHash.ofString 32 _) _)
      fun _ t => ?_
    refine admits_ofJson_bind hF fun algo _ => withinAt_bind (admits_withSession hF _) fun _ t => ?_
    exact admits_ofJson_bind hF fun enonce _ => admits_setExtranonce hF enonce
  · exact withinAt_pure ()

end Notifications

/-! ## Replies -/

section Replies

variable {F : Frame (Exchange μ) Abort} (hF : Admits F) {s : Exchange μ}

include hF

theorem admits_giveUp : WithinAt F (markUnrecoverable >>= fun _ => postDisconnect) s :=
  withinAt_bind (admits_markUnrecoverable hF) fun _ _ => admits_postDisconnect hF

theorem admits_negotiationFailed : WithinAt F negotiationFailed s := by
  refine withinAt_get_bind ?_
  split_ifs
  · exact admits_giveUp hF
  · exact admits_postDisconnect hF

theorem admits_requestAuthorization (now : TimePoint) (jsonrpc : Bool) :
    WithinAt F (setAuthpending true >>= fun _ => enqueueResponsePlea now >>= fun _ =>
      get >>= fun s => send (authorizeRequest s.conn jsonrpc)) s := by
  refine withinAt_bind (admits_setAuthpending hF _) fun _ t => ?_
  refine withinAt_bind (admits_enqueue hF now) fun _ t => ?_
  exact withinAt_get_bind (admits_send hF _)

theorem admits_onHello (lib : Library) {h : Handlers μ}
    (hconnected : ∀ t, WithinAt F (call h.onConnected) t) (now : TimePoint) (jResult : Value)
    (hm : s.mode = some .ethereumstratum2) : WithinAt F (onHello lib h now jResult) s := by
  refine admits_ofJson_bind hF fun hello _ => ?_
  cases hello with
  | false => exact admits_negotiationFailed hF
  | true =>
    refine withinAt_bind (admits_confirmStratumMode hF hm) fun _ t => ?_
    refine withinAt_bind (admits_startSession hF hconnected now) fun _ t => ?_
    exact withinAt_bind (admits_enqueue hF now) fun _ t => admits_send hF _

theorem admits_onSubscribe1 (lib : Library) {h : Handlers μ}
    (hconnected : ∀ t, WithinAt F (call h.onConnected) t) (now : TimePoint) (jResult : Value)
    (hm : s.mode = some .ethereumstratum) :
    WithinAt F (onSubscribe1 lib h now jResult) s := by
  refine admits_ofJson_bind hF fun subscription _ => ?_
  cases subscription with
  | false => exact admits_negotiationFailed hF
  | true =>
    refine withinAt_bind (admits_confirmStratumMode hF hm) fun _ t => ?_
    refine withinAt_bind (admits_startSession hF hconnected now) fun _ t => ?_
    refine withinAt_bind (admits_withSession hF _) fun _ t => ?_
    refine withinAt_bind (admits_send hF _) fun _ t => ?_
    refine admits_ofJson_bind hF fun enonce _ => ?_
    refine withinAt_bind (admits_setExtranonce hF enonce) fun _ t => ?_
    exact admits_requestAuthorization hF now false

theorem admits_onSubmitLogin {h : Handlers μ}
    (hconnected : ∀ t, WithinAt F (call h.onConnected) t) (now : TimePoint) (isSuccess : Bool)
    (hm : s.mode = some .ethproxy) : WithinAt F (onSubmitLogin h now isSuccess) s := by
  cases isSuccess with
  | false => exact admits_negotiationFailed hF
  | true =>
    refine withinAt_bind (admits_confirmStratumMode hF hm) fun _ t => ?_
    refine withinAt_bind (admits_startSession hF hconnected now) fun _ t => ?_
    refine withinAt_bind (admits_withSession hF _) fun _ t => ?_
    exact withinAt_bind (admits_withSession hF _) fun _ t => admits_send hF _

theorem admits_onSubscribe0 {h : Handlers μ}
    (hconnected : ∀ t, WithinAt F (call h.onConnected) t) (now : TimePoint) (isSuccess : Bool)
    (hm : s.mode = some .stratum) : WithinAt F (onSubscribe0 h now isSuccess) s := by
  cases isSuccess with
  | false => exact admits_negotiationFailed hF
  | true =>
    refine withinAt_bind (admits_confirmStratumMode hF hm) fun _ t => ?_
    refine withinAt_bind (admits_startSession hF hconnected now) fun _ t => ?_
    exact withinAt_bind (admits_withSession hF _) fun _ t =>
      admits_requestAuthorization hF now true

theorem admits_onLoginReply (lib : Library) {h : Handlers μ}
    (hconnected : ∀ t, WithinAt F (call h.onConnected) t) (now : TimePoint) (isSuccess : Bool)
    (jResult : Value) : WithinAt F (onLoginReply lib h now isSuccess jResult) s := by
  refine withinAt_bind (admits_dequeue hF now) fun _ t => withinAt_get_bind ?_
  split
  · exact admits_postDisconnect hF
  · split
    · next hm => exact admits_onHello hF lib hconnected now jResult hm
    · next hm => exact admits_onSubscribe1 hF lib hconnected now jResult hm
    · next hm => exact admits_onSubmitLogin hF hconnected now isSuccess hm
    · next hm => exact admits_onSubscribe0 hF hconnected now isSuccess hm
    · exact admits_send hF _

theorem admits_onSubscribeReply (now : TimePoint) (jResult : Value) :
    WithinAt F (onSubscribeReply now jResult) s := by
  refine withinAt_bind (admits_dequeue hF now) fun _ t => ?_
  split
  · refine withinAt_bind (admits_withSession hF _) fun _ t => ?_
    exact withinAt_bind (admits_withSession hF _) fun _ t =>
      admits_requestAuthorization hF now false
  · exact admits_giveUp hF

theorem admits_onAuthorizeReply (now : TimePoint) (isSuccess : Bool) (jResult : Value) :
    WithinAt F (onAuthorizeReply now isSuccess jResult) s := by
  refine withinAt_bind (admits_dequeue hF now) fun _ t => ?_
  refine withinAt_bind (admits_setAuthpending hF _) fun _ t => ?_
  refine withinAt_bind (admits_withSession hF _) fun _ t => ?_
  split
  · exact withinAt_pure ()
  · exact admits_giveUp hF

theorem admits_onAuthorizeReply2 (now : TimePoint) (isSuccess : Bool) (jResult : Value) :
    WithinAt F (onAuthorizeReply2 now isSuccess jResult) s := by
  refine withinAt_bind (admits_dequeue hF now) fun _ t => ?_
  split
  · refine withinAt_bind (admits_setAuthpending hF _) fun _ t => ?_
    exact withinAt_bind (admits_withSession hF _) fun _ t => admits_withSession hF _
  · exact admits_giveUp hF

theorem admits_on999 (isSuccess : Bool) : WithinAt F (on999 isSuccess) s := by
  refine withinAt_get_bind ?_
  split_ifs
  all_goals
    first
    | exact admits_postDisconnect hF
    | exact withinAt_pure ()

end Replies

section Submissions

variable {s : Exchange μ}

theorem quiet_onSubmitReply (h : Handlers μ) (now : TimePoint) (e : Essentials) :
    WithinAt quiet (onSubmitReply h now e) s := by
  refine withinAt_bind (admits_dequeue quiet_admits now) fun delay t => ?_
  dsimp only
  split_ifs
  · exact quiet_call _
  · exact quiet_call _

theorem quiet_onSubmitReply2 (lib : Library) (h : Handlers μ) (now : TimePoint)
    (e : Essentials) : WithinAt quiet (onSubmitReply2 lib h now e) s := by
  refine withinAt_bind (admits_dequeue quiet_admits now) fun delay t => ?_
  dsimp only
  split_ifs
  · exact quiet_call _
  · refine admits_ofJson_bind quiet_admits fun code _ => ?_
    split_ifs
    · exact quiet_call _
    · exact quiet_call _

end Submissions

/-! ## Jobs -/

section Jobs

variable {s : Exchange μ}

theorem jobOnly_ofJson_bind {α β : Type} {y : Except Jsoncpp.Exception α} {k : α → Talk μ β}
    (hk : ∀ a, y = .ok a → WithinAt jobOnly (k a) s) : WithinAt jobOnly (ofJson y >>= k) s :=
  withinAt_ofExcept_bind (fun e => (nofun : Abort.json e ≠ .nullSession)) hk

theorem jobOnly_ofStd_bind {α β : Type} {y : Except StdException α} {k : α → Talk μ β}
    (hk : ∀ a, y = .ok a → WithinAt jobOnly (k a) s) : WithinAt jobOnly (ofStd y >>= k) s :=
  withinAt_ofExcept_bind (fun e => (nofun : Abort.std e ≠ .nullSession)) hk

/-- A new value of `m_current`. -/
theorem jobOnly_moves_current (current : WorkPackage) :
    (jobOnly (μ := μ)).moves s { s with current } := ⟨_, _, _, rfl, id⟩

theorem jobOnly_onCurrent (x : EStateM StdException WorkPackage Unit) :
    WithinAt jobOnly (onCurrent x) s := by
  cases hx : x s.current with
  | ok a current =>
    have hrun : onCurrent x s = .ok () { s with current } := by rw [onCurrent, hx]
    exact withinAt_of_ok hrun (jobOnly_moves_current current)
  | error e current =>
    have hrun : onCurrent x s = .error (.std e) { s with current } := by rw [onCurrent, hx]
    exact withinAt_of_error hrun (jobOnly_moves_current current)
      (nofun : Abort.std e ≠ .nullSession)

theorem jobOnly_jobProcessed (now : TimePoint) : WithinAt jobOnly (jobProcessed now) s :=
  withinAt_modify ⟨_, _, _, rfl, fun _ => rfl⟩

theorem jobOnly_readBlock (lib : Library) (mode : Option StratumMode) (jPrm : Value)
    (prmIdx : ℕ) : WithinAt jobOnly (readBlock lib mode jPrm prmIdx) s := by
  unfold readBlock
  split_ifs
  · refine jobOnly_ofJson_bind fun text _ => ?_
    split_ifs
    · split
      · exact withinAt_modify (jobOnly_moves_current _)
      · refine withinAt_modify_bind (jobOnly_moves_current _) ?_
        split_ifs
        · exact withinAt_throw (nofun : Abort.exceptionPointer ≠ .nullSession)
        · exact withinAt_pure ()
    · exact withinAt_pure ()
  · exact withinAt_pure ()

theorem jobOnly_readJob0 (lib : Library) (now : TimePoint) (mode : Option StratumMode)
    (jPrm : Value) (prmIdx : ℕ) : WithinAt jobOnly (readJob0 lib now mode jPrm prmIdx) s := by
  refine jobOnly_ofJson_bind fun texts _ => ?_
  refine withinAt_modify_bind (jobOnly_moves_current _) ?_
  refine withinAt_bind (jobOnly_readBlock ..) fun _ t => ?_
  exact withinAt_bind (jobOnly_onCurrent _) fun _ t => jobOnly_jobProcessed now

theorem jobOnly_readJob1 (lib : Library) (now : TimePoint) (session : Session) (jPrm : Value) :
    WithinAt jobOnly (readJob1 lib now session jPrm) s := by
  refine jobOnly_ofJson_bind fun seed _ => jobOnly_ofJson_bind fun header _ => ?_
  split_ifs
  · exact withinAt_bind (jobOnly_onCurrent _) fun _ t => jobOnly_jobProcessed now
  · exact withinAt_pure ()

theorem jobOnly_readJob (lib : Library) (now : TimePoint) (mode : Option StratumMode)
    (session : Session) (jPrm : Value) (prmIdx : ℕ) :
    WithinAt jobOnly (readJob lib now mode session jPrm prmIdx) s := by
  refine jobOnly_ofJson_bind fun job _ => ?_
  refine withinAt_modify_bind (jobOnly_moves_current _) ?_
  split_ifs
  · exact jobOnly_readJob1 ..
  · exact jobOnly_readJob0 ..

theorem jobOnly_onNotify (lib : Library) (now : TimePoint) (obj : Value.Members) :
    WithinAt jobOnly (onNotify lib now obj) s := by
  refine withinAt_get_bind ?_
  split
  · exact withinAt_pure ()
  · dsimp only
    split_ifs
    · exact withinAt_pure ()
    · exact jobOnly_readJob ..
    · exact withinAt_pure ()

theorem jobOnly_readJob2 (lib : Library) (now : TimePoint) (session : Session) (jPrm : Value) :
    WithinAt jobOnly (readJob2 lib now session jPrm) s := by
  refine jobOnly_ofJson_bind fun job _ => ?_
  refine withinAt_modify_bind (jobOnly_moves_current _) ?_
  refine jobOnly_ofJson_bind fun text _ => jobOnly_ofStd_bind fun block _ => ?_
  refine withinAt_modify_bind (jobOnly_moves_current _) ?_
  refine jobOnly_ofJson_bind fun header _ => ?_
  exact withinAt_bind (jobOnly_onCurrent _) fun _ t => jobOnly_jobProcessed now

theorem jobOnly_onNotify2 (lib : Library) (now : TimePoint) (obj : Value.Members) :
    WithinAt jobOnly (onNotify2 lib now obj) s := by
  refine withinAt_get_bind ?_
  split
  · exact withinAt_pure ()
  · dsimp only
    split_ifs
    · exact withinAt_pure ()
    · exact withinAt_pure ()
    · exact jobOnly_readJob2 ..

/-- A job in a session. -/
theorem onNotify_of_session (lib : Library) (now : TimePoint) (obj : Value.Members)
    {session : LiveSession} (hs : s.session = some session) :
    onNotify lib now obj s =
      (if !session.subscribed || s.newjobprocessed then pure ()
        else if (jobParams s.mode obj).1.isArray && !(jobParams s.mode obj).1.empty then
          readJob lib now s.mode session.toSession (jobParams s.mode obj).1
            (jobParams s.mode obj).2
        else pure () : Talk μ Unit) s := by
  unfold onNotify
  simp only [get_bind, hs]

theorem onNotify_of_none (lib : Library) (now : TimePoint) (obj : Value.Members)
    (hs : s.session = none) : onNotify lib now obj s = .ok () s := by
  unfold onNotify
  simp only [get_bind, hs]
  rfl

/-- A job of EthereumStratum/2.0.0 in a session. -/
theorem onNotify2_of_session (lib : Library) (now : TimePoint) (obj : Value.Members)
    {session : LiveSession} (hs : s.session = some session) :
    onNotify2 lib now obj s =
      (if !session.firstMiningSet then pure ()
        else if !(obj.item "params".toList).isArray || (obj.item "params".toList).size != 4 then
          pure ()
        else readJob2 lib now session.toSession (obj.item "params".toList) : Talk μ Unit) s := by
  unfold onNotify2
  simp only [get_bind, hs]

theorem onNotify2_of_none (lib : Library) (now : TimePoint) (obj : Value.Members)
    (hs : s.session = none) : onNotify2 lib now obj s = .ok () s := by
  unfold onNotify2
  simp only [get_bind, hs]
  rfl

end Jobs

/-! ## The whole function -/

/-- The members of the message, if it gets to the branch of `mining.notify`. -/
def jobMessage? (lib : Library) (s : Exchange μ) (m : Value) : Option Value.Members :=
  match essentials lib s.mode m with
  | .error _ => none
  | .ok e =>
    if e.invalid || !s.conn.stratumModeConfirmed then none
    else if e.isNotification then
      if e.method = "mining.notify".toList then some e.checked else none
    else if e.id = 5 ∧ s.mode = some .ethproxy ∧ e.jResult.isArray then some e.checked
    else none

/-- The branch of `mining.notify`, in the mode of the client. -/
def processJob (lib : Library) (now : TimePoint) (obj : Value.Members) : Talk μ Unit := do
  let s ← get
  if s.mode = some .ethereumstratum2 then onNotify2 lib now obj else onNotify lib now obj

section Whole

variable (lib : Library) (h : Handlers μ) (now : TimePoint) {s : Exchange μ} {m : Value}

theorem processNotification_notify {e : Essentials} (hc : s.conn.stratumModeConfirmed = true)
    (he : e.method = "mining.notify".toList) :
    processNotification lib now e s = processJob lib now e.checked s := by
  show (if s.conn.stratumModeConfirmed = true then _ else _ : Talk μ Unit) s =
    (if s.mode = some .ethereumstratum2 then _ else _ : Talk μ Unit) s
  rw [if_pos hc]
  by_cases hm : s.mode = some .ethereumstratum2
  · rw [if_neg (fun hand => hand.2 hm), if_pos he, if_pos hm]
  · rw [if_pos ⟨he, hm⟩, if_neg hm]

theorem admits_processNotification {F : Frame (Exchange μ) Abort} (hF : Admits F)
    {e : Essentials}
    (he : s.conn.stratumModeConfirmed = true → e.method ≠ "mining.notify".toList) :
    WithinAt F (processNotification lib now e) s := by
  refine withinAt_get_bind ?_
  refine notification_cases (P := fun x => WithinAt F x s) lib now e s ?_ ?_ ?_ ?_ ?_ ?_ ?_ ?_
  · exact fun hc hmethod => absurd hmethod (he hc)
  · exact fun hc hmethod => absurd hmethod (he hc)
  · exact admits_onSetDifficulty hF ..
  · exact fun _ _ => admits_onSetExtranonce hF ..
  · exact fun _ _ => admits_onSet hF ..
  · exact admits_postDisconnect hF
  · exact fun jReq => admits_send hF jReq
  · exact withinAt_pure ()

/-- The handlers of the owner stay within the frame where a message calls them. -/
structure AdmitsHandlers (F : Frame (Exchange μ) Abort) (s : Exchange μ) (e : Essentials) :
    Prop where
  connected : ∀ t, WithinAt F (call h.onConnected) t
  submitReply : 40 ≤ e.id → e.id ≤ s.solutionSubmittedMaxId → WithinAt F (onSubmitReply h now e) s
  submitReply2 : 40 ≤ e.id → e.id ≤ s.solutionSubmittedMaxId →
    WithinAt F (onSubmitReply2 lib h now e) s

theorem admits_processReply {F : Frame (Exchange μ) Abort} (hF : Admits F) {e : Essentials}
    (hhandlers : AdmitsHandlers lib h now F s e)
    (he : e.id = 5 → s.mode = some .ethproxy → e.jResult.isArray = true →
      s.conn.stratumModeConfirmed = false) :
    WithinAt F (processReply lib h now e) s := by
  refine withinAt_get_bind ?_
  refine reply_cases (P := fun x => WithinAt F x s) lib h now e s ?_ ?_ ?_ ?_
    hhandlers.submitReply hhandlers.submitReply2 ?_ ?_ ?_
  · exact fun _ => admits_onLoginReply hF lib hhandlers.connected ..
  · exact admits_onSubscribeReply hF ..
  · exact admits_onAuthorizeReply hF ..
  · exact admits_onAuthorizeReply2 hF ..
  · intro h5 hmode harray
    refine admits_processNotification lib now hF fun hc => ?_
    rw [he h5 hmode harray] at hc
    cases hc
  · exact admits_on999 hF _
  · exact withinAt_pure ()

/-- The response to the first get_work request. -/
theorem processReply_of_five {e : Essentials} (h5 : e.id = 5) (hmode : s.mode = some .ethproxy)
    (harray : e.jResult.isArray = true) :
    processReply lib h now e s =
      processNotification lib now { e with method := "mining.notify".toList } s := by
  show (if e.id = 1 then _ else _ : Talk μ Unit) s = _
  simp [h5, hmode, harray]

/-- **A message that is no job** stays within every frame that admits what it is made of. -/
theorem admits_processResponse {F : Frame (Exchange μ) Abort} (hF : Admits F)
    (hhandlers : ∀ e, essentials lib s.mode m = .ok e → e.invalid = false →
      e.isNotification = false → AdmitsHandlers lib h now F s e)
    (hm : jobMessage? lib s m = none) : WithinAt F (processResponse lib h now m) s := by
  refine withinAt_get_bind (admits_ofJson_bind hF fun e he => ?_)
  rw [jobMessage?, he] at hm
  dsimp only at hm
  split_ifs with hinvalid hnote
  · exact admits_postDisconnect hF
  · refine admits_processNotification lib now hF fun hc hnotify => ?_
    rw [if_neg (by simp [hinvalid, hc]), if_pos hnote, if_pos hnotify] at hm
    exact nomatch hm
  · refine admits_processReply lib h now hF
      (hhandlers e he (Bool.eq_false_iff.mpr hinvalid) (Bool.eq_false_iff.mpr hnote))
      fun h5 hmode harray => ?_
    by_contra hc
    rw [Bool.not_eq_false] at hc
    rw [if_neg (by simp [hinvalid, hc]), if_neg hnote, if_pos ⟨h5, hmode, harray⟩] at hm
    exact nomatch hm

theorem processResponse_quiet (hm : jobMessage? lib s m = none) :
    WithinAt quiet (processResponse lib h now m) s :=
  admits_processResponse lib h now quiet_admits
    (fun _ _ _ _ => ⟨fun _ => quiet_call _, fun _ _ => quiet_onSubmitReply ..,
      fun _ _ => quiet_onSubmitReply2 ..⟩) hm

/-- **A message that is a job** is processed by the branch of `mining.notify`. -/
theorem processResponse_of_job {obj : Value.Members} (hm : jobMessage? lib s m = some obj) :
    processResponse lib h now m s = processJob lib now obj s := by
  unfold jobMessage? at hm
  split at hm
  · exact nomatch hm
  · next e he =>
      have hrun : processResponse lib h now m s =
          (if e.invalid then postDisconnect
            else if e.isNotification then processNotification lib now e
            else processReply lib h now e : Talk μ Unit) s := by
        show (ofJson (essentials lib s.mode m) >>= _ : Talk μ Unit) s = _
        rw [he]
        rfl
      split_ifs at hm with hflags hnote hnotify h5
      · obtain rfl := Option.some.inj hm
        simp only [Bool.or_eq_true, Bool.not_eq_true', not_or, Bool.not_eq_false] at hflags
        rw [hrun, if_neg hflags.1, if_pos hnote]
        exact processNotification_notify lib now hflags.2 hnotify
      · obtain rfl := Option.some.inj hm
        simp only [Bool.or_eq_true, Bool.not_eq_true', not_or, Bool.not_eq_false] at hflags
        rw [hrun, if_neg hflags.1, if_neg hnote, processReply_of_five lib h now h5.1 h5.2.1 h5.2.2]
        exact processNotification_notify lib now hflags.2 rfl

/-- **A job** changes `m_current` and its flags at most. -/
theorem processJob_jobOnly (obj : Value.Members) : WithinAt jobOnly (processJob lib now obj) s := by
  refine withinAt_get_bind ?_
  split_ifs
  · exact jobOnly_onNotify2 ..
  · exact jobOnly_onNotify ..

/-- **Every message stays within `Bound`.** -/
theorem processResponse_bound : Bound s (leaves (processResponse lib h now m) s) := by
  cases hm : jobMessage? lib s m with
  | none => exact (processResponse_quiet lib h now hm).1.toBound
  | some obj =>
    rw [leaves, processResponse_of_job lib h now hm]
    exact (processJob_jobOnly lib now obj).1.bound

end Whole

end Stratum
end FpgaEthash
