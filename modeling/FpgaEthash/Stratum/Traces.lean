import FpgaEthash.Computation.TwoRuns
import FpgaEthash.Pool.Manager
import FpgaEthash.Stratum.Notice

/-!
# What later messages can notice of earlier ones

A package is made of a job and of the session.  Which of them are made depends on the
connection and on `m_newjobprocessed`, and what becomes of them on the owner.  This is
the `view`.  The times, the pleas, the requests sent, the disconnections posted and what
is left in `m_current` are not in it.

* `alike_processResponse`: what a message does to the view depends on the view alone.
* `undone_processResponse`: a message that is left by an exception has not changed the
  view, if it is `Clean`.  The messages that need not be are those that write to the session
  piece by piece: `mining.set`, `mining.set_extranonce`, and the reply that brings an
  extranonce.

Both go through the branches of `processResponse` once.
-/

namespace FpgaEthash
namespace Stratum

open Devcore Ethcore Jsoncpp Pool Throwing Talk TwoRuns

variable {μ : Type}

/-! ## The view -/

/-- What packages are made of. -/
def view (s : Exchange μ) : Uri × Option LiveSession × Bool × BitVec 32 × μ :=
  (s.conn, s.session, s.newjobprocessed, s.solutionSubmittedMaxId, s.owner)

theorem view_eq_iff {s t : Exchange μ} :
    view s = view t ↔ s.conn = t.conn ∧ s.session = t.session ∧
      s.newjobprocessed = t.newjobprocessed ∧
      s.solutionSubmittedMaxId = t.solutionSubmittedMaxId ∧ s.owner = t.owner := by
  simp only [view, Prod.mk.injEq]

theorem mode_of_view {s t : Exchange μ} (h : view s = view t) : s.mode = t.mode := by
  rw [Exchange.mode, (view_eq_iff.mp h).1, Exchange.mode]

/-- The owner does not throw, and does not look at the delay of a response. -/
structure Tame (h : Handlers μ) : Prop where
  connected : ∀ owner, thrown h.onConnected owner = none
  accepted : ∀ delay miner stale, h.onSolutionAccepted delay miner stale = pure ()
  rejected : ∀ delay miner, h.onSolutionRejected delay miner = pure ()

theorem PoolManager.handlers_tame (findEpochNumber : H256 → ℤ) :
    Tame (PoolManager.handlers findEpochNumber) where
  connected _ := rfl
  accepted _ _ _ := rfl
  rejected _ _ := rfl

/-! ## The operations -/

section Operations

theorem alike_send (jReq : Value) : Alike view (send jReq : Talk μ Unit) :=
  alike_modify fun _ _ h => h

theorem alike_postDisconnect : Alike view (postDisconnect : Talk μ Unit) :=
  alike_modify fun _ _ h => h

theorem alike_enqueueResponsePlea (now : TimePoint) :
    Alike view (enqueueResponsePlea now : Talk μ Unit) := alike_modify fun _ _ h => h

theorem alike_setAuthpending (pending : Bool) :
    Alike view (setAuthpending pending : Talk μ Unit) := alike_modify fun _ _ h => h

theorem alike_jobProcessed (now : TimePoint) : Alike view (jobProcessed now : Talk μ Unit) := by
  refine alike_modify fun s t h => ?_
  obtain ⟨hconn, hsession, -, hmax, howner⟩ := view_eq_iff.mp h
  exact view_eq_iff.mpr ⟨hconn, hsession, rfl, hmax, howner⟩

theorem alike_markUnrecoverable : Alike view (markUnrecoverable : Talk μ Unit) := by
  refine alike_modify fun s t h => ?_
  obtain ⟨hconn, hrest⟩ := view_eq_iff.mp h
  exact view_eq_iff.mpr ⟨congrArg Uri.markUnrecoverable hconn, hrest⟩

theorem alike_confirmStratumMode (mode : ℕ) :
    Alike view (confirmStratumMode mode : Talk μ Unit) := by
  refine alike_modify fun s t h => ?_
  obtain ⟨hconn, hrest⟩ := view_eq_iff.mp h
  exact view_eq_iff.mpr ⟨congrArg (·.setStratumMode mode true) hconn, hrest⟩

/-- The delay of a response that nobody looks at. -/
theorem alike_dequeueResponsePlea_bind (now : TimePoint) {k : ℤ → Talk μ Unit}
    {l : Talk μ Unit} (hk : ∀ delay, k delay = l) (halike : Alike view l) :
    Alike view (dequeueResponsePlea now >>= k) := by
  refine ⟨fun s t h => ?_⟩
  show shows view (k _) { s with pleas := (s.pleas.dequeueResponsePlea now).2 } =
    shows view (k _) { t with pleas := (t.pleas.dequeueResponsePlea now).2 }
  rw [hk, hk]
  exact halike.shows_eq _ _ h

theorem alike_withSession (f : LiveSession → LiveSession) :
    Alike view (withSession f : Talk μ Unit) := by
  refine ⟨fun s t h => ?_⟩
  obtain ⟨hconn, hsession, hrest⟩ := view_eq_iff.mp h
  unfold shows withSession
  rw [hsession]
  cases t.session with
  | none => exact congrArg (Prod.mk _) h
  | some session => exact congrArg (Prod.mk _) (view_eq_iff.mpr ⟨hconn, rfl, hrest⟩)

theorem alike_onSession (x : EStateM StdException Session Unit) :
    Alike view (onSession x : Talk μ Unit) := by
  refine ⟨fun s t h => ?_⟩
  obtain ⟨hconn, hsession, hrest⟩ := view_eq_iff.mp h
  unfold shows onSession
  rw [hsession]
  cases t.session with
  | none => exact congrArg (Prod.mk _) h
  | some session =>
    dsimp only
    cases x session.toSession with
    | ok u toSession | error e toSession =>
      exact congrArg (Prod.mk _) (view_eq_iff.mpr ⟨hconn, rfl, hrest⟩)

theorem alike_call (x : EStateM StdException μ Unit) : Alike view (call x) := by
  refine ⟨fun s t h => ?_⟩
  obtain ⟨hconn, hsession, hnew, hmax, howner⟩ := view_eq_iff.mp h
  unfold shows call
  rw [howner]
  cases x t.owner with
  | ok u owner | error e owner =>
    exact congrArg (Prod.mk _) (view_eq_iff.mpr ⟨hconn, hsession, hnew, hmax, rfl⟩)

/-- A change of `m_current` whose outcome does not depend on what is there. -/
theorem alike_onCurrent {x : EStateM StdException WorkPackage Unit}
    (hx : Alike (fun _ => ()) x) : Alike view (onCurrent x : Talk μ Unit) := by
  refine ⟨fun s t h => ?_⟩
  have hshows := hx.shows_eq s.current t.current rfl
  unfold shows onCurrent
  cases hs : x s.current with
  | ok u current =>
    cases ht : x t.current with
    | ok u' current' => exact congrArg (Prod.mk _) h
    | error e current' =>
      rw [shows_of_ok hs, shows_of_error ht] at hshows
      exact nomatch (Prod.mk.inj hshows).1
  | error e current =>
    cases ht : x t.current with
    | ok u' current' =>
      rw [shows_of_error hs, shows_of_ok ht] at hshows
      exact nomatch (Prod.mk.inj hshows).1
    | error e' current' =>
      rw [shows_of_error hs, shows_of_error ht] at hshows
      rw [Except.error.inj (Prod.mk.inj hshows).1]
      exact congrArg (Prod.mk _) h

theorem alike_startSession (h : Handlers μ) (now : TimePoint) :
    Alike view (startSession h now) := by
  refine alike_bind (alike_modify fun s t hst => ?_) fun _ => alike_call h.onConnected
  obtain ⟨hconn, -, hrest⟩ := view_eq_iff.mp hst
  exact view_eq_iff.mpr ⟨hconn, rfl, hrest⟩

end Operations

/-! ## The branches -/

section Branches

variable (lib : Library) (h : Handlers μ) (now : TimePoint)

/-- A conversion of a text of the message. -/
theorem alike_conversion {α ε' : Type} {f : ε' → Abort} {y : Except ε' α} {k : α → Talk μ Unit}
    (hk : ∀ a, Alike view (k a)) : Alike view (ofExcept f y >>= k) :=
  alike_bind (alike_ofExcept y) hk

/-- A conversion among the assignments to `m_current`. -/
theorem alike_hash {α : Type} {y : Except StdException α}
    {k : α → EStateM StdException WorkPackage Unit}
    (hk : ∀ a, Alike (fun _ : WorkPackage => ()) (k a)) :
    Alike (fun _ : WorkPackage => ()) (MonadExcept.ofExcept y >>= k) := by
  refine alike_bind ?_ hk
  cases y with
  | ok a => exact alike_pure a
  | error e => exact alike_throw e

theorem alike_write (f : WorkPackage → WorkPackage) :
    Alike (fun _ : WorkPackage => ())
      (modify f : EStateM StdException WorkPackage Unit) := alike_modify fun _ _ _ => rfl

theorem alike_jobHashes (texts : JobTexts) :
    Alike (fun _ : WorkPackage => ()) (jobHashes texts) := by
  refine alike_hash fun _ => alike_hash fun _ => alike_bind (alike_write _) fun _ => ?_
  refine alike_hash fun _ => alike_bind (alike_write _) fun _ => ?_
  exact alike_hash fun _ => alike_write _

theorem alike_jobEthereumStratum (session : Session) (sSeedHash sHeaderHash : StdString) :
    Alike (fun _ : WorkPackage => ()) (jobEthereumStratum session sSeedHash sHeaderHash) := by
  refine alike_hash fun _ => alike_bind (alike_write _) fun _ => ?_
  exact alike_hash fun _ => alike_write _

theorem alike_jobEthereumStratum2 (session : Session) (sHeader : StdString) :
    Alike (fun _ : WorkPackage => ()) (jobEthereumStratum2 session sHeader) := by
  refine alike_hash fun _ => alike_bind (alike_write _) fun _ => ?_
  exact alike_hash fun _ => alike_write _

theorem alike_readBlock (mode : Option StratumMode) (jPrm : Value) (prmIdx : ℕ) :
    Alike view (readBlock lib mode jPrm prmIdx : Talk μ Unit) := by
  unfold readBlock
  split_ifs
  · refine alike_conversion fun text => ?_
    split_ifs
    · split
      · exact alike_modify fun _ _ hst => hst
      · refine alike_bind (alike_modify fun _ _ hst => hst) fun _ => ?_
        split_ifs
        · exact alike_throw _
        · exact alike_pure ()
    · exact alike_pure ()
  · exact alike_pure ()

theorem alike_readJob (mode : Option StratumMode) (session : Session) (jPrm : Value)
    (prmIdx : ℕ) : Alike view (readJob lib now mode session jPrm prmIdx : Talk μ Unit) := by
  refine alike_conversion fun job => alike_bind (alike_modify fun _ _ hst => hst) fun _ => ?_
  split_ifs
  · refine alike_conversion fun seed => alike_conversion fun header => ?_
    split_ifs
    · exact alike_bind (alike_onCurrent (alike_jobEthereumStratum ..)) fun _ =>
        alike_jobProcessed now
    · exact alike_pure ()
  · refine alike_conversion fun texts => alike_bind (alike_modify fun _ _ hst => hst) fun _ => ?_
    refine alike_bind (alike_readBlock ..) fun _ => ?_
    exact alike_bind (alike_onCurrent (alike_jobHashes texts)) fun _ => alike_jobProcessed now

theorem alike_readJob2 (session : Session) (jPrm : Value) :
    Alike view (readJob2 lib now session jPrm : Talk μ Unit) := by
  refine alike_conversion fun job => alike_bind (alike_modify fun _ _ hst => hst) fun _ => ?_
  refine alike_conversion fun text => alike_conversion fun block => ?_
  refine alike_bind (alike_modify fun _ _ hst => hst) fun _ => alike_conversion fun header => ?_
  exact alike_bind (alike_onCurrent (alike_jobEthereumStratum2 ..)) fun _ => alike_jobProcessed now

theorem alike_onNotify (obj : Value.Members) : Alike view (onNotify lib now obj : Talk μ Unit) := by
  refine alike_get_bind (fun s t hst => ?_) fun s => ?_
  · obtain ⟨-, hsession, hnew, -⟩ := view_eq_iff.mp hst
    rw [hsession, hnew, mode_of_view hst]
  · split
    · exact alike_pure ()
    · dsimp only
      split_ifs
      · exact alike_pure ()
      · exact alike_readJob ..
      · exact alike_pure ()

theorem alike_onNotify2 (obj : Value.Members) :
    Alike view (onNotify2 lib now obj : Talk μ Unit) := by
  refine alike_get_bind (fun s t hst => ?_) fun s => ?_
  · obtain ⟨-, hsession, -⟩ := view_eq_iff.mp hst
    rw [hsession]
  · split
    · exact alike_pure ()
    · dsimp only
      split_ifs
      · exact alike_pure ()
      · exact alike_pure ()
      · exact alike_readJob2 ..

theorem alike_onSetDifficulty (obj : Value.Members) :
    Alike view (onSetDifficulty lib obj : Talk μ Unit) := by
  unfold onSetDifficulty
  dsimp only
  split_ifs
  · exact alike_conversion fun _ => alike_conversion fun _ => alike_withSession _
  · exact alike_pure ()

theorem alike_setExtranonce (enonce : StdString) :
    Alike view (setExtranonce enonce : Talk μ Unit) := by
  unfold setExtranonce
  split_ifs
  · exact alike_pure ()
  · exact alike_onSession _

theorem alike_onSetExtranonce (obj : Value.Members) :
    Alike view (onSetExtranonce lib obj : Talk μ Unit) := by
  unfold onSetExtranonce
  dsimp only
  split_ifs
  · exact alike_conversion fun enonce => alike_setExtranonce enonce
  · exact alike_pure ()

theorem alike_setTimeout (timeout : StdString) :
    Alike view (setTimeout timeout : Talk μ Unit) := by
  unfold setTimeout
  split_ifs
  · exact alike_pure ()
  · exact alike_conversion fun _ => alike_withSession _

theorem alike_setEpoch (epoch : StdString) : Alike view (setEpoch epoch : Talk μ Unit) := by
  unfold setEpoch
  split_ifs
  · exact alike_pure ()
  · exact alike_conversion fun _ => alike_withSession _

theorem alike_setTarget (target : StdString) : Alike view (setTarget target : Talk μ Unit) := by
  unfold setTarget
  split_ifs
  · exact alike_pure ()
  · exact alike_conversion fun _ => alike_withSession _

theorem alike_onSet (obj : Value.Members) : Alike view (onSet lib obj : Talk μ Unit) := by
  unfold onSet
  split
  · refine alike_bind (alike_withSession _) fun _ => ?_
    refine alike_conversion fun timeout => alike_conversion fun epoch =>
      alike_conversion fun target => ?_
    refine alike_bind (alike_setTimeout timeout) fun _ => alike_bind (alike_setEpoch epoch) fun _ =>
      alike_bind (alike_setTarget target) fun _ => ?_
    refine alike_conversion fun algo => alike_bind (alike_withSession _) fun _ => ?_
    exact alike_conversion fun enonce => alike_setExtranonce enonce
  · exact alike_pure ()

theorem alike_negotiationFailed : Alike view (negotiationFailed : Talk μ Unit) := by
  refine alike_get_bind (fun s t hst => ?_) fun s => ?_
  · rw [(view_eq_iff.mp hst).1]
  · split_ifs
    · exact alike_bind alike_markUnrecoverable fun _ => alike_postDisconnect
    · exact alike_postDisconnect

theorem alike_processNotification (e : Essentials) :
    Alike view (processNotification lib now e : Talk μ Unit) := by
  refine alike_get_bind (fun s t hst => ?_) fun s => ?_
  · rw [(view_eq_iff.mp hst).1, mode_of_view hst]
  · refine notification_cases (P := Alike view) lib now e s ?_ ?_ ?_ ?_ ?_ ?_ ?_ ?_
    · exact fun _ _ => alike_onNotify ..
    · exact fun _ _ => alike_onNotify2 ..
    · exact alike_onSetDifficulty ..
    · exact fun _ _ => alike_onSetExtranonce ..
    · exact fun _ _ => alike_onSet ..
    · exact alike_postDisconnect
    · exact alike_send
    · exact alike_pure ()

theorem alike_onHello (jResult : Value) : Alike view (onHello lib h now jResult) := by
  refine alike_conversion fun hello => ?_
  split_ifs
  · refine alike_bind (alike_confirmStratumMode 3) fun _ => ?_
    refine alike_bind (alike_startSession h now) fun _ => ?_
    exact alike_bind (alike_enqueueResponsePlea now) fun _ => alike_send _
  · exact alike_negotiationFailed

/-- The request for authorization is read off the connection, and only sent. -/
theorem alike_authorize (jsonrpc : Bool) :
    Alike view (get >>= fun s => send (authorizeRequest s.conn jsonrpc) : Talk μ Unit) := by
  refine alike_get_bind (fun s t hst => ?_) fun s => alike_send _
  rw [(view_eq_iff.mp hst).1]

theorem alike_onSubscribe1 (jResult : Value) : Alike view (onSubscribe1 lib h now jResult) := by
  refine alike_conversion fun subscription => ?_
  split_ifs
  · refine alike_bind (alike_confirmStratumMode 2) fun _ => ?_
    refine alike_bind (alike_startSession h now) fun _ => ?_
    refine alike_bind (alike_withSession _) fun _ => alike_bind (alike_send _) fun _ => ?_
    refine alike_conversion fun enonce => alike_bind (alike_setExtranonce enonce) fun _ => ?_
    refine alike_bind (alike_setAuthpending true) fun _ => ?_
    exact alike_bind (alike_enqueueResponsePlea now) fun _ => alike_authorize false
  · exact alike_negotiationFailed

theorem alike_onSubmitLogin (isSuccess : Bool) : Alike view (onSubmitLogin h now isSuccess) := by
  unfold onSubmitLogin
  split_ifs
  · refine alike_bind (alike_confirmStratumMode 1) fun _ => ?_
    refine alike_bind (alike_startSession h now) fun _ => ?_
    refine alike_bind (alike_withSession _) fun _ => ?_
    exact alike_bind (alike_withSession _) fun _ => alike_send _
  · exact alike_negotiationFailed

theorem alike_onSubscribe0 (isSuccess : Bool) : Alike view (onSubscribe0 h now isSuccess) := by
  unfold onSubscribe0
  split_ifs
  · refine alike_bind (alike_confirmStratumMode 0) fun _ => ?_
    refine alike_bind (alike_startSession h now) fun _ => ?_
    refine alike_bind (alike_withSession _) fun _ => ?_
    refine alike_bind (alike_setAuthpending true) fun _ => ?_
    exact alike_bind (alike_enqueueResponsePlea now) fun _ => alike_authorize true
  · exact alike_negotiationFailed

theorem alike_onLoginReply (isSuccess : Bool) (jResult : Value) :
    Alike view (onLoginReply lib h now isSuccess jResult) := by
  refine alike_dequeueResponsePlea_bind now (fun _ => rfl) ?_
  refine alike_get_bind (fun s t hst => ?_) fun s => ?_
  · rw [(view_eq_iff.mp hst).1, mode_of_view hst]
  · split_ifs
    · exact alike_postDisconnect
    · split
      · exact alike_onHello ..
      · exact alike_onSubscribe1 ..
      · exact alike_onSubmitLogin ..
      · exact alike_onSubscribe0 ..
      · exact alike_send _

/-- The connection is given up. -/
theorem alike_giveUp :
    Alike view (markUnrecoverable >>= fun _ => postDisconnect : Talk μ Unit) :=
  alike_bind alike_markUnrecoverable fun _ => alike_postDisconnect

theorem alike_onSubscribeReply (jResult : Value) :
    Alike view (onSubscribeReply now jResult : Talk μ Unit) := by
  refine alike_dequeueResponsePlea_bind now (fun _ => rfl) ?_
  split
  · refine alike_bind (alike_withSession _) fun _ => alike_bind (alike_withSession _) fun _ => ?_
    refine alike_bind (alike_setAuthpending true) fun _ => ?_
    exact alike_bind (alike_enqueueResponsePlea now) fun _ => alike_authorize false
  · exact alike_giveUp

theorem alike_onAuthorizeReply (isSuccess : Bool) (jResult : Value) :
    Alike view (onAuthorizeReply now isSuccess jResult : Talk μ Unit) := by
  refine alike_dequeueResponsePlea_bind now (fun _ => rfl) ?_
  refine alike_bind (alike_setAuthpending false) fun _ => ?_
  refine alike_bind (alike_withSession _) fun _ => ?_
  split_ifs
  · exact alike_pure ()
  · exact alike_giveUp

theorem alike_onAuthorizeReply2 (isSuccess : Bool) (jResult : Value) :
    Alike view (onAuthorizeReply2 now isSuccess jResult : Talk μ Unit) := by
  refine alike_dequeueResponsePlea_bind now (fun _ => rfl) ?_
  split
  · refine alike_bind (alike_setAuthpending false) fun _ => ?_
    exact alike_bind (alike_withSession _) fun _ => alike_withSession _
  · exact alike_giveUp

theorem alike_on999 (isSuccess : Bool) : Alike view (on999 isSuccess : Talk μ Unit) := by
  refine alike_get_bind (fun s t hst => ?_) fun s => ?_
  · obtain ⟨hconn, hsession, -⟩ := view_eq_iff.mp hst
    rw [hconn, Exchange.isSubscribed, Exchange.isAuthorized, hsession, Exchange.isSubscribed,
      Exchange.isAuthorized]
  · split_ifs
    all_goals first | exact alike_postDisconnect | exact alike_pure ()

variable {h}

theorem alike_onSubmitReply (htame : Tame h) (e : Essentials) :
    Alike view (onSubmitReply h now e) := by
  refine alike_dequeueResponsePlea_bind now (fun delay => ?_) (alike_call (pure ()))
  dsimp only
  rw [htame.accepted, htame.rejected, ite_self]

theorem alike_onSubmitReply2 (htame : Tame h) (e : Essentials) :
    Alike view (onSubmitReply2 lib h now e) := by
  refine alike_dequeueResponsePlea_bind now
    (l := if e.isSuccess then call (pure ())
      else ofJson (errCode lib e) >>= fun _ => call (pure ())) (fun delay => ?_) ?_
  · simp only [htame.accepted, htame.rejected, ite_self]
  · split_ifs
    · exact alike_call _
    · exact alike_conversion fun _ => alike_call _

theorem alike_processReply (htame : Tame h) (e : Essentials) :
    Alike view (processReply lib h now e) := by
  refine alike_get_bind (fun s t hst => ?_) fun s => ?_
  · obtain ⟨-, -, -, hmax, -⟩ := view_eq_iff.mp hst
    rw [hmax, mode_of_view hst]
  · refine reply_cases (P := Alike view) lib h now e s ?_ ?_ ?_ ?_ ?_ ?_ ?_ ?_ ?_
    · exact fun _ => alike_onLoginReply ..
    · exact alike_onSubscribeReply ..
    · exact alike_onAuthorizeReply ..
    · exact alike_onAuthorizeReply2 ..
    · exact fun _ _ => alike_onSubmitReply now htame e
    · exact fun _ _ => alike_onSubmitReply2 lib now htame e
    · exact fun _ _ _ => alike_processNotification ..
    · exact alike_on999 _
    · exact alike_pure ()

/-- **What a message does to the view depends on the view alone.** -/
theorem alike_processResponse (htame : Tame h) (m : Value) :
    Alike view (processResponse lib h now m) := by
  refine alike_get_bind (fun s t hst => ?_) fun s => alike_conversion fun e => ?_
  · rw [mode_of_view hst]
  · split_ifs
    · exact alike_postDisconnect
    · exact alike_processNotification ..
    · exact alike_processReply lib now htame e

end Branches

/-! ## Messages that fail -/

/-- What the read loop catches. -/
def Caught (e : Abort) : Prop := e.isStdException = true

/-- The extranonce is none, or can be read. -/
def NonceReads (enonce : StdString) : Prop :=
  enonce = [] ∨ ∃ v, stoull (enonce.resize 16 '0') = .ok v

/-- The parameters of `mining.set` can be read to the end. -/
structure SetReads (lib : Library) (jPrm : Value.Members) : Prop where
  timeout : ∃ text, setText lib jPrm "timeout".toList [] = .ok text ∧
    (text = [] ∨ ∃ v, stoi text = .ok v)
  epoch : ∃ text, setText lib jPrm "epoch".toList [] = .ok text ∧
    (text = [] ∨ ∃ v, stoull text = .ok v)
  target : ∃ text, setText lib jPrm "target".toList [] = .ok text ∧
    (text = [] ∨ ∃ v, FixedHash.ofString 32 ('0' :: 'x' :: padLeft text 64 '0') = .ok v)
  algo : ∃ text, setText lib jPrm "algo".toList "ethash".toList = .ok text
  enonce : ∃ text, setText lib jPrm "extranonce".toList [] = .ok text ∧ NonceReads text

/-- A message that writes to the session piece by piece can be read to the end. -/
structure Clean (lib : Library) (mode : Option StratumMode) (e : Essentials) : Prop where
  set : e.isNotification = true → e.method = "mining.set".toList →
    mode = some .ethereumstratum2 → ∀ m ms,
      e.checked.item "params".toList = .object (m :: ms) → SetReads lib (m :: ms)
  extranonce : e.isNotification = true → e.method = "mining.set_extranonce".toList →
    mode = some .ethereumstratum → ∀ enonce,
      prmText lib (e.checked.get "params".toList .null) 0 = .ok enonce → NonceReads enonce
  login : e.isNotification = false → e.id = 1 → mode = some .ethereumstratum →
    isSubscription lib e.jResult = .ok true →
      ∃ enonce, prmText lib e.jResult 1 = .ok enonce ∧ NonceReads enonce

section Failing

variable (lib : Library) {h : Handlers μ} (now : TimePoint) {s : Exchange μ}

theorem never_withSession (f : LiveSession → LiveSession) :
    Never Caught (withSession f : Talk μ Unit) s := by
  unfold withSession
  cases hs : s.session with
  | none => exact never_of_error (e := .nullSession) (t := s) (by simp only [hs]) nofun
  | some session => exact never_of_ok (by simp only [hs]; rfl)

theorem never_setExtranonce {enonce : StdString} (hreads : NonceReads enonce) :
    Never Caught (setExtranonce enonce : Talk μ Unit) s := by
  unfold setExtranonce
  split_ifs with hempty
  · exact never_pure ()
  · obtain ⟨v, hv⟩ := hreads.resolve_left hempty
    unfold onSession
    cases hs : s.session with
    | none => exact never_of_error (e := .nullSession) (t := s) (by simp only [hs]) nofun
    | some session =>
      obtain ⟨t, hrun⟩ : ∃ t, processExtranonce enonce session.toSession = .ok () t :=
        ⟨_, by rw [processExtranonce, hv]; rfl⟩
      exact never_of_ok (by simp only [hs, hrun]; rfl)

/-- A part of `mining.set` that can be read. -/
theorem never_setTimeout {text : StdString} (hreads : text = [] ∨ ∃ v, stoi text = .ok v) :
    Never Caught (setTimeout text : Talk μ Unit) s := by
  unfold setTimeout
  split_ifs with hempty
  · exact never_pure ()
  · obtain ⟨v, hv⟩ := hreads.resolve_left hempty
    exact never_ofExcept_bind hv (never_withSession _)

theorem never_setEpoch {text : StdString} (hreads : text = [] ∨ ∃ v, stoull text = .ok v) :
    Never Caught (setEpoch text : Talk μ Unit) s := by
  unfold setEpoch
  split_ifs with hempty
  · exact never_pure ()
  · obtain ⟨v, hv⟩ := hreads.resolve_left hempty
    exact never_ofExcept_bind hv (never_withSession _)

theorem never_setTarget {text : StdString}
    (hreads : text = [] ∨
      ∃ v, FixedHash.ofString 32 ('0' :: 'x' :: padLeft text 64 '0') = .ok v) :
    Never Caught (setTarget text : Talk μ Unit) s := by
  unfold setTarget
  split_ifs with hempty
  · exact never_pure ()
  · obtain ⟨v, hv⟩ := hreads.resolve_left hempty
    exact never_ofExcept_bind hv (never_withSession _)

theorem never_onSet {obj : Value.Members}
    (hreads : ∀ m ms, obj.item "params".toList = .object (m :: ms) → SetReads lib (m :: ms)) :
    Never Caught (onSet lib obj : Talk μ Unit) s := by
  unfold onSet
  split
  · next m ms hparams =>
      obtain ⟨⟨timeout, htimeout, hstoi⟩, ⟨epoch, hepoch, hstoull⟩, ⟨target, htarget, hhash⟩,
        ⟨algo, halgo⟩, ⟨enonce, henonce, hnonce⟩⟩ := hreads m ms hparams
      refine never_bind (never_withSession _) fun _ t _ => ?_
      refine never_ofExcept_bind htimeout (never_ofExcept_bind hepoch
        (never_ofExcept_bind htarget ?_))
      refine never_bind (never_setTimeout hstoi) fun _ t _ => ?_
      refine never_bind (never_setEpoch hstoull) fun _ t _ => ?_
      refine never_bind (never_setTarget hhash) fun _ t _ => ?_
      refine never_ofExcept_bind halgo (never_bind (never_withSession _) fun _ t _ => ?_)
      exact never_ofExcept_bind henonce (never_setExtranonce hnonce)
  · exact never_pure ()

theorem never_startSession (htame : Tame h) : Never Caught (startSession h now) s := by
  refine never_bind (never_modify _) fun _ t _ => ?_
  have hconnected := htame.connected t.owner
  unfold call
  cases ho : h.onConnected t.owner with
  | ok u owner => exact never_of_ok (by simp only [ho]; rfl)
  | error e owner =>
    rw [thrown_of_error ho] at hconnected
    exact nomatch hconnected

theorem never_negotiationFailed : Never Caught (negotiationFailed : Talk μ Unit) s := by
  show Never Caught (fun s => (if s.conn.stratumModeConfirmed = true then _ else _ :
    Talk μ Unit) s) s
  intro e t
  dsimp only
  split_ifs
  · exact nofun
  · exact nofun

/-- A call that writes to `m_current` alone. -/
def currentOnly : Frame (Exchange μ) Abort where
  moves s t := ∃ current, t = { s with current }
  throws _ _ := True
  refl _ := ⟨_, rfl⟩
  trans := by
    rintro s t u ⟨c, rfl⟩ ⟨c', rfl⟩
    exact ⟨c', rfl⟩
  back _ h := h

theorem currentOnly_onCurrent (x : EStateM StdException WorkPackage Unit) :
    WithinAt currentOnly (onCurrent x) s := by
  cases hx : x s.current with
  | ok u current => exact withinAt_of_ok (onCurrent_of_ok s hx) ⟨current, rfl⟩
  | error e current => exact withinAt_of_error (onCurrent_of_error s hx) ⟨current, rfl⟩ trivial

theorem currentOnly_readBlock (mode : Option StratumMode) (jPrm : Value) (prmIdx : ℕ) :
    WithinAt currentOnly (readBlock lib mode jPrm prmIdx) s := by
  unfold readBlock
  split_ifs
  · refine withinAt_ofExcept_bind (fun _ => trivial) fun text _ => ?_
    split_ifs
    · split
      · exact withinAt_modify ⟨_, rfl⟩
      · refine withinAt_modify_bind ⟨_, rfl⟩ ?_
        split_ifs
        · exact withinAt_throw trivial
        · exact withinAt_pure ()
    · exact withinAt_pure ()
  · exact withinAt_pure ()

/-- What follows a write to `m_current` is undone, if it is. -/
theorem undone_currentOnly_bind {α : Type} {x : Talk μ α} {k : α → Talk μ Unit}
    (hx : WithinAt currentOnly x s) (hk : ∀ a t, Undone view Caught (k a) t) :
    Undone view Caught (x >>= k) s := by
  obtain ⟨⟨current, hleaves⟩, -⟩ := hx
  refine undone_bind (fun e t he _ => ?_) fun a t ht => ⟨?_, hk a t⟩
  · rw [leaves_of_error he] at hleaves
    rw [hleaves]
    rfl
  · rw [leaves_of_ok ht] at hleaves
    rw [hleaves]
    rfl

theorem undone_jobProcessed : Undone view Caught (jobProcessed now : Talk μ Unit) s :=
  (never_modify _).undone

theorem undone_readJob (mode : Option StratumMode) (session : Session) (jPrm : Value)
    (prmIdx : ℕ) : Undone view Caught (readJob lib now mode session jPrm prmIdx) s := by
  refine undone_ofExcept_bind fun job _ => undone_modify_bind rfl ?_
  split_ifs
  · refine undone_ofExcept_bind fun seed _ => undone_ofExcept_bind fun header _ => ?_
    split_ifs
    · exact undone_currentOnly_bind (currentOnly_onCurrent _) fun _ t => undone_jobProcessed now
    · exact (never_pure ()).undone
  · refine undone_ofExcept_bind fun texts _ => undone_modify_bind rfl ?_
    refine undone_currentOnly_bind (currentOnly_readBlock lib _ _ _) fun _ t => ?_
    exact undone_currentOnly_bind (currentOnly_onCurrent _) fun _ t => undone_jobProcessed now

theorem undone_readJob2 (session : Session) (jPrm : Value) :
    Undone view Caught (readJob2 lib now session jPrm) s := by
  refine undone_ofExcept_bind fun job _ => undone_modify_bind rfl ?_
  refine undone_ofExcept_bind fun text _ => undone_ofExcept_bind fun block _ => ?_
  refine undone_modify_bind rfl (undone_ofExcept_bind fun header _ => ?_)
  exact undone_currentOnly_bind (currentOnly_onCurrent _) fun _ t => undone_jobProcessed now

/-- **A job that fails leaves no trace in the view.** -/
theorem undone_onNotify (obj : Value.Members) : Undone view Caught (onNotify lib now obj) s := by
  cases hs : s.session with
  | none => exact (never_of_ok (onNotify_of_none lib now obj hs)).undone
  | some session =>
    unfold Undone
    rw [onNotify_of_session lib now obj hs]
    split_ifs
    · exact (never_pure ()).undone
    · exact undone_readJob lib now _ _ _ _
    · exact (never_pure ()).undone

theorem undone_onNotify2 (obj : Value.Members) : Undone view Caught (onNotify2 lib now obj) s := by
  cases hs : s.session with
  | none => exact (never_of_ok (onNotify2_of_none lib now obj hs)).undone
  | some session =>
    unfold Undone
    rw [onNotify2_of_session lib now obj hs]
    split_ifs
    · exact (never_pure ()).undone
    · exact (never_pure ()).undone
    · exact undone_readJob2 lib now _ _

theorem undone_onSetDifficulty (obj : Value.Members) :
    Undone view Caught (onSetDifficulty lib obj) s := by
  unfold onSetDifficulty
  dsimp only
  split_ifs
  · refine undone_ofExcept_bind fun _ _ => undone_ofExcept_bind fun _ _ => ?_
    exact (never_withSession _).undone
  · exact (never_pure ()).undone

theorem undone_onSetExtranonce {obj : Value.Members}
    (hreads : ∀ enonce, prmText lib (obj.get "params".toList .null) 0 = .ok enonce →
      NonceReads enonce) : Undone view Caught (onSetExtranonce lib obj) s := by
  unfold onSetExtranonce
  dsimp only
  split_ifs
  · exact undone_ofExcept_bind fun enonce henonce =>
      (never_setExtranonce (hreads enonce henonce)).undone
  · exact (never_pure ()).undone

theorem undone_processNotification {e : Essentials} (hnote : e.isNotification = true)
    (hclean : Clean lib s.mode e) : Undone view Caught (processNotification lib now e) s := by
  refine undone_get_bind ?_
  refine notification_cases (P := fun x => Undone view Caught x s) lib now e s
    ?_ ?_ ?_ ?_ ?_ ?_ ?_ ?_
  · exact fun _ _ => undone_onNotify lib now _
  · exact fun _ _ => undone_onNotify2 lib now _
  · exact undone_onSetDifficulty lib _
  · exact fun hmethod hmode => undone_onSetExtranonce lib (hclean.extranonce hnote hmethod hmode)
  · exact fun hmethod hmode => (never_onSet lib (hclean.set hnote hmethod hmode)).undone
  · exact (never_modify _).undone
  · exact fun _ => (never_modify _).undone
  · exact (never_pure ()).undone

/-- The response to the first request for work. -/
theorem undone_processNotification_notify {e : Essentials}
    (he : e.method = "mining.notify".toList) :
    Undone view Caught (processNotification lib now e) s := by
  refine undone_get_bind ?_
  by_cases hconfirmed : s.conn.stratumModeConfirmed = true
  · rw [if_pos hconfirmed]
    by_cases hmode : s.mode = some .ethereumstratum2
    · rw [if_neg (fun hand => hand.2 hmode), if_pos he]
      exact undone_onNotify2 lib now _
    · rw [if_pos ⟨he, hmode⟩]
      exact undone_onNotify lib now _
  · rw [if_neg hconfirmed]
    exact (never_pure ()).undone

theorem undone_onHello (htame : Tame h) (jResult : Value) :
    Undone view Caught (onHello lib h now jResult) s := by
  refine undone_ofExcept_bind fun hello _ => ?_
  split_ifs
  · refine Never.undone (never_bind (never_modify _) fun _ t _ => ?_)
    refine never_bind (never_startSession now htame) fun _ t _ => ?_
    exact never_bind (never_modify _) fun _ t _ => never_modify _
  · exact never_negotiationFailed.undone

theorem undone_onSubscribe1 (htame : Tame h) {jResult : Value}
    (hreads : isSubscription lib jResult = .ok true →
      ∃ enonce, prmText lib jResult 1 = .ok enonce ∧ NonceReads enonce) :
    Undone view Caught (onSubscribe1 lib h now jResult) s := by
  refine undone_ofExcept_bind fun subscription hsubscription => ?_
  split_ifs with hyes
  · obtain ⟨enonce, henonce, hnonce⟩ := hreads (hyes ▸ hsubscription)
    refine Never.undone (never_bind (never_modify _) fun _ t _ => ?_)
    refine never_bind (never_startSession now htame) fun _ t _ => ?_
    refine never_bind (never_withSession _) fun _ t _ => ?_
    refine never_bind (never_modify _) fun _ t _ => never_ofExcept_bind henonce ?_
    refine never_bind (never_setExtranonce hnonce) fun _ t _ => ?_
    refine never_bind (never_modify _) fun _ t _ => ?_
    exact never_bind (never_modify _) fun _ t _ => never_of_ok rfl
  · exact never_negotiationFailed.undone

theorem undone_onSubmitLogin (htame : Tame h) (isSuccess : Bool) :
    Undone view Caught (onSubmitLogin h now isSuccess) s := by
  unfold onSubmitLogin
  split_ifs
  · refine Never.undone (never_bind (never_modify _) fun _ t _ => ?_)
    refine never_bind (never_startSession now htame) fun _ t _ => ?_
    refine never_bind (never_withSession _) fun _ t _ => ?_
    exact never_bind (never_withSession _) fun _ t _ => never_modify _
  · exact never_negotiationFailed.undone

theorem undone_onSubscribe0 (htame : Tame h) (isSuccess : Bool) :
    Undone view Caught (onSubscribe0 h now isSuccess) s := by
  unfold onSubscribe0
  split_ifs
  · refine Never.undone (never_bind (never_modify _) fun _ t _ => ?_)
    refine never_bind (never_startSession now htame) fun _ t _ => ?_
    refine never_bind (never_withSession _) fun _ t _ => ?_
    refine never_bind (never_modify _) fun _ t _ => ?_
    exact never_bind (never_modify _) fun _ t _ => never_of_ok rfl
  · exact never_negotiationFailed.undone

/-- The plea of the request is answered, which is outside the view. -/
theorem undone_dequeueResponsePlea_bind {k : ℤ → Talk μ Unit}
    (hk : ∀ delay t, t.mode = s.mode → Undone view Caught (k delay) t) :
    Undone view Caught (dequeueResponsePlea now >>= k) s :=
  undone_bind (fun _ _ he => nomatch he) fun delay t ht => by
    injection ht with _ ht
    rw [← ht]
    exact ⟨rfl, hk delay _ rfl⟩

theorem undone_onLoginReply (htame : Tame h) {e : Essentials} (hreply : e.isNotification = false)
    (hid : e.id = 1) (hclean : Clean lib s.mode e) :
    Undone view Caught (onLoginReply lib h now e.isSuccess e.jResult) s := by
  refine undone_dequeueResponsePlea_bind now fun _ t hmode => undone_get_bind ?_
  split_ifs
  · exact (never_modify _).undone
  · split
    · exact undone_onHello lib now htame _
    · next hmode1 =>
        exact undone_onSubscribe1 lib now htame
          (hclean.login hreply hid (hmode.symm.trans hmode1))
    · exact undone_onSubmitLogin now htame _
    · exact undone_onSubscribe0 now htame _
    · exact (never_modify _).undone

theorem undone_onSubscribeReply (jResult : Value) :
    Undone view Caught (onSubscribeReply now jResult) s := by
  refine undone_dequeueResponsePlea_bind now fun _ t _ => ?_
  split
  · refine Never.undone (never_bind (never_withSession _) fun _ t _ => ?_)
    refine never_bind (never_withSession _) fun _ t _ => ?_
    refine never_bind (never_modify _) fun _ t _ => ?_
    exact never_bind (never_modify _) fun _ t _ => never_of_ok rfl
  · exact Never.undone (never_bind (never_modify _) fun _ t _ => never_modify _)

theorem undone_onAuthorizeReply (isSuccess : Bool) (jResult : Value) :
    Undone view Caught (onAuthorizeReply now isSuccess jResult) s := by
  refine undone_dequeueResponsePlea_bind now fun _ t _ => ?_
  refine Never.undone (never_bind (never_modify _) fun _ t _ => ?_)
  refine never_bind (never_withSession _) fun _ t _ => ?_
  split_ifs
  · exact never_pure ()
  · exact never_bind (never_modify _) fun _ t _ => never_modify _

theorem undone_onAuthorizeReply2 (isSuccess : Bool) (jResult : Value) :
    Undone view Caught (onAuthorizeReply2 now isSuccess jResult) s := by
  refine undone_dequeueResponsePlea_bind now fun _ t _ => ?_
  split
  · refine Never.undone (never_bind (never_modify _) fun _ t _ => ?_)
    exact never_bind (never_withSession _) fun _ t _ => never_withSession _
  · exact Never.undone (never_bind (never_modify _) fun _ t _ => never_modify _)

theorem undone_onSubmitReply (htame : Tame h) (e : Essentials) :
    Undone view Caught (onSubmitReply h now e) s := by
  refine undone_dequeueResponsePlea_bind now fun delay t _ => ?_
  dsimp only
  rw [htame.accepted, htame.rejected, ite_self]
  exact (never_of_ok rfl).undone

theorem undone_onSubmitReply2 (htame : Tame h) (e : Essentials) :
    Undone view Caught (onSubmitReply2 lib h now e) s := by
  refine undone_dequeueResponsePlea_bind now fun delay t _ => ?_
  simp only [htame.accepted, htame.rejected, ite_self]
  split_ifs
  · exact (never_of_ok rfl).undone
  · exact undone_ofExcept_bind fun _ _ => (never_of_ok rfl).undone

theorem undone_on999 (isSuccess : Bool) : Undone view Caught (on999 isSuccess) s := by
  refine undone_get_bind ?_
  split_ifs
  all_goals exact (never_modify _).undone

theorem undone_processReply (htame : Tame h) {e : Essentials} (hreply : e.isNotification = false)
    (hclean : Clean lib s.mode e) : Undone view Caught (processReply lib h now e) s := by
  refine undone_get_bind ?_
  refine reply_cases (P := fun x => Undone view Caught x s) lib h now e s ?_ ?_ ?_ ?_ ?_ ?_ ?_ ?_ ?_
  · exact fun hid => undone_onLoginReply lib now htame hreply hid hclean
  · exact undone_onSubscribeReply now _
  · exact undone_onAuthorizeReply now _ _
  · exact undone_onAuthorizeReply2 now _ _
  · exact fun _ _ => undone_onSubmitReply now htame e
  · exact fun _ _ => undone_onSubmitReply2 lib now htame e
  · exact fun _ _ _ => undone_processNotification_notify lib now rfl
  · exact undone_on999 _
  · exact (never_pure ()).undone

/-- **A message that is left by an exception leaves no trace in the view**, if it is
clean. -/
theorem undone_processResponse (htame : Tame h) {m : Value}
    (hclean : ∀ e, essentials lib s.mode m = .ok e → Clean lib s.mode e) :
    Undone view Caught (processResponse lib h now m) s := by
  refine undone_get_bind (undone_ofExcept_bind fun e he => ?_)
  split_ifs with hinvalid hnote
  · exact (never_modify _).undone
  · exact undone_processNotification lib now hnote (hclean e he)
  · exact undone_processReply lib now htame (Bool.not_eq_true _ ▸ hnote) (hclean e he)

end Failing

end Stratum
end FpgaEthash
