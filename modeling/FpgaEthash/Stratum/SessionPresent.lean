import FpgaEthash.Computation.Runs
import FpgaEthash.Stratum.MessageFrame

/-!
# Where `m_session` is dereferenced

The session is created when the pool answers the first request.  `processResponse`
goes by the id, the method and the mode of a message, and some of its branches
dereference `m_session` without asking whether there is one.

`NeedsSession` lists the messages that get to such a place.  For each of them it says
what has to be readable on the way there, since a conversion that fails throws before
the dereference.  `thrown_nullSession_iff` is exact for one message, and
`session_present_iff` for every sequence of messages on a new connection.

In autodetection notifications are discarded until the mode is confirmed, which is when
the session starts.  A scheme with a fixed version is confirmed from the start, and in
every mode the answer to a request that was never made is handled like any other.
-/

namespace FpgaEthash
namespace Stratum

open Devcore Ethcore Jsoncpp Pool Throwing Talk Runs

variable {μ : Type}

/-! ## The messages -/

/-- A text that is not empty. -/
def Filled (v : Value) : Prop := ∃ c cs, v = .string (c :: cs)

/-- The replies that dereference `m_session`. -/
def ReplyNeeds (mode : Option StratumMode) (e : Essentials) : Prop :=
  if mode = some .ethereumstratum2 then
    (e.id = 2 ∧ Filled e.jResult) ∨ (e.id = 3 ∧ e.isSuccess = true ∧ Filled e.jResult)
  else e.id = 3

/-- A difficulty that can be read. -/
def ReadsDifficulty (lib : Library) (jPrm : Value) : Prop :=
  jPrm.isArray = true ∧ ∃ d b, difficultyParam jPrm = .ok d ∧ difficultyBoundary lib d = .ok b

/-- An extranonce that is not empty. -/
def ReadsExtranonce (lib : Library) (jPrm : Value) : Prop :=
  jPrm.isArray = true ∧ ∃ c cs, prmText lib jPrm 0 = .ok (c :: cs)

/-- An object that is not empty. -/
def HasMembers (v : Value) : Prop := ∃ m ms, v = .object (m :: ms)

/-- The notifications that dereference `m_session` without a check. -/
def NotificationNeeds (lib : Library) (mode : Option StratumMode) (e : Essentials) : Prop :=
  (mode = some .ethereumstratum ∧ e.method = "mining.set_difficulty".toList ∧
      ReadsDifficulty lib (e.checked.get "params".toList .null)) ∨
    (mode = some .ethereumstratum ∧ e.method = "mining.set_extranonce".toList ∧
      ReadsExtranonce lib (e.checked.get "params".toList .null)) ∨
    (mode = some .ethereumstratum2 ∧ e.method = "mining.set".toList ∧
      HasMembers (e.checked.item "params".toList))

/-- The messages that dereference `m_session` without a check. -/
def NeedsSession (lib : Library) (s : Exchange μ) (m : Value) : Prop :=
  ∃ e, essentials lib s.mode m = .ok e ∧ e.invalid = false ∧
    if e.isNotification then
      s.conn.stratumModeConfirmed = true ∧ NotificationNeeds lib s.mode e
    else ReplyNeeds s.mode e

/-! ## Branches that ask first -/

section Branches

variable {s : Exchange μ}

theorem thrown_ofJson_bind_eq {α β : Type} {y : Except Jsoncpp.Exception α} {k : α → Talk μ β} :
    thrown (ofJson y >>= k) s = some .nullSession ↔
      ∃ a, y = .ok a ∧ thrown (k a) s = some .nullSession :=
  thrown_ofExcept_bind_eq (f := Abort.json) (e := .nullSession) fun _ => nofun

theorem thrown_ofStd_bind_eq {α β : Type} {y : Except StdException α} {k : α → Talk μ β} :
    thrown (ofStd y >>= k) s = some .nullSession ↔
      ∃ a, y = .ok a ∧ thrown (k a) s = some .nullSession :=
  thrown_ofExcept_bind_eq (f := Abort.std) (e := .nullSession) fun _ => nofun

theorem thrown_call_ne (x : EStateM StdException μ Unit) :
    thrown (call x) s ≠ some .nullSession := by
  unfold thrown call
  cases x s.owner <;> simp

/-- What comes after `startSession` finds a session. -/
theorem thrown_startSession_bind_ne (h : Handlers μ) (now : TimePoint) {k : Unit → Talk μ Unit}
    (hk : ∀ t, WithinAt quiet (k ()) t) :
    thrown (startSession h now >>= k) s ≠ some .nullSession := by
  intro hnull
  have hstart : WithinAt quiet (call h.onConnected >>= k)
      { s with session := some { lastTxStamp := now }, currentTimestamp := now } :=
    withinAt_bind (quiet_call _) fun _ t => hk t
  exact nomatch (hstart.2 _ hnull).2 rfl

theorem thrown_negotiationFailed_ne : thrown negotiationFailed s ≠ some .nullSession := by
  show thrown (if s.conn.stratumModeConfirmed = true then _ else _ : Talk μ Unit) s ≠ _
  split_ifs <;> exact nofun

theorem thrown_onHello_ne (lib : Library) (h : Handlers μ) (now : TimePoint) (jResult : Value) :
    thrown (onHello lib h now jResult) s ≠ some .nullSession := by
  intro hnull
  obtain ⟨hello, -, hnull⟩ := thrown_ofJson_bind_eq.mp hnull
  cases hello with
  | false => exact thrown_negotiationFailed_ne hnull
  | true =>
    refine thrown_startSession_bind_ne h now (fun t => ?_) hnull
    exact withinAt_bind (admits_enqueue quiet_admits now) fun _ t => admits_send quiet_admits _

theorem thrown_onSubscribe1_ne (lib : Library) (h : Handlers μ) (now : TimePoint)
    (jResult : Value) : thrown (onSubscribe1 lib h now jResult) s ≠ some .nullSession := by
  intro hnull
  obtain ⟨subscription, -, hnull⟩ := thrown_ofJson_bind_eq.mp hnull
  cases subscription with
  | false => exact thrown_negotiationFailed_ne hnull
  | true =>
    refine thrown_startSession_bind_ne h now (fun t => ?_) hnull
    refine withinAt_bind (admits_withSession quiet_admits _) fun _ t => ?_
    refine withinAt_bind (admits_send quiet_admits _) fun _ t => ?_
    refine admits_ofJson_bind quiet_admits fun enonce _ => ?_
    refine withinAt_bind (admits_setExtranonce quiet_admits enonce) fun _ t => ?_
    exact admits_requestAuthorization quiet_admits now false

theorem thrown_onSubmitLogin_ne (h : Handlers μ) (now : TimePoint) (isSuccess : Bool) :
    thrown (onSubmitLogin h now isSuccess) s ≠ some .nullSession := by
  cases isSuccess with
  | false => exact thrown_negotiationFailed_ne
  | true =>
    refine thrown_startSession_bind_ne h now fun t => ?_
    refine withinAt_bind (admits_withSession quiet_admits _) fun _ t => ?_
    exact withinAt_bind (admits_withSession quiet_admits _) fun _ t => admits_send quiet_admits _

theorem thrown_onSubscribe0_ne (h : Handlers μ) (now : TimePoint) (isSuccess : Bool) :
    thrown (onSubscribe0 h now isSuccess) s ≠ some .nullSession := by
  cases isSuccess with
  | false => exact thrown_negotiationFailed_ne
  | true =>
    refine thrown_startSession_bind_ne h now fun t => ?_
    exact withinAt_bind (admits_withSession quiet_admits _) fun _ t =>
      admits_requestAuthorization quiet_admits now true

theorem thrown_onLoginReply_ne (lib : Library) (h : Handlers μ) (now : TimePoint)
    (isSuccess : Bool) (jResult : Value) :
    thrown (onLoginReply lib h now isSuccess jResult) s ≠ some .nullSession := by
  show thrown (if (!isSuccess && !s.conn.stratumModeConfirmed) = true then _ else _ : Talk μ Unit)
    { s with pleas := _ } ≠ _
  split
  · exact nofun
  · split
    · exact thrown_onHello_ne lib h now jResult
    · exact thrown_onSubscribe1_ne lib h now jResult
    · exact thrown_onSubmitLogin_ne h now isSuccess
    · exact thrown_onSubscribe0_ne h now isSuccess
    · exact nofun

theorem thrown_onSubmitReply_ne (h : Handlers μ) (now : TimePoint) (e : Essentials) :
    thrown (onSubmitReply h now e) s ≠ some .nullSession := by
  show thrown (if granted e.isSuccess e.jResult = true then _ else _ : Talk μ Unit)
    { s with pleas := _ } ≠ _
  split_ifs <;> exact thrown_call_ne _

theorem thrown_onSubmitReply2_ne (lib : Library) (h : Handlers μ) (now : TimePoint)
    (e : Essentials) : thrown (onSubmitReply2 lib h now e) s ≠ some .nullSession := by
  show thrown (if e.isSuccess = true then _ else _ : Talk μ Unit) { s with pleas := _ } ≠ _
  split_ifs
  · exact thrown_call_ne _
  · intro hnull
    obtain ⟨code, -, hnull⟩ := thrown_ofJson_bind_eq.mp hnull
    revert hnull
    split_ifs <;> exact thrown_call_ne _

theorem thrown_on999_ne (isSuccess : Bool) : thrown (on999 isSuccess) s ≠ some .nullSession := by
  show thrown (if (!isSuccess && !s.conn.stratumModeConfirmed) = true then _ else _ : Talk μ Unit)
    s ≠ _
  split_ifs <;> exact nofun

/-! ## Branches that do not -/

variable (hs : s.session = none)

include hs

theorem withSession_of_none (f : LiveSession → LiveSession) :
    withSession f s = .error .nullSession s := by
  rw [withSession, hs]

theorem thrown_withSession (f : LiveSession → LiveSession) :
    thrown (withSession f) s = some .nullSession :=
  thrown_of_error (withSession_of_none hs f)

theorem thrown_withSession_bind (f : LiveSession → LiveSession) (k : Unit → Talk μ Unit) :
    thrown (withSession f >>= k) s = some .nullSession :=
  thrown_of_error (bind_of_error (withSession_of_none hs f))

theorem thrown_setExtranonce_iff (enonce : StdString) :
    thrown (setExtranonce enonce) s = some .nullSession ↔ enonce ≠ [] := by
  unfold setExtranonce
  split_ifs with hempty
  · exact ⟨nofun, fun h => absurd hempty h⟩
  · refine ⟨fun _ => hempty, fun _ => thrown_of_error (t := s) ?_⟩
    rw [onSession, hs]

theorem thrown_onSetDifficulty_iff (lib : Library) (obj : Value.Members) :
    thrown (onSetDifficulty lib obj) s = some .nullSession ↔
      ReadsDifficulty lib (obj.get "params".toList .null) := by
  unfold onSetDifficulty ReadsDifficulty
  dsimp only
  split_ifs with harray
  · simp only [thrown_ofJson_bind_eq, thrown_ofStd_bind_eq, thrown_withSession hs, and_true,
      exists_and_left, harray, true_and]
  · exact ⟨nofun, fun h => absurd h.1 harray⟩

theorem thrown_onSetExtranonce_iff (lib : Library) (obj : Value.Members) :
    thrown (onSetExtranonce lib obj) s = some .nullSession ↔
      ReadsExtranonce lib (obj.get "params".toList .null) := by
  unfold onSetExtranonce ReadsExtranonce
  dsimp only
  split_ifs with harray
  · simp only [thrown_ofJson_bind_eq, thrown_setExtranonce_iff hs, harray, true_and]
    constructor
    · rintro ⟨enonce, henonce, hne⟩
      obtain ⟨c, cs, rfl⟩ := List.exists_cons_of_ne_nil hne
      exact ⟨c, cs, henonce⟩
    · rintro ⟨c, cs, henonce⟩
      exact ⟨c :: cs, henonce, List.cons_ne_nil c cs⟩
  · exact ⟨nofun, fun h => absurd h.1 harray⟩

theorem thrown_onSet_iff (lib : Library) (obj : Value.Members) :
    thrown (onSet lib obj) s = some .nullSession ↔ HasMembers (obj.item "params".toList) := by
  unfold onSet
  split
  · next m ms hitem => exact ⟨fun _ => ⟨m, ms, hitem⟩, fun _ => thrown_withSession_bind hs _ _⟩
  · next hother => exact ⟨nofun, fun ⟨m, ms, hitem⟩ => absurd hitem (hother m ms)⟩

theorem thrown_onSubscribeReply_iff (now : TimePoint) (jResult : Value) :
    thrown (onSubscribeReply now jResult) s = some .nullSession ↔ Filled jResult := by
  have hs' : ({ s with pleas := (s.pleas.dequeueResponsePlea now).2 } : Exchange μ).session =
      none := hs
  by_cases hfilled : Filled jResult
  · obtain ⟨c, cs, rfl⟩ := hfilled
    exact ⟨fun _ => ⟨c, cs, rfl⟩, fun _ => thrown_withSession_bind hs' _ _⟩
  · have hrefused : thrown (onSubscribeReply now jResult) s = none := by
      cases jResult with
      | string text =>
        cases text with
        | nil => rfl
        | cons c cs => exact absurd ⟨c, cs, rfl⟩ hfilled
      | _ => rfl
    simp [hrefused, hfilled]

theorem thrown_onAuthorizeReply (now : TimePoint) (isSuccess : Bool) (jResult : Value) :
    thrown (onAuthorizeReply now isSuccess jResult) s = some .nullSession :=
  thrown_withSession_bind (s := { s with
    pleas := (s.pleas.dequeueResponsePlea now).2, authpending := false }) hs _ _

theorem thrown_onAuthorizeReply2_iff (now : TimePoint) (isSuccess : Bool) (jResult : Value) :
    thrown (onAuthorizeReply2 now isSuccess jResult) s = some .nullSession ↔
      isSuccess = true ∧ Filled jResult := by
  by_cases hfilled : isSuccess = true ∧ Filled jResult
  · obtain ⟨rfl, c, cs, rfl⟩ := hfilled
    refine ⟨fun _ => ⟨rfl, c, cs, rfl⟩, fun _ => ?_⟩
    exact thrown_withSession_bind (s := { s with
      pleas := (s.pleas.dequeueResponsePlea now).2, authpending := false }) hs _ _
  · have hrefused : thrown (onAuthorizeReply2 now isSuccess jResult) s = none := by
      cases isSuccess with
      | false => rfl
      | true =>
        cases jResult with
        | string text =>
          cases text with
          | nil => rfl
          | cons c cs => exact absurd ⟨rfl, c, cs, rfl⟩ hfilled
        | _ => rfl
    simp [hrefused, hfilled]

/-! ## The whole function -/

theorem thrown_processNotification_iff (lib : Library) (now : TimePoint) (e : Essentials) :
    thrown (processNotification lib now e) s = some .nullSession ↔
      s.conn.stratumModeConfirmed = true ∧ NotificationNeeds lib s.mode e := by
  by_cases hc : s.conn.stratumModeConfirmed = true
  · rw [and_iff_right hc]
    by_cases hnotify : e.method = "mining.notify".toList
    · refine ⟨fun hnull => ?_, fun hneeds => ?_⟩
      · rw [thrown, processNotification_notify lib now hc hnotify] at hnull
        exact absurd rfl ((processJob_jobOnly lib now e.checked).2 _ hnull)
      · rw [NotificationNeeds, hnotify] at hneeds
        simp at hneeds
    show thrown (if s.conn.stratumModeConfirmed = true then _ else _ : Talk μ Unit) s = _ ↔ _
    rw [if_pos hc, if_neg (fun hand => hnotify hand.1), if_neg hnotify]
    unfold NotificationNeeds
    split_ifs with hdifficulty hextranonce hset
    · rw [thrown_onSetDifficulty_iff hs]
      simp [hdifficulty]
    · rw [thrown_onSetExtranonce_iff hs]
      simp [hextranonce]
    · rw [thrown_onSet_iff hs]
      simp [hset]
    all_goals
      refine ⟨fun hnull => ?_, fun hneeds => ?_⟩
      · cases hnull
      rcases hneeds with ⟨hm, hmethod, -⟩ | ⟨hm, hmethod, -⟩ | ⟨hm, hmethod, -⟩
      · exact absurd ⟨hmethod, hm⟩ hdifficulty
      · exact absurd ⟨hmethod, hm⟩ hextranonce
      · exact absurd ⟨hmethod, hm⟩ hset
  · show thrown (if s.conn.stratumModeConfirmed = true then _ else _ : Talk μ Unit) s = _ ↔ _
    rw [if_neg hc]
    refine ⟨fun hnull => ?_, fun h => absurd h.1 hc⟩
    cases hnull

theorem thrown_processReply_iff (lib : Library) (h : Handlers μ) (now : TimePoint)
    (e : Essentials) :
    thrown (processReply lib h now e) s = some .nullSession ↔ ReplyNeeds s.mode e := by
  show thrown (if e.id = 1 then _ else _ : Talk μ Unit) s = _ ↔ _
  by_cases h1 : e.id = 1
  · rw [if_pos h1]
    refine ⟨fun hnull => absurd hnull (thrown_onLoginReply_ne lib h now _ _), fun hneeds => ?_⟩
    simp [ReplyNeeds, h1] at hneeds
  rw [if_neg h1]
  by_cases h2 : e.id = 2
  · rw [if_pos h2]
    by_cases hm : s.mode = some .ethereumstratum2
    · rw [if_pos hm, thrown_onSubscribeReply_iff hs]
      simp [ReplyNeeds, hm, h2]
    · rw [if_neg hm]
      refine ⟨nofun, fun hneeds => ?_⟩
      simp [ReplyNeeds, hm, h2] at hneeds
  rw [if_neg h2]
  by_cases h3 : e.id = 3
  · by_cases hm : s.mode = some .ethereumstratum2
    · rw [if_neg (fun hand => hand.2 hm), if_pos h3, thrown_onAuthorizeReply2_iff hs]
      simp [ReplyNeeds, hm, h3]
    · rw [if_pos ⟨h3, hm⟩]
      simp [thrown_onAuthorizeReply hs, ReplyNeeds, hm, h3]
  rw [if_neg (fun hand => h3 hand.1), if_neg h3]
  have hneeds : ¬ ReplyNeeds s.mode e := by
    unfold ReplyNeeds
    split_ifs
    · rintro (⟨hid, -⟩ | ⟨hid, -⟩)
      · exact h2 hid
      · exact h3 hid
    · exact h3
  refine ⟨fun hnull => absurd hnull ?_, fun h => absurd h hneeds⟩
  split_ifs
  · exact thrown_onSubmitReply_ne h now e
  · exact thrown_onSubmitReply2_ne lib h now e
  · rw [thrown_processNotification_iff hs]
    simp [NotificationNeeds]
  · exact nofun
  · exact nofun
  · exact thrown_on999_ne _
  · exact nofun

end Branches

/-- **One message** is left on a null `m_session` exactly when there is none and the message
needs it. -/
theorem thrown_nullSession_iff (lib : Library) (h : Handlers μ) (now : TimePoint)
    (s : Exchange μ) (m : Value) :
    thrown (processResponse lib h now m) s = some .nullSession ↔
      s.session = none ∧ NeedsSession lib s m := by
  by_cases hs : s.session = none
  · rw [and_iff_right hs]
    show thrown (ofJson (essentials lib s.mode m) >>= _ : Talk μ Unit) s = _ ↔ _
    rw [thrown_ofJson_bind_eq]
    refine exists_congr fun e => and_congr_right fun he => ?_
    cases hinvalid : e.invalid with
    | true => exact ⟨nofun, nofun⟩
    | false =>
      rw [if_neg Bool.false_ne_true, and_iff_right rfl]
      split_ifs
      · exact thrown_processNotification_iff hs lib now e
      · exact thrown_processReply_iff hs lib h now e
  · refine ⟨fun hnull => ?_, fun hand => absurd hand.1 hs⟩
    cases hm : jobMessage? lib s m with
    | none => exact absurd (((processResponse_quiet lib h now hm).2 _ hnull).2 rfl) hs
    | some obj =>
      rw [thrown, processResponse_of_job lib h now hm] at hnull
      exact absurd rfl ((processJob_jobOnly lib now obj).2 _ hnull)

/-! ## Every sequence of messages -/

/-- One message of the pool, and the members it leaves. -/
def hear (lib : Library) (h : Handlers μ) (s : Exchange μ) (e : Value × TimePoint) :
    Option (Exchange μ) :=
  some (leaves (processResponse lib h e.2 e.1) s)

/-- The message is not left on a null `m_session`. -/
def FindsSession (lib : Library) (h : Handlers μ) (s : Exchange μ) (e : Value × TimePoint) :
    Prop :=
  thrown (processResponse lib h e.2 e.1) s ≠ some .nullSession

/-- **`m_session` is there where it is needed**, for every scheme and every sequence of
messages on a new connection, exactly when no message that needs it comes while there is no
session. -/
theorem session_present_iff (lib : Library) (h : Handlers μ) (start : TimePoint)
    (s : Exchange μ) (ms : List (Value × TimePoint)) :
    StepsMeet (hear lib h) (FindsSession lib h) (s.login lib start) ms ↔
      StepsMeet (hear lib h) (fun s e => s.session = none → ¬ NeedsSession lib s e.1)
        (s.login lib start) ms := by
  refine stepsMeet_congr (fun s e _ _ => ?_) ms _
  rw [FindsSession, ne_eq, thrown_nullSession_iff, not_and]

/-- A pool behind `stratum2+tcp` that answers request 3 before it was made: there is no
session to mark as authorized. -/
theorem session_missing_stratum2 :
    ¬ StepsMeet (hear default {}) (FindsSession default {})
      (({ conn := { version := 2 }, pleas := ⟨0, 0, []⟩, owner := () } : Exchange Unit).login
        default 0)
      [(.object [("id".toList, .int 3), ("result".toList, .bool true)], 1000000000)] := by
  intro hmeet
  have hfinds := (hmeet _ rfl).1
  exact hfinds rfl

end Stratum
end FpgaEthash
