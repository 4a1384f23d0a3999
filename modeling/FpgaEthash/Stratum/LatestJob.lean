import FpgaEthash.Stratum.Notice
import FpgaEthash.Stratum.ReadReturns

/-!
# Which job of a transmission is dispatched

Several jobs may come in one transmission.  The comment in `onRecvSocketDataCompleted`
says that only the last will be dispatched.  What is dispatched is `m_current`, if
`m_newjobprocessed` is set.

In the modes before EthereumStratum/2.0.0 a job is passed over once the flag is set, so
the *first* well-formed job of the transmission is dispatched (`current_of_first`).  In
EthereumStratum/2.0.0 every job writes to `m_current`, the malformed ones too, so it is
the last well-formed job with what malformed ones after it have left of it
(`current_of_all`, `foldl_rewritten`).

`notices` lists the jobs of a transmission, each with the package that it stands for.
-/

namespace FpgaEthash
namespace Stratum

open Devcore Ethcore Jsoncpp Pool Throwing Talk Runs Framing

variable {μ : Type}

/-! ## The jobs of a transmission -/

/-- The members of a line that is a job. -/
def notify? (lib : Library) (s : Exchange μ) (line : StdString) : Option Value.Members :=
  (message? lib line).bind (jobMessage? lib s)

/-- The package that a job stands for in the session, if it is well formed. -/
def built? (lib : Library) (s : Exchange μ) (obj : Value.Members) : Option WorkPackage :=
  s.session.bind fun session =>
    (notice? lib s.mode obj).map fun n => n.package s.mode session.toSession s.current

/-- The jobs of a transmission, each with its package, in the states in which their turn
comes. -/
def notices (lib : Library) (h : Handlers μ) (now : TimePoint) :
    Inbox μ → List StdString → List (Value.Members × Option WorkPackage)
  | _, [] => []
  | i, line :: lines =>
    ((notify? lib i.exchange line).map fun obj => (obj, built? lib i.exchange obj)).toList ++
      notices lib h now (leaves (processLine lib h now line) i) lines

/-- The packages of the well-formed ones. -/
def packages (ns : List (Value.Members × Option WorkPackage)) : List WorkPackage :=
  ns.filterMap Prod.snd

/-- The session is subscribed, and in EthereumStratum/2.0.0 initialised. -/
def Ready (i : Inbox μ) : Prop :=
  i.exchange.isSubscribed = true ∧ (i.exchange.mode = some .ethereumstratum2 →
    i.exchange.session.any (·.firstMiningSet) = true)

instance (i : Inbox μ) : Decidable (Ready i) := inferInstanceAs (Decidable (_ ∧ (_ → _)))

theorem Ready.session {i : Inbox μ} (hready : Ready i) :
    ∃ session, i.exchange.session = some session ∧ session.subscribed = true ∧
      (i.exchange.mode = some .ethereumstratum2 → session.firstMiningSet = true) := by
  obtain ⟨hsub, hset⟩ := hready
  unfold Exchange.isSubscribed at hsub
  cases hs : i.exchange.session with
  | none =>
    rw [hs] at hsub
    exact nomatch hsub
  | some session =>
    rw [hs] at hsub hset
    exact ⟨session, rfl, hsub, hset⟩

/-! ## One line -/

section Line

variable (lib : Library) (h : Handlers μ) (now : TimePoint) {i : Inbox μ} {line : StdString}

/-- A line that is a job. -/
theorem exchange_of_notify {obj : Value.Members} (hn : notify? lib i.exchange line = some obj) :
    (leaves (processLine lib h now line) i).exchange =
      leaves (processJob lib now obj) i.exchange := by
  obtain ⟨m, hm, hobj⟩ := Option.bind_eq_some_iff.mp hn
  rw [leaves_processLine, hm]
  show leaves (processResponse lib h now m) i.exchange = _
  rw [leaves, processResponse_of_job lib h now hobj, leaves]

/-- A line that is none. -/
theorem quiet_of_not_notify (hn : notify? lib i.exchange line = none) :
    Quiet i.exchange (leaves (processLine lib h now line) i).exchange := by
  rw [leaves_processLine]
  cases hm : message? lib line with
  | none => exact ⟨.refl _, rfl, rfl⟩
  | some m =>
    rw [notify?, hm] at hn
    exact (processResponse_quiet lib h now hn).1

theorem notices_of_notify {obj : Value.Members} (hn : notify? lib i.exchange line = some obj)
    (lines : List StdString) :
    notices lib h now i (line :: lines) = (obj, built? lib i.exchange obj) ::
      notices lib h now (leaves (processLine lib h now line) i) lines := by
  rw [notices, hn]
  rfl

theorem notices_of_not_notify (hn : notify? lib i.exchange line = none)
    (lines : List StdString) :
    notices lib h now i (line :: lines) =
      notices lib h now (leaves (processLine lib h now line) i) lines := by
  rw [notices, hn]
  rfl

theorem built?_of_notice {s : Exchange μ} {session : LiveSession} {obj : Value.Members}
    {n : Notice} (hs : s.session = some session) (hn : notice? lib s.mode obj = some n) :
    built? lib s obj = some (n.package s.mode session.toSession s.current) := by
  rw [built?, hs, hn]
  rfl

theorem built?_of_malformed {s : Exchange μ} {session : LiveSession} {obj : Value.Members}
    (hs : s.session = some session) (hn : notice? lib s.mode obj = none) :
    built? lib s obj = none := by
  rw [built?, hs, hn]
  rfl

theorem mode_processLine :
    (leaves (processLine lib h now line) i).exchange.mode = i.exchange.mode :=
  (bound_processLine lib h now line i).mode

end Line

/-! ## All lines -/

section Lines

variable (lib : Library) (h : Handlers μ) (now : TimePoint)

/-- **A job of this transmission is there**: except in EthereumStratum/2.0.0, the others are
passed over. -/
theorem current_of_taken (lines : List StdString) {i j : Inbox μ}
    (hmode : i.exchange.mode ≠ some .ethereumstratum2)
    (hready : Along (walk (processLine lib h now)) Ready i lines)
    (hj : run (walk (processLine lib h now)) i lines = some j)
    (hnew : i.exchange.newjobprocessed = true) :
    j.exchange.newjobprocessed = true ∧ j.exchange.current = i.exchange.current := by
  induction lines generalizing i with
  | nil =>
    obtain rfl := Option.some.inj hj
    exact ⟨hnew, rfl⟩
  | cons line lines ih =>
    obtain ⟨i', hi', hrest⟩ := (run_cons_eq_some _).mp hj
    have hready' := hready.2 i' hi'
    obtain ⟨session, hs, -, -⟩ := hready.1.session
    obtain rfl := Option.some.inj hi'
    have hkeep : (leaves (processLine lib h now line) i).exchange.newjobprocessed = true ∧
        (leaves (processLine lib h now line) i).exchange.current = i.exchange.current := by
      cases hn : notify? lib i.exchange line with
      | none =>
        have hquiet := quiet_of_not_notify lib h now hn
        exact ⟨hquiet.newjobprocessed.trans hnew, hquiet.current⟩
      | some obj =>
        rw [exchange_of_notify lib h now hn,
          leaves_of_ok (processJob_of_passed lib now hs hmode (.inr hnew))]
        exact ⟨hnew, rfl⟩
    obtain ⟨hj1, hj2⟩ := ih ((mode_processLine lib h now).trans_ne hmode) hready' hrest hkeep.1
    exact ⟨hj1, hj2.trans hkeep.2⟩

/-- **The first well-formed job is taken**, except in EthereumStratum/2.0.0. -/
theorem current_of_first (lines : List StdString) {i j : Inbox μ}
    (hmode : i.exchange.mode ≠ some .ethereumstratum2)
    (hready : Along (walk (processLine lib h now)) Ready i lines)
    (hj : run (walk (processLine lib h now)) i lines = some j)
    (hnew : i.exchange.newjobprocessed = false) {w : WorkPackage}
    (hw : (packages (notices lib h now i lines)).head? = some w) :
    j.exchange.newjobprocessed = true ∧ j.exchange.current = w := by
  induction lines generalizing i with
  | nil => exact nomatch hw
  | cons line lines ih =>
    obtain ⟨i', hi', hrest⟩ := (run_cons_eq_some _).mp hj
    have hready' := hready.2 i' hi'
    obtain ⟨session, hs, hsub, -⟩ := hready.1.session
    obtain rfl := Option.some.inj hi'
    have hmode' : (leaves (processLine lib h now line) i).exchange.mode ≠
        some .ethereumstratum2 := (mode_processLine lib h now).trans_ne hmode
    cases hn : notify? lib i.exchange line with
    | none =>
      rw [notices_of_not_notify lib h now hn] at hw
      exact ih hmode' hready' hrest
        ((quiet_of_not_notify lib h now hn).newjobprocessed.trans hnew) hw
    | some obj =>
      have hexchange := exchange_of_notify lib h now hn
      rw [notices_of_notify lib h now hn] at hw
      cases hnotice : notice? lib i.exchange.mode obj with
      | none =>
        obtain ⟨current, hleft⟩ := processJob_of_malformed lib now hs hmode hnotice
        rw [built?_of_malformed lib hs hnotice] at hw
        refine ih hmode' hready' hrest ?_ hw
        rw [hexchange, hleft]
        exact hnew
      | some n =>
        have htake := processJob_of_notice lib now hs hmode hsub hnew hnotice
        rw [leaves_of_ok htake] at hexchange
        rw [built?_of_notice lib hs hnotice] at hw
        obtain rfl := Option.some.inj hw
        have htaken := current_of_taken lib h now lines hmode' hready' hrest
          (by rw [hexchange]; rfl)
        refine ⟨htaken.1, htaken.2.trans ?_⟩
        rw [hexchange]
        rfl

/-- What a job of EthereumStratum/2.0.0 makes of `m_current`. -/
def rewritten (lib : Library) (current : WorkPackage)
    (n : Value.Members × Option WorkPackage) : WorkPackage :=
  n.2.getD (spoil lib current n.1)

/-- **In EthereumStratum/2.0.0 every job is taken**, and a malformed one spoils what is
there. -/
theorem current_of_all (lines : List StdString) {i j : Inbox μ}
    (hmode : i.exchange.mode = some .ethereumstratum2)
    (hready : Along (walk (processLine lib h now)) Ready i lines)
    (hj : run (walk (processLine lib h now)) i lines = some j) :
    j.exchange.current = (notices lib h now i lines).foldl (rewritten lib) i.exchange.current ∧
      (i.exchange.newjobprocessed = true ∨ packages (notices lib h now i lines) ≠ [] →
        j.exchange.newjobprocessed = true) := by
  induction lines generalizing i with
  | nil =>
    obtain rfl := Option.some.inj hj
    exact ⟨rfl, fun hor => hor.resolve_right fun hne => hne rfl⟩
  | cons line lines ih =>
    obtain ⟨i', hi', hrest⟩ := (run_cons_eq_some _).mp hj
    have hready' := hready.2 i' hi'
    obtain ⟨session, hs, hsub, hset⟩ := hready.1.session
    obtain rfl := Option.some.inj hi'
    obtain ⟨hcurrent, hnew⟩ := ih ((mode_processLine lib h now).trans hmode) hready' hrest
    cases hn : notify? lib i.exchange line with
    | none =>
      have hquiet := quiet_of_not_notify lib h now hn
      rw [hquiet.current] at hcurrent
      rw [hquiet.newjobprocessed] at hnew
      rw [notices_of_not_notify lib h now hn]
      exact ⟨hcurrent, hnew⟩
    | some obj =>
      have hexchange := exchange_of_notify lib h now hn
      rw [notices_of_notify lib h now hn]
      cases hnotice : notice? lib i.exchange.mode obj with
      | none =>
        rw [processJob2_of_malformed lib now hs hmode (hset hmode) hnotice] at hexchange
        rw [built?_of_malformed lib hs hnotice]
        rw [hexchange] at hcurrent hnew
        exact ⟨hcurrent, hnew⟩
      | some n =>
        have htake := processJob2_of_notice lib now hs hmode (hset hmode) hnotice
        rw [leaves_of_ok htake] at hexchange
        rw [built?_of_notice lib hs hnotice]
        rw [hexchange] at hcurrent hnew
        exact ⟨hcurrent, fun _ => hnew (.inl rfl)⟩

/-- What is left of the last well-formed job. -/
theorem foldl_rewritten (ns : List (Value.Members × Option WorkPackage)) (current : WorkPackage)
    {w : WorkPackage} (hw : (packages ns).getLast? = some w) :
    ns.foldl (rewritten lib) current =
      ((ns.rtakeWhile fun n => n.2.isNone).map Prod.fst).foldl (spoil lib) w := by
  induction ns using List.reverseRecOn with
  | nil => exact nomatch hw
  | append_singleton ns n ih =>
    obtain ⟨obj, built⟩ := n
    rw [packages, List.filterMap_append] at hw
    rw [List.foldl_append]
    cases built with
    | none =>
      have hw' : (packages ns).getLast? = some w := by
        simpa [packages] using hw
      rw [ih hw', List.rtakeWhile_concat_pos _ _ _ rfl, List.map_append, List.foldl_append]
      rfl
    | some v =>
      have hv : v = w := by
        simpa using hw
      rw [List.rtakeWhile_concat_neg _ _ _ (by exact Bool.false_ne_true), ← hv]
      rfl

end Lines

/-! ## A transmission -/

/-- **When the latest job wins.**  Let the session be subscribed and initialised throughout
the transmission, and let `w` be the package of its last well-formed job.  It is the package
handed over exactly when the read gets to the dispatch, and

* in EthereumStratum/2.0.0, the malformed jobs after it end with its own job id and block;
* in the other modes, the first well-formed job of the transmission has the same package. -/
theorem latest_job_iff (lib : Library) (h : Handlers μ) (now : TimePoint) (rx : StdString)
    (r : Receiver μ) {w : WorkPackage}
    (hready : Along (walk (processLine lib h now)) Ready (start r.toInbox) (r.lines rx))
    (hw : (packages (notices lib h now (start r.toInbox) (r.lines rx))).getLast? = some w) :
    (leaves (onRecvSocketDataCompleted lib h now rx) r).handed = r.handed ++ [w] ↔
      StepsMeet (walk (processLine lib h now)) (Harmless lib) (start r.toInbox) (r.lines rx) ∧
        (r.exchange.mode ≠ some .ethereumstratum2 →
          (packages (notices lib h now (start r.toInbox) (r.lines rx))).head? = some w) ∧
        (r.exchange.mode = some .ethereumstratum2 →
          (((notices lib h now (start r.toInbox) (r.lines rx)).rtakeWhile
            fun n => n.2.isNone).map Prod.fst).foldl (spoil lib) w = w) := by
  have hlive : (start r.toInbox).exchange.session.isSome = true := by
    obtain ⟨session, hs, -⟩ := hready.head.session
    rw [hs]
    rfl
  have hne : packages (notices lib h now (start r.toInbox) (r.lines rx)) ≠ [] := by
    intro hnil
    rw [hnil] at hw
    exact nomatch hw
  rw [toInbox_onRecvSocketDataCompleted, handed_processTransmission,
    ← thrown_processLines_iff lib h now _ hlive]
  by_cases hlines : thrown (processLines lib h now (r.lines rx)) (start r.toInbox) = none
  · have hrun : run (walk (processLine lib h now)) (start r.toInbox) (r.lines rx) =
        some (leaves (processLines lib h now (r.lines rx)) (start r.toInbox)) :=
      run_walk _ _ hlines
    rw [if_pos hlines, and_iff_right hlines, handed_dispatch, handed_processLines]
    by_cases hmode : r.exchange.mode = some .ethereumstratum2
    · obtain ⟨hcurrent, hnew⟩ := current_of_all lib h now _ (i := start r.toInbox) hmode hready hrun
      rw [foldl_rewritten lib _ _ hw] at hcurrent
      rw [hnew (.inr hne), if_pos rfl, hcurrent]
      refine ((List.append_right_inj _).trans List.singleton_inj).trans ?_
      exact ⟨fun h => ⟨fun hn => absurd hmode hn, fun _ => h⟩, fun h => h.2 hmode⟩
    · obtain ⟨v, hv⟩ := Option.ne_none_iff_exists'.mp (mt List.head?_eq_none_iff.mp hne)
      obtain ⟨hnew, hcurrent⟩ := current_of_first lib h now _ (i := start r.toInbox) hmode hready
        hrun rfl hv
      rw [hnew, if_pos rfl, hcurrent, hv, Option.some.injEq]
      refine ((List.append_right_inj _).trans List.singleton_inj).trans ?_
      exact ⟨fun h => ⟨fun _ => h, fun hm => absurd hm hmode⟩, fun h => h.1 hmode⟩
  · rw [if_neg hlines]
    refine ⟨fun hhanded => ?_, fun hand => absurd hand.1 hlines⟩
    exact absurd (List.self_eq_append_right.mp hhanded) (List.cons_ne_nil w [])

/-- A job as an EthereumStratum/2.0.0 pool sends it: its text, and what the reader makes of
it. -/
def stratum2Job (job block header : StdString) : StdString × Value :=
  let quoted (s : StdString) := '"' :: s ++ ['"']
  ("\x7b\"method\":\"mining.notify\",\"params\":[".toList ++ quoted job ++ ',' :: quoted block ++
      ',' :: quoted header ++ ",\"0\"]\x7d".toList,
    .object [("method".toList, .string "mining.notify".toList),
      ("params".toList,
        .array [.string job, .string block, .string header, .string "0".toList])])

/-- A client whose session with such a pool is initialised. -/
def stratum2Receiver : Receiver PoolManager where
  exchange :=
    { conn := { version := 3, stratumMode := 3, stratumModeConfirmed := true }
      session := some
        { subscribed := true, authorized := true, firstMiningSet := true, lastTxStamp := 0
          nextWorkBoundary := Vector.replicate 32 0xff }
      pleas := ⟨0, 0, []⟩
      owner := {} }

/-- The package of such a job, by its header. -/
def stratum2Package (job : StdString) (block : ℤ) (b : Byte) : WorkPackage :=
  { job, block, header := Vector.replicate 32 b, boundary := Vector.replicate 32 0xff, epoch := 0
    algo := "ethash".toList }

set_option maxRecDepth 8000 in
/-- Of two jobs in one transmission of an EthereumStratum/2.0.0 pool the latest is handed over. -/
theorem latest_of_two_jobs :
    let a := stratum2Job "a".toList "1".toList (List.replicate 64 '1')
    let b := stratum2Job "b".toList "2".toList (List.replicate 64 '2')
    let lib := readerOf [a, b]
    let rx := a.1 ++ '\n' :: b.1 ++ ['\n']
    let h := PoolManager.handlers fun _ => -1
    let w := stratum2Package "b".toList 2 0x22
    Along (walk (processLine lib h 0)) Ready (start stratum2Receiver.toInbox)
        (stratum2Receiver.lines rx) ∧
      (leaves (onRecvSocketDataCompleted lib h 0 rx) stratum2Receiver).handed =
        stratum2Receiver.handed ++ [w] ∧
      StepsMeet (walk (processLine lib h 0)) (Harmless lib) (start stratum2Receiver.toInbox)
        (stratum2Receiver.lines rx) := by
  intro a b lib rx h w
  have hready : Along (walk (processLine lib h 0)) Ready (start stratum2Receiver.toInbox)
      (stratum2Receiver.lines rx) := by
    decide +kernel
  have hhanded : (leaves (onRecvSocketDataCompleted lib h 0 rx) stratum2Receiver).handed =
      stratum2Receiver.handed ++ [w] := by
    decide +kernel
  have hlast : (packages (notices lib h 0 (start stratum2Receiver.toInbox)
      (stratum2Receiver.lines rx))).getLast? = some w := by
    decide +kernel
  have hmeets := (latest_job_iff lib h 0 rx stratum2Receiver hready hlast).mp hhanded
  exact And.intro hready (And.intro hhanded hmeets.1)

/-- A job as a plain stratum pool sends it, all of its hashes made of one digit: its text,
and what the reader makes of it. -/
def stratumJob (job : StdString) (digit : Char) : StdString × Value :=
  let hash := '0' :: 'x' :: List.replicate 64 digit
  let quoted (s : StdString) := '"' :: s ++ ['"']
  ("\x7b\"id\":0,\"method\":\"mining.notify\",\"params\":[".toList ++ quoted job ++
      ',' :: quoted hash ++ ',' :: quoted hash ++ ',' :: quoted hash ++ "]\x7d".toList,
    .object [("id".toList, .int 0), ("method".toList, .string "mining.notify".toList),
      ("params".toList, .array [.string job, .string hash, .string hash, .string hash])])

/-- The package of such a job. -/
def stratumPackage (job : StdString) (b : Byte) : WorkPackage :=
  { job, header := Vector.replicate 32 b, seed := Vector.replicate 32 b,
    boundary := Vector.replicate 32 b }

/-- A client that is subscribed to a plain stratum pool. -/
def stratumReceiver : Receiver PoolManager where
  exchange :=
    { conn := { version := 0, stratumMode := 0, stratumModeConfirmed := true }
      session := some { subscribed := true, authorized := true, lastTxStamp := 0 }
      pleas := ⟨0, 0, []⟩
      owner := {} }

/-- Of two jobs in one transmission of a plain stratum pool the first is handed over. -/
theorem first_job_wins :
    let a := stratumJob "a".toList '1'
    let b := stratumJob "b".toList '2'
    let rx := a.1 ++ '\n' :: b.1 ++ ['\n']
    let h := PoolManager.handlers fun _ => -1
    Along (walk (processLine (readerOf [a, b]) h 0)) Ready (start stratumReceiver.toInbox)
        (stratumReceiver.lines rx) ∧
      packages (notices (readerOf [a, b]) h 0 (start stratumReceiver.toInbox)
          (stratumReceiver.lines rx)) =
        [stratumPackage "a".toList 0x11, stratumPackage "b".toList 0x22] ∧
      (leaves (onRecvSocketDataCompleted (readerOf [a, b]) h 0 rx) stratumReceiver).handed =
        [stratumPackage "a".toList 0x11] := by
  decide +kernel

end Stratum
end FpgaEthash
