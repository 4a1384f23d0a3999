import FpgaEthash.Stratum.LatestJob
import FpgaEthash.Stratum.Traces

/-!
# Where a dispatched package comes from

A package should be made of one job and of the session, and a message that fails should
leave nothing behind.  The second is said by comparing the client with one that takes
back what a failing message has done (`undoingLine`): both hand over the same packages.

Two things stand in the way.  In EthereumStratum/2.0.0 a malformed job writes its job id
and its block over those of a job that the same transmission has already brought.  And
some messages write to the session piece by piece, and may fail in between.  A message
is `Traceless` if it does neither.  `coherent_of_traceless` says that runs of such
messages are as they should be.

The two clients are kept together by `Together`: they agree in the view, in the members
of `m_current` that a job leaves alone, and in all of `m_current` once there is a job.
-/

namespace FpgaEthash
namespace Stratum

open Devcore Ethcore Jsoncpp Pool Throwing Talk Runs Framing TwoRuns

variable {μ : Type}

/-! ## What a job leaves alone -/

/-- The members of a package that a job of the mode does not write. -/
def restOf (mode : Option StratumMode) (w : WorkPackage) :
    Option H256 × Option (ℤ × StdString) × Option (BitVec 64 × BitVec 16) :=
  if mode = some .ethereumstratum2 then (some w.seed, none, none)
  else if mode = some .ethereumstratum then (none, some (w.epoch, w.algo), none)
  else (none, some (w.epoch, w.algo), some (w.startNonce, w.exSizeBytes))

/-- A call that leaves them alone. -/
def restKept (mode : Option StratumMode) : Frame (Exchange μ) Abort where
  moves s t := restOf mode t.current = restOf mode s.current
  throws _ _ := True
  refl _ := rfl
  trans hst htu := htu.trans hst
  back _ h := h

/-- The same for the assignments to `m_current`. -/
def restKept' (mode : Option StratumMode) : Frame WorkPackage StdException where
  moves c c' := restOf mode c' = restOf mode c
  throws _ _ := True
  refl _ := rfl
  trans hst htu := htu.trans hst
  back _ h := h

section Kept

variable {mode : Option StratumMode} {s : Exchange μ} {c : WorkPackage}

theorem restKept_hash {α : Type} {y : Except StdException α}
    {k : α → EStateM StdException WorkPackage Unit}
    (hk : ∀ a, WithinAt (restKept' mode) (k a) c) :
    WithinAt (restKept' mode) (MonadExcept.ofExcept y >>= k) c := by
  cases y with
  | ok a => exact hk a
  | error e => exact withinAt_of_error rfl rfl trivial

theorem restKept_onCurrent {x : EStateM StdException WorkPackage Unit}
    (hx : ∀ c, WithinAt (restKept' mode) x c) : WithinAt (restKept mode) (onCurrent x) s := by
  have hmoves := (hx s.current).1
  cases hc : x s.current with
  | ok u current =>
    rw [leaves_of_ok hc] at hmoves
    exact withinAt_of_ok (onCurrent_of_ok s hc) hmoves
  | error e current =>
    rw [leaves_of_error hc] at hmoves
    exact withinAt_of_error (onCurrent_of_error s hc) hmoves trivial

/-- The assignments of the modes before EthereumStratum/2.0.0. -/
theorem restOf_eq {c c' : WorkPackage} (hmode : mode ≠ some .ethereumstratum2)
    (hepoch : c'.epoch = c.epoch) (halgo : c'.algo = c.algo)
    (hnonce : mode ≠ some .ethereumstratum →
      c'.startNonce = c.startNonce ∧ c'.exSizeBytes = c.exSizeBytes) :
    restOf mode c' = restOf mode c := by
  unfold restOf
  rw [if_neg hmode, if_neg hmode, hepoch, halgo]
  split_ifs with hmode1
  · rfl
  · rw [(hnonce hmode1).1, (hnonce hmode1).2]

theorem restKept_jobHashes (hmode : mode ≠ some .ethereumstratum2) (texts : JobTexts) :
    WithinAt (restKept' mode) (jobHashes texts) c := by
  have hwrite : ∀ c c' : WorkPackage, c'.epoch = c.epoch → c'.algo = c.algo →
      c'.startNonce = c.startNonce → c'.exSizeBytes = c.exSizeBytes →
      restOf mode c' = restOf mode c :=
    fun c c' hepoch halgo hnonce hsize => restOf_eq hmode hepoch halgo fun _ => ⟨hnonce, hsize⟩
  refine restKept_hash fun target => restKept_hash fun seed => ?_
  refine withinAt_modify_bind (hwrite _ _ rfl rfl rfl rfl) (restKept_hash fun header => ?_)
  refine withinAt_modify_bind (hwrite _ _ rfl rfl rfl rfl) (restKept_hash fun boundary => ?_)
  exact withinAt_modify (hwrite _ _ rfl rfl rfl rfl)

theorem restKept_jobEthereumStratum (session : Session) (sSeedHash sHeaderHash : StdString) :
    WithinAt (restKept' (some .ethereumstratum))
      (jobEthereumStratum session sSeedHash sHeaderHash) c := by
  refine restKept_hash fun seed => withinAt_modify_bind rfl (restKept_hash fun header => ?_)
  exact withinAt_modify rfl

theorem restKept_readBlock (lib : Library) (hmode : mode ≠ some .ethereumstratum2) (jPrm : Value)
    (prmIdx : ℕ) : WithinAt (restKept mode) (readBlock lib mode jPrm prmIdx) s := by
  have hblock : ∀ (s : Exchange μ) block,
      restOf mode { s.current with block } = restOf mode s.current :=
    fun s block => restOf_eq hmode rfl rfl fun _ => ⟨rfl, rfl⟩
  unfold readBlock
  split_ifs
  · refine withinAt_ofExcept_bind (fun _ => trivial) fun text _ => ?_
    split_ifs
    · split
      · exact withinAt_modify (hblock s _)
      · refine withinAt_modify_bind (hblock s _) ?_
        split_ifs
        · exact withinAt_throw trivial
        · exact withinAt_pure ()
    · exact withinAt_pure ()
  · exact withinAt_pure ()

theorem restKept_readJob (lib : Library) (now : TimePoint)
    (hmode : mode ≠ some .ethereumstratum2) (session : Session) (jPrm : Value) (prmIdx : ℕ) :
    WithinAt (restKept mode) (readJob lib now mode session jPrm prmIdx) s := by
  have hwrite : ∀ (c c' : WorkPackage), c'.epoch = c.epoch → c'.algo = c.algo →
      c'.startNonce = c.startNonce → c'.exSizeBytes = c.exSizeBytes →
      restOf mode c' = restOf mode c :=
    fun c c' hepoch halgo hnonce hsize => restOf_eq hmode hepoch halgo fun _ => ⟨hnonce, hsize⟩
  refine withinAt_ofExcept_bind (fun _ => trivial) fun job _ => ?_
  refine withinAt_modify_bind (hwrite _ _ rfl rfl rfl rfl) ?_
  split_ifs with hmode1
  · subst hmode1
    refine withinAt_ofExcept_bind (fun _ => trivial) fun seed _ => ?_
    refine withinAt_ofExcept_bind (fun _ => trivial) fun header _ => ?_
    split_ifs
    · exact withinAt_bind (restKept_onCurrent fun c => restKept_jobEthereumStratum ..)
        fun _ t => withinAt_modify rfl
    · exact withinAt_pure ()
  · refine withinAt_ofExcept_bind (fun _ => trivial) fun texts _ => ?_
    refine withinAt_modify_bind (hwrite _ _ rfl rfl rfl rfl) ?_
    refine withinAt_bind (restKept_readBlock lib hmode ..) fun _ t => ?_
    exact withinAt_bind (restKept_onCurrent fun c => restKept_jobHashes hmode texts)
      fun _ t => withinAt_modify rfl

theorem restKept_jobEthereumStratum2 (session : Session) (sHeader : StdString) :
    WithinAt (restKept' (some .ethereumstratum2)) (jobEthereumStratum2 session sHeader) c := by
  refine restKept_hash fun header => withinAt_modify_bind rfl (restKept_hash fun boundary => ?_)
  exact withinAt_modify rfl

theorem restKept_readJob2 (lib : Library) (now : TimePoint) (session : Session) (jPrm : Value) :
    WithinAt (restKept (some .ethereumstratum2)) (readJob2 lib now session jPrm) s := by
  refine withinAt_ofExcept_bind (fun _ => trivial) fun job _ => withinAt_modify_bind rfl ?_
  refine withinAt_ofExcept_bind (fun _ => trivial) fun text _ => ?_
  refine withinAt_ofExcept_bind (fun _ => trivial) fun block _ => withinAt_modify_bind rfl ?_
  refine withinAt_ofExcept_bind (fun _ => trivial) fun header _ => ?_
  exact withinAt_bind (restKept_onCurrent fun c => restKept_jobEthereumStratum2 ..)
    fun _ t => withinAt_modify rfl

end Kept

/-- **A job leaves the rest of `m_current` alone.** -/
theorem restOf_processJob (lib : Library) (now : TimePoint) (obj : Value.Members)
    (s : Exchange μ) :
    restOf s.mode (leaves (processJob lib now obj) s).current = restOf s.mode s.current := by
  by_cases hmode : s.mode = some .ethereumstratum2
  · rw [leaves, processJob_eq_onNotify2 lib now hmode]
    cases hs : s.session with
    | none => rw [onNotify2_of_none lib now obj hs]
    | some session =>
      rw [onNotify2_of_session lib now obj hs]
      split_ifs
      · rfl
      · rfl
      · rw [hmode]
        exact (restKept_readJob2 lib now session.toSession _).1
  · rw [leaves, processJob_eq_onNotify lib now hmode]
    cases hs : s.session with
    | none => rw [onNotify_of_none lib now obj hs]
    | some session =>
      rw [onNotify_of_session lib now obj hs]
      split_ifs
      · rfl
      · exact (restKept_readJob lib now hmode session.toSession _ _).1
      · rfl

/-! ## Packages -/

/-- The package has the job id, the header and the block of the notice, and its seed and its
boundary where it has them. -/
structure Notice.Matches (n : Notice) (w : WorkPackage) : Prop where
  job : w.job = n.job
  header : w.header = n.header
  block : w.block = n.block
  seed : ∀ seed, n.seed = some seed → w.seed = seed
  boundary : ∀ boundary, n.boundary = some boundary → w.boundary = boundary

/-- Which hashes a notice has, by mode. -/
theorem notice?_hashes {lib : Library} {mode : Option StratumMode} {obj : Value.Members}
    {n : Notice} (hn : notice? lib mode obj = some n) :
    if mode = some .ethereumstratum2 then n.seed = none ∧ n.boundary = none
    else n.seed.isSome = true ∧
      if mode = some .ethereumstratum then n.boundary = none else n.boundary.isSome = true := by
  unfold notice? at hn
  split_ifs at hn ⊢
  · simp only [notice2?, Option.bind_eq_bind, Option.bind_eq_some_iff, Option.pure_def,
      Option.some.injEq] at hn
    obtain ⟨_, _, _, _, _, _, _, _, _, _, rfl⟩ := hn
    exact ⟨rfl, rfl⟩
  · simp only [notice1?, Option.bind_eq_bind, Option.bind_eq_some_iff, Option.pure_def] at hn
    obtain ⟨_, _, _, _, _, _, hn⟩ := hn
    split_ifs at hn
    simp only [Option.bind_eq_some_iff, Option.some.injEq] at hn
    obtain ⟨_, _, _, _, rfl⟩ := hn
    exact ⟨rfl, rfl⟩
  · simp only [notice0?, Option.bind_eq_bind, Option.bind_eq_some_iff, Option.pure_def,
      Option.some.injEq] at hn
    obtain ⟨_, _, _, _, _, _, _, _, _, _, _, _, _, _, rfl⟩ := hn
    exact ⟨rfl, rfl⟩

theorem matches_package {lib : Library} {mode : Option StratumMode} {obj : Value.Members}
    {n : Notice} (hn : notice? lib mode obj = some n) (session : Session)
    (current : WorkPackage) : n.Matches (n.package mode session current) := by
  have hhashes := notice?_hashes hn
  unfold Notice.package
  split_ifs at hhashes ⊢
  · exact ⟨rfl, rfl, rfl, fun seed h => (nomatch hhashes.1.symm.trans h),
      fun boundary h => (nomatch hhashes.2.symm.trans h)⟩
  · exact ⟨rfl, rfl, rfl, fun seed h => congrArg (·.getD current.seed) h,
      fun boundary h => (nomatch hhashes.2.symm.trans h)⟩
  · exact ⟨rfl, rfl, rfl, fun seed h => congrArg (·.getD current.seed) h,
      fun boundary h => congrArg (·.getD current.boundary) h⟩

/-- The package of a notice does not depend on what a job writes. -/
theorem package_congr {lib : Library} {mode : Option StratumMode} {obj : Value.Members}
    {n : Notice} (hn : notice? lib mode obj = some n) (session : Session) {c c' : WorkPackage}
    (hrest : restOf mode c = restOf mode c') :
    n.package mode session c = n.package mode session c' := by
  have hhashes := notice?_hashes hn
  unfold Notice.package
  unfold restOf at hrest
  split_ifs at hhashes hrest ⊢
  · simp only [Prod.mk.injEq, Option.some.injEq, and_true] at hrest
    rw [hrest]
  · obtain ⟨seed, hseed⟩ := Option.isSome_iff_exists.mp hhashes.1
    simp only [Prod.mk.injEq, Option.some.injEq, and_true, true_and] at hrest
    rw [hseed, hrest.1, hrest.2]
    rfl
  · obtain ⟨seed, hseed⟩ := Option.isSome_iff_exists.mp hhashes.1
    obtain ⟨boundary, hboundary⟩ := Option.isSome_iff_exists.mp hhashes.2
    simp only [Prod.mk.injEq, Option.some.injEq, true_and] at hrest
    obtain ⟨⟨hepoch, halgo⟩, hnonce, hsize⟩ := hrest
    rw [hseed, hboundary, hepoch, halgo, hnonce, hsize]
    rfl

/-! ## One message, two clients -/

/-- The message leaves no trace if it fails: it is no malformed job of EthereumStratum/2.0.0
after one that was taken, unless it says the same job id and block, and if it writes to the
session piece by piece, it can be read to the end. -/
structure Traceless (lib : Library) (s : Exchange μ) (m : Value) : Prop where
  job : ∀ obj, jobMessage? lib s m = some obj → s.mode = some .ethereumstratum2 →
    s.newjobprocessed = true → notice? lib s.mode obj = none →
      spoil lib s.current obj = s.current
  session : ∀ e, essentials lib s.mode m = .ok e → Clean lib s.mode e

/-- A message, processed by a client that takes back what a failing message has done. -/
def undoing (lib : Library) (h : Handlers μ) (now : TimePoint) (m : Value) (t : Exchange μ) :
    Exchange μ :=
  if (thrown (processResponse lib h now m) t).any Abort.isStdException then t
  else leaves (processResponse lib h now m) t

/-- The two clients agree as far as packages go. -/
structure Together (s t : Exchange μ) : Prop where
  view : view s = view t
  rest : restOf s.mode s.current = restOf s.mode t.current
  current : s.newjobprocessed = true → s.current = t.current

section Message

variable (lib : Library) {h : Handlers μ} (now : TimePoint) {s t : Exchange μ} {m : Value}

theorem jobMessage?_congr (hview : view s = view t) :
    jobMessage? lib s m = jobMessage? lib t m := by
  unfold jobMessage?
  rw [mode_of_view hview, (view_eq_iff.mp hview).1]

/-- The view is the same after the message. -/
theorem view_undoing (htame : Tame h) (htraceless : Traceless lib s m) (hview : view s = view t) :
    view (leaves (processResponse lib h now m) s) = view (undoing lib h now m t) := by
  have halike := alike_processResponse lib now htame m
  unfold undoing
  split_ifs with hcaught
  · rw [← halike.thrown_eq hview] at hcaught
    cases hp : processResponse lib h now m s with
    | ok u s' =>
      rw [thrown_of_ok hp] at hcaught
      exact nomatch hcaught
    | error e s' =>
      rw [thrown_of_error hp] at hcaught
      rw [leaves_of_error hp]
      exact (undone_processResponse lib now htame htraceless.session e s' hp hcaught).trans hview
  · exact halike.leaves_eq hview

/-- What a message keeps that is no job, the other client keeps as well. -/
theorem quiet_undoing (hm : jobMessage? lib t m = none) :
    (undoing lib h now m t).current = t.current := by
  unfold undoing
  split_ifs
  · rfl
  · exact (processResponse_quiet lib h now hm).1.current

theorem rest_undoing {obj : Value.Members} (hm : jobMessage? lib t m = some obj) :
    restOf t.mode (undoing lib h now m t).current = restOf t.mode t.current := by
  unfold undoing
  split_ifs
  · rfl
  · rw [leaves, processResponse_of_job lib h now hm]
    exact restOf_processJob lib now obj t

/-- A job leaves no trace if it is well formed, and neither if it is the first of its
transmission. -/
theorem traceless_of_notify {e : Essentials} (he : essentials lib s.mode m = .ok e)
    (hnote : e.isNotification = true) (hmethod : e.method = "mining.notify".toList)
    (hjob : s.newjobprocessed = false ∨ (notice? lib s.mode e.checked).isSome = true) :
    Traceless lib s m := by
  refine ⟨fun obj hobj _ hnew hn => ?_, fun e' he' => ?_⟩
  · have hobj' : obj = e.checked := by
      unfold jobMessage? at hobj
      rw [he] at hobj
      dsimp only at hobj
      split_ifs at hobj
      all_goals exact (Option.some.inj hobj).symm
    rcases hjob with hfirst | hsome
    · exact absurd (hfirst.symm.trans hnew) Bool.false_ne_true
    · rw [← hobj', hn] at hsome
      exact nomatch hsome
  · obtain rfl := Except.ok.inj (he.symm.trans he')
    refine ⟨fun _ hset => ?_, fun _ hset => ?_, fun hreply => ?_⟩
    · exact absurd (hmethod.symm.trans hset) (by decide)
    · exact absurd (hmethod.symm.trans hset) (by decide)
    · exact absurd (hnote.symm.trans hreply) Bool.true_eq_false.mp

/-- A job that comes to its end is processed by both. -/
theorem undoing_of_ok {obj : Value.Members} {t' : Exchange μ}
    (hm : jobMessage? lib t m = some obj) (hrun : processJob lib now obj t = .ok () t') :
    undoing lib h now m t = t' := by
  have hp : processResponse lib h now m t = .ok () t' :=
    (processResponse_of_job lib h now hm).trans hrun
  unfold undoing
  rw [thrown_of_ok hp, leaves_of_ok hp, Option.any_none, if_neg Bool.false_ne_true]

/-- A job, in the first client.  It is passed over, or taken; or it is malformed, and then it
is not taken, and in EthereumStratum/2.0.0 it spoils what is there. -/
theorem processJob_cases (obj : Value.Members) (s : Exchange μ) :
    (∀ t : Exchange μ, view t = view s → processJob lib now obj t = .ok () t) ∨
      (∃ session n, notice? lib s.mode obj = some n ∧
        ∀ t : Exchange μ, view t = view s →
          processJob lib now obj t = .ok () (t.take now (n.package s.mode session t.current))) ∨
      (notice? lib s.mode obj = none ∧ s.mode = some .ethereumstratum2 ∧
        ∀ t : Exchange μ, view t = view s →
          leaves (processJob lib now obj) t = { t with current := spoil lib t.current obj }) ∨
      (s.newjobprocessed = false ∧ ∃ current,
        leaves (processJob lib now obj) s = { s with current }) := by
  rcases Option.eq_none_or_eq_some s.session with hs | ⟨session, hs⟩
  · refine .inl fun t hview => ?_
    have ht : t.session = none := (view_eq_iff.mp hview).2.1.trans hs
    by_cases hmode : t.mode = some .ethereumstratum2
    · rw [processJob_eq_onNotify2 lib now hmode, onNotify2_of_none lib now obj ht]
    · rw [processJob_eq_onNotify lib now hmode, onNotify_of_none lib now obj ht]
  · have hsession : ∀ {t : Exchange μ}, view t = view s → t.session = some session :=
      fun hview => (view_eq_iff.mp hview).2.1.trans hs
    by_cases hmode : s.mode = some .ethereumstratum2
    · cases hset : session.firstMiningSet with
      | false =>
        refine .inl fun t hview => ?_
        rw [processJob_eq_onNotify2 lib now ((mode_of_view hview).trans hmode),
          onNotify2_of_session lib now obj (hsession hview), hset]
        rfl
      | true =>
        cases hn : notice? lib s.mode obj with
        | some n =>
          refine .inr (.inl ⟨session.toSession, n, rfl, fun t hview => ?_⟩)
          rw [← mode_of_view hview] at hn ⊢
          exact processJob2_of_notice lib now (hsession hview)
            ((mode_of_view hview).trans hmode) hset hn
        | none =>
          refine .inr (.inr (.inl ⟨rfl, hmode, fun t hview => ?_⟩))
          rw [← mode_of_view hview] at hn
          exact processJob2_of_malformed lib now (hsession hview)
            ((mode_of_view hview).trans hmode) hset hn
    · by_cases hpass : session.subscribed = false ∨ s.newjobprocessed = true
      · refine .inl fun t hview => ?_
        refine processJob_of_passed lib now (hsession hview) ?_ ?_
        · rw [mode_of_view hview]
          exact hmode
        · rw [(view_eq_iff.mp hview).2.2.1]
          exact hpass
      · rw [not_or, Bool.not_eq_false, Bool.not_eq_true] at hpass
        cases hn : notice? lib s.mode obj with
        | some n =>
          refine .inr (.inl ⟨session.toSession, n, rfl, fun t hview => ?_⟩)
          have hmode' : t.mode ≠ some .ethereumstratum2 := by
            rw [mode_of_view hview]
            exact hmode
          rw [← mode_of_view hview] at hn ⊢
          exact processJob_of_notice lib now (hsession hview) hmode' hpass.1
            ((view_eq_iff.mp hview).2.2.1.trans hpass.2) hn
        | none =>
          exact .inr (.inr (.inr ⟨hpass.2, processJob_of_malformed lib now hs hmode hn⟩))

/-- **The two clients stay together.** -/
theorem together_message (htame : Tame h) (htraceless : Traceless lib s m)
    (htogether : Together s t) :
    Together (leaves (processResponse lib h now m) s) (undoing lib h now m t) := by
  have hview := htogether.view
  have hbound := processResponse_bound lib h now (s := s) (m := m)
  refine ⟨view_undoing lib now htame htraceless hview, ?_, ?_⟩
  · rw [hbound.mode]
    cases hm : jobMessage? lib s m with
    | none =>
      rw [(processResponse_quiet lib h now hm).1.current,
        quiet_undoing lib now ((jobMessage?_congr lib hview).symm.trans hm)]
      exact htogether.rest
    | some obj =>
      have hrest := rest_undoing lib (h := h) now ((jobMessage?_congr lib hview).symm.trans hm)
      rw [← mode_of_view hview] at hrest
      rw [leaves, processResponse_of_job lib h now hm, hrest, ← htogether.rest]
      exact restOf_processJob lib now obj s
  · intro hnew
    cases hm : jobMessage? lib s m with
    | none =>
      have hquiet := (processResponse_quiet lib h now hm).1
      rw [hquiet.newjobprocessed] at hnew
      rw [hquiet.current, quiet_undoing lib now ((jobMessage?_congr lib hview).symm.trans hm)]
      exact htogether.current hnew
    | some obj =>
      have hmt := (jobMessage?_congr lib hview).symm.trans hm
      have hjob : leaves (processResponse lib h now m) s = leaves (processJob lib now obj) s := by
        rw [leaves, processResponse_of_job lib h now hm, leaves]
      rw [hjob] at hnew ⊢
      rcases processJob_cases lib now obj s with hpass | ⟨session, n, hn, htake⟩ |
        ⟨hn, hmode, hspoil⟩ | ⟨hclear, current, hleft⟩
      · rw [leaves_of_ok (hpass s rfl)] at hnew ⊢
        rw [undoing_of_ok lib now hmt (hpass t hview.symm)]
        exact htogether.current hnew
      · rw [leaves_of_ok (htake s rfl), undoing_of_ok lib now hmt (htake t hview.symm)]
        exact package_congr hn session htogether.rest
      · rw [hspoil s rfl] at hnew ⊢
        have hsame := htraceless.job obj hm hmode hnew hn
        have hcurrent := htogether.current hnew
        show spoil lib s.current obj = _
        unfold undoing
        split_ifs
        · exact hsame.trans hcurrent
        · rw [leaves, processResponse_of_job lib h now hmt]
          show _ = (leaves (processJob lib now obj) t).current
          rw [hspoil t hview.symm, hcurrent]
      · rw [hleft] at hnew
        exact absurd (hclear.symm.trans hnew) Bool.false_ne_true

end Message

/-! ## The message that a package is from -/

/-- The message is a job: a `mining.notify`, or the work that an eth-proxy pool sends in
reply to request 5. -/
def Essentials.IsJob (mode : Option StratumMode) (e : Essentials) : Prop :=
  (e.isNotification = true ∧ e.method = "mining.notify".toList) ∨
    (e.isNotification = false ∧ e.id = 5 ∧ mode = some .ethproxy ∧ e.jResult.isArray = true)

/-- The package is from one of the texts: the text is a job, and the package matches it. -/
def FromOne (lib : Library) (mode : Option StratumMode) (texts : List StdString)
    (w : WorkPackage) : Prop :=
  ∃ text ∈ texts, ∃ m e n, lib.parse text = .ok (some m) ∧ essentials lib mode m = .ok e ∧
    e.IsJob mode ∧ notice? lib mode e.checked = some n ∧ n.Matches w

theorem FromOne.append {lib : Library} {mode : Option StratumMode} {texts : List StdString}
    {w : WorkPackage} (h : FromOne lib mode texts w) (texts' : List StdString) :
    FromOne lib mode (texts ++ texts') w := by
  obtain ⟨text, hmem, hrest⟩ := h
  exact ⟨text, List.mem_append_left _ hmem, hrest⟩

/-- The notice that a text brings, if it is the text of a job. -/
def noticeOf (lib : Library) (mode : Option StratumMode) (text : StdString) : Option Notice := do
  let jMsg ← (lib.parse text).toOption
  let m ← jMsg
  let e ← (essentials lib mode m).toOption
  notice? lib mode e.checked

theorem FromOne.exists_noticeOf {lib : Library} {mode : Option StratumMode}
    {texts : List StdString} {w : WorkPackage} (h : FromOne lib mode texts w) :
    ∃ text ∈ texts, ∃ n, noticeOf lib mode text = some n ∧ n.Matches w := by
  obtain ⟨text, hmem, m, e, n, hparse, he, -, hn, hmatch⟩ := h
  refine ⟨text, hmem, n, ?_, hmatch⟩
  rw [noticeOf, hparse]
  show (essentials lib mode m).toOption.bind _ = _
  rw [he]
  exact hn

theorem exists_of_jobMessage? {lib : Library} {s : Exchange μ} {m : Value} {obj : Value.Members}
    (hm : jobMessage? lib s m = some obj) :
    ∃ e, essentials lib s.mode m = .ok e ∧ e.IsJob s.mode ∧ e.checked = obj := by
  unfold jobMessage? at hm
  cases he : essentials lib s.mode m with
  | error e => exact nomatch he ▸ hm
  | ok e =>
    rw [he] at hm
    dsimp only at hm
    split_ifs at hm with hvalid hnote hmethod hreply
    · exact ⟨e, rfl, .inl ⟨hnote, hmethod⟩, Option.some.inj hm⟩
    · exact ⟨e, rfl, .inr ⟨Bool.not_eq_true _ ▸ hnote, hreply⟩, Option.some.inj hm⟩

theorem parse_of_message? {lib : Library} {line : StdString} {m : Value}
    (hm : message? lib line = some m) :
    texts [line] = [trim line] ∧ lib.parse (trim line) = .ok (some m) := by
  unfold message? at hm
  split_ifs at hm with hblank
  refine ⟨by simp [texts, hblank], ?_⟩
  cases hparse : lib.parse (trim line) with
  | error e =>
    rw [hparse] at hm
    cases hm
  | ok jMsg =>
    rw [hparse] at hm
    exact congrArg Except.ok hm

/-! ## One line, two clients -/

/-- A line, for the client that takes back what a failing message has done. -/
def undoingLine (lib : Library) (h : Handlers μ) (now : TimePoint) (line : StdString) :
    EStateM Abort (Inbox μ) Unit := fun j =>
  match processLine lib h now line j with
  | .error e j' => .error e j'
  | .ok _ j' => .ok ()
      { j' with
        exchange := (message? lib line).elim j.exchange fun jMsg =>
          undoing lib h now jMsg j.exchange }

/-- The line is blank, or its message leaves no trace if it fails. -/
def TracelessLine (lib : Library) (i : Inbox μ) (line : StdString) : Prop :=
  ∀ m, message? lib line = some m → Traceless lib i.exchange m

/-- Both clients have handed over the same, and what they have handed over is from one
message each. -/
structure HandedAlike (lib : Library) (mode : Option StratumMode) (old : List WorkPackage)
    (i j : Inbox μ) : Prop where
  handed : i.handed = j.handed
  fromOne : ∀ w ∈ i.handed, w ∈ old ∨ FromOne lib mode i.parsed w

/-- Both clients will hand over the same, and it will be from one message. -/
structure SideBySide (lib : Library) (mode : Option StratumMode) (old : List WorkPackage)
    (i j : Inbox μ) : Prop extends HandedAlike lib mode old i j where
  mode_eq : i.exchange.mode = mode
  together : Together i.exchange j.exchange
  current : i.exchange.newjobprocessed = true → FromOne lib mode i.parsed i.exchange.current

section Line

variable (lib : Library) {h : Handlers μ} (now : TimePoint) {i j : Inbox μ} {line : StdString}
  {mode : Option StratumMode} {old : List WorkPackage}

/-- The `try` keeps what it catches. -/
theorem thrown_processGuarded_eq (m : Value) (i : Inbox μ) :
    thrown (processGuarded lib h now m) i =
      (thrown (processResponse lib h now m) i.exchange).filter (!·.isStdException) := by
  unfold thrown processGuarded
  cases processResponse lib h now m i.exchange with
  | ok u s => rfl
  | error e s =>
    dsimp only
    rw [Option.filter_some]
    cases e.isStdException <;> rfl

/-- What leaves a line. -/
theorem thrown_processLine_eq (line : StdString) (i : Inbox μ) :
    thrown (processLine lib h now line) i =
      if trim line = [] then none
      else
        match lib.parse (trim line) with
        | .error e => some (.json e)
        | .ok none => none
        | .ok (some m) =>
          (thrown (processResponse lib h now m) i.exchange).filter (!·.isStdException) := by
  unfold processLine
  split_ifs with hblank
  · rfl
  · let i' : Inbox μ := { i with parsed := i.parsed ++ [trim line] }
    show thrown (ofExcept Abort.json (lib.parse (trim line)) >>= _) i' = _
    cases lib.parse (trim line) with
    | error e => rfl
    | ok jMsg =>
      cases jMsg with
      | none => rfl
      | some m => exact thrown_processGuarded_eq lib now m i'

theorem thrown_processLine_congr (htame : Tame h) (hview : view i.exchange = view j.exchange) :
    thrown (processLine lib h now line) i = thrown (processLine lib h now line) j := by
  rw [thrown_processLine_eq, thrown_processLine_eq]
  have hthrown := fun m => (alike_processResponse lib now htame m).thrown_eq hview
  simp only [hthrown]

/-- What is in `m_current` when a job has been taken is from one message, after a line that
leaves no trace. -/
theorem fromOne_processLine (htraceless : TracelessLine lib i line)
    (hcurrent : i.exchange.newjobprocessed = true →
      FromOne lib i.exchange.mode i.parsed i.exchange.current)
    (hnew : (leaves (processLine lib h now line) i).exchange.newjobprocessed = true) :
    FromOne lib i.exchange.mode (leaves (processLine lib h now line) i).parsed
      (leaves (processLine lib h now line) i).exchange.current := by
  rw [parsed_processLine]
  cases hnotify : notify? lib i.exchange line with
  | none =>
    have hquiet := quiet_of_not_notify lib h now hnotify
    rw [hquiet.newjobprocessed] at hnew
    rw [hquiet.current]
    exact (hcurrent hnew).append _
  | some obj =>
    have hexchange := exchange_of_notify lib h now hnotify
    obtain ⟨m, hm, hobj⟩ := Option.bind_eq_some_iff.mp hnotify
    rw [hexchange] at hnew ⊢
    rcases processJob_cases lib now obj i.exchange with hpass | ⟨session, n, hn, htake⟩ |
      ⟨hn, hmode, hspoil⟩ | ⟨hclear, current, hleft⟩
    · rw [leaves_of_ok (hpass _ rfl)] at hnew ⊢
      exact (hcurrent hnew).append _
    · obtain ⟨htexts, hparse⟩ := parse_of_message? hm
      obtain ⟨e, he, hjob, rfl⟩ := exists_of_jobMessage? hobj
      rw [leaves_of_ok (htake _ rfl), htexts]
      exact ⟨trim line, List.mem_append_right _ (List.mem_singleton_self _), m, e, n, hparse,
        he, hjob, hn, matches_package hn session _⟩
    · rw [hspoil _ rfl] at hnew ⊢
      have hsame := (htraceless m hm).job obj hobj hmode hnew hn
      show FromOne lib _ _ (spoil lib i.exchange.current obj)
      rw [hsame]
      exact (hcurrent hnew).append _
    · rw [hleft] at hnew
      exact absurd (hclear.symm.trans hnew) Bool.false_ne_true

/-- **A line that leaves no trace keeps the two clients side by side.** -/
theorem lockstep_line (htame : Tame h) (htraceless : TracelessLine lib i line)
    (hside : SideBySide lib mode old i j) :
    Lockstep (SideBySide lib mode old) (HandedAlike lib mode old)
      (processLine lib h now line i) (undoingLine lib h now line j) := by
  have hthrown : thrown (processLine lib h now line) i = thrown (processLine lib h now line) j :=
    thrown_processLine_congr lib now htame hside.together.view
  have hi := leaves_processLine lib h now line i
  have hj := leaves_processLine lib h now line j
  have hcurrent := fromOne_processLine lib (h := h) now htraceless
    (hside.mode_eq ▸ hside.current)
  have hparsed : ∀ w ∈ i.handed, w ∈ old ∨ FromOne lib mode (i.parsed ++ texts [line]) w :=
    fun w hw => (hside.fromOne w hw).imp_right fun hone => hone.append _
  unfold undoingLine
  cases hpi : processLine lib h now line i with
  | error e i' =>
    cases hpj : processLine lib h now line j with
    | ok u j' =>
      rw [thrown_of_error hpi, thrown_of_ok hpj] at hthrown
      exact nomatch hthrown
    | error e' j' =>
      rw [thrown_of_error hpi, thrown_of_error hpj] at hthrown
      obtain rfl := Option.some.inj hthrown
      rw [leaves_of_error hpi] at hi
      rw [leaves_of_error hpj] at hj
      rw [hi, hj]
      exact .error ⟨hside.handed, hparsed⟩
  | ok u i' =>
    cases hpj : processLine lib h now line j with
    | error e' j' =>
      rw [thrown_of_ok hpi, thrown_of_error hpj] at hthrown
      exact nomatch hthrown
    | ok u j' =>
      rw [leaves_of_ok hpi] at hi hcurrent
      rw [leaves_of_ok hpj] at hj
      refine .ok ⟨⟨?_, ?_⟩, ?_, ?_, ?_⟩
      · rw [hi, hj]
        exact hside.handed
      · rw [hi]
        exact hparsed
      · rw [← leaves_of_ok hpi, mode_processLine, hside.mode_eq]
      · rw [hi]
        cases hm : message? lib line with
        | none => exact hside.together
        | some m => exact together_message lib now htame (htraceless m hm) hside.together
      · rw [← hside.mode_eq]
        exact hcurrent

/-- The dispatch keeps them there. -/
theorem lockstep_dispatch (hside : SideBySide lib mode old i j) :
    Lockstep (SideBySide lib mode old) (HandedAlike lib mode old)
      (dispatch h i) (dispatch h j) := by
  obtain ⟨hconn, hsession, hflag, hmax, howner⟩ := view_eq_iff.mp hside.together.view
  unfold dispatch
  by_cases hnew : i.exchange.newjobprocessed = true
  · have hcurrent := hside.together.current hnew
    rw [if_pos hnew, if_pos (hflag.symm.trans hnew), ← hconn, ← howner, ← hcurrent]
    have hhanded : i.handed ++ [i.exchange.current] = j.handed ++ [i.exchange.current] := by
      rw [hside.handed]
    have hfrom : ∀ w ∈ i.handed ++ [i.exchange.current],
        w ∈ old ∨ FromOne lib mode i.parsed w := by
      intro w hw
      rcases List.mem_append.mp hw with hw | hw
      · exact hside.fromOne w hw
      · exact .inr (List.mem_singleton.mp hw ▸ hside.current hnew)
    cases h.onWorkReceived i.exchange.conn i.exchange.current i.exchange.owner with
    | error e owner => exact .error ⟨hhanded, hfrom⟩
    | ok u owner =>
      refine .ok ⟨⟨hhanded, hfrom⟩, hside.mode_eq, ⟨?_, hside.together.rest, fun _ => hcurrent⟩,
        hside.current⟩
      exact view_eq_iff.mpr ⟨hconn, hsession, hflag, hmax, rfl⟩
  · rw [if_neg hnew, if_neg (hflag ▸ hnew)]
    exact .ok hside

end Line

/-! ## Reads -/

/-- A transmission, for the client that takes back what failing messages have done. -/
def undoingTransmission (lib : Library) (h : Handlers μ) (now : TimePoint)
    (lines : List StdString) : EStateM Abort (Inbox μ) Unit := do
  modify start
  lines.forM (undoingLine lib h now)
  dispatch h

/-- A read, for that client. -/
def undoingReceive (lib : Library) (h : Handlers μ) (read : Read μ) :
    EStateM Abort (Receiver μ) Unit := fun r =>
  match undoingTransmission lib h read.now (r.lines read.rx)
      { r.toInbox with exchange := read.before r.exchange } with
  | .ok _ toInbox => .ok () ⟨toInbox, rest '\n' (r.message ++ read.rx)⟩
  | .error e toInbox => .error e ⟨toInbox, rest '\n' (r.message ++ read.rx)⟩

/-- The two clients between two reads. -/
structure Abreast (lib : Library) (mode : Option StratumMode) (old : List WorkPackage)
    (r r' : Receiver μ) : Prop where
  message : r.message = r'.message
  inbox : SideBySide lib mode old r.toInbox r'.toInbox

/-- What the other handlers do between two reads of a connection.  They leave the mode and
`m_current` alone, and see no more than the view. -/
structure Bystander (f : Exchange μ → Exchange μ) : Prop where
  mode : ∀ s, (f s).mode = s.mode
  current : ∀ s, (f s).current = s.current
  view : ∀ s t, view s = view t → view (f s) = view (f t)

/-- The read brings no message that leaves a trace when it fails, and no other handler has
interfered. -/
structure TracelessRead (lib : Library) (h : Handlers μ) (r : Receiver μ) (read : Read μ) :
    Prop where
  before : Bystander read.before
  lines : TurnsMeet (processLine lib h read.now) (TracelessLine lib)
    (start { r.toInbox with exchange := read.before r.exchange }) (r.lines read.rx)

section Reads

variable (lib : Library) {h : Handlers μ} {mode : Option StratumMode} {old : List WorkPackage}

theorem SideBySide.start {i j : Inbox μ} {read : Read μ} (hbefore : Bystander read.before)
    (hside : SideBySide lib mode old i j) :
    SideBySide lib mode old (start { i with exchange := read.before i.exchange })
      (start { j with exchange := read.before j.exchange }) := by
  obtain ⟨hconn, hsession, -, hmax, howner⟩ :=
    view_eq_iff.mp (hbefore.view _ _ hside.together.view)
  refine ⟨⟨hside.handed, hside.fromOne⟩, (hbefore.mode _).trans hside.mode_eq, ⟨?_, ?_, nofun⟩,
    nofun⟩
  · exact view_eq_iff.mpr ⟨hconn, hsession, rfl, hmax, howner⟩
  · show restOf (read.before i.exchange).mode (read.before i.exchange).current =
      restOf (read.before i.exchange).mode (read.before j.exchange).current
    rw [hbefore.mode, hbefore.current, hbefore.current]
    exact hside.together.rest

/-- **A read without such messages keeps the two clients side by side.** -/
theorem lockstep_receive (htame : Tame h) (read : Read μ) (r r' : Receiver μ)
    (habreast : Abreast lib mode old r r') (htraceless : TracelessRead lib h r read) :
    Lockstep (Abreast lib mode old) (fun r r' => HandedAlike lib mode old r.toInbox r'.toInbox)
      (receive lib h read r) (undoingReceive lib h read r') := by
  obtain ⟨hmessage, hside⟩ := habreast
  have hlines : r'.lines read.rx = r.lines read.rx := by
    rw [Receiver.lines, ← hmessage, Receiver.lines]
  let r₀ : Receiver μ := { r with exchange := read.before r.exchange }
  let r₀' : Receiver μ := { r' with exchange := read.before r'.exchange }
  have hread : match processTransmission lib h read.now (r.lines read.rx) r₀.toInbox with
      | .ok _ i => receive lib h read r = .ok () ⟨i, rest '\n' (r.message ++ read.rx)⟩
      | .error e i => ∃ m, receive lib h read r = .error e ⟨i, m⟩ :=
    onRecvSocketDataCompleted_eq lib h read.now read.rx r₀
  have hstep : Lockstep (SideBySide lib mode old) (HandedAlike lib mode old)
      (processTransmission lib h read.now (r.lines read.rx) r₀.toInbox)
      (undoingTransmission lib h read.now (r'.lines read.rx) r₀'.toInbox) := by
    rw [hlines]
    refine lockstep_bind (x := (r.lines read.rx).forM (processLine lib h read.now))
      (s := start r₀.toInbox) (t := start r₀'.toInbox) ?_
      fun _ _ _ _ hside' => lockstep_dispatch lib hside'
    have hturn : ∀ line (i j : Inbox μ), SideBySide lib mode old i j → TracelessLine lib i line →
        Lockstep (SideBySide lib mode old) (HandedAlike lib mode old)
          (processLine lib h read.now line i) (undoingLine lib h read.now line j) :=
      fun line i j hij hline => lockstep_line lib read.now htame hline hij
    exact lockstep_forM hturn _ (hside.start lib htraceless.before) htraceless.lines
  unfold undoingReceive
  generalize processTransmission lib h read.now (r.lines read.rx) r₀.toInbox = res at hread hstep
  change Lockstep _ _ _ (match undoingTransmission lib h read.now (r'.lines read.rx)
    r₀'.toInbox with | .ok _ toInbox => _ | .error e toInbox => _)
  generalize undoingTransmission lib h read.now (r'.lines read.rx) r₀'.toInbox = res' at hstep
  cases hstep with
  | ok hij =>
    dsimp only at hread
    rw [hread]
    exact .ok ⟨by rw [hmessage], hij⟩
  | error hij =>
    obtain ⟨m, hm⟩ := hread
    rw [hm]
    exact .error hij

/-- **Where no message leaves a trace when it fails, jobs are coherent.**  Over any run of reads
that is free of such messages, every package that is handed over has its job id, its header
and its block, and where the mode carries them its seed and its boundary, from one job that
the pool has sent.  And the packages are those of a client that takes back what failing
messages have done. -/
theorem coherent_of_traceless (htame : Tame h) (reads : List (Read μ)) (r : Receiver μ)
    (hreads : TurnsMeet (receive lib h) (TracelessRead lib h) r reads)
    (hnew : r.exchange.newjobprocessed = false) :
    (∀ w ∈ (leaves (receiveAll lib h reads) r).handed, w ∈ r.handed ∨
        FromOne lib r.exchange.mode (leaves (receiveAll lib h reads) r).parsed w) ∧
      (leaves (receiveAll lib h reads) r).handed =
        (leaves (reads.forM (undoingReceive lib h)) r).handed ∧
      thrown (receiveAll lib h reads) r = thrown (reads.forM (undoingReceive lib h)) r := by
  have hside : SideBySide lib r.exchange.mode r.handed r.toInbox r.toInbox :=
    ⟨⟨rfl, fun w hw => .inl hw⟩, rfl, ⟨rfl, rfl, fun _ => rfl⟩,
      fun h => nomatch hnew.symm.trans h⟩
  have hrun := lockstep_forM (lockstep_receive lib htame) reads ⟨rfl, hside⟩ hreads
  have halike := hrun.leaves
    (P := fun r' r'' => HandedAlike lib r.exchange.mode r.handed r'.toInbox r''.toInbox)
    (fun _ _ habreast => habreast.inbox.toHandedAlike) fun _ _ halike => halike
  exact ⟨halike.fromOne, halike.handed, hrun.thrown_eq⟩

end Reads

theorem traceless_stratum2Job (lib : Library) {s : Exchange μ} (hnew : s.newjobprocessed = false)
    (job block header : StdString) : Traceless lib s (stratum2Job job block header).2 := by
  have he : essentials lib s.mode (stratum2Job job block header).2 = .ok _ := rfl
  exact traceless_of_notify lib he rfl rfl (.inl hnew)

/-- A job with a header that is no number, before a good one: it leaves no trace. -/
theorem coherent_after_malformed :
    let b := stratum2Job "b".toList "2".toList "zz".toList
    let a := stratum2Job "a".toList "1".toList (List.replicate 64 '1')
    let lib := readerOf [b, a]
    let h := PoolManager.handlers fun _ => -1
    let reads : List (Read PoolManager) := [⟨b.1 ++ '\n' :: a.1 ++ ['\n'], 0, id⟩]
    TurnsMeet (receive lib h) (TracelessRead lib h) stratum2Receiver reads ∧
      (leaves (receiveAll lib h reads) stratum2Receiver).handed =
        [stratum2Package "a".toList 1 0x11] ∧
      FromOne lib (some .ethereumstratum2) [b.1, a.1] (stratum2Package "a".toList 1 0x11) := by
  intro b a lib h reads
  have hlines : stratum2Receiver.lines (b.1 ++ '\n' :: a.1 ++ ['\n']) = [b.1, a.1] := by
    decide +kernel
  have hb : message? lib b.1 = some b.2 := rfl
  have ha : message? lib a.1 = some a.2 := rfl
  have hnew : (leaves (processLine lib h 0 b.1)
      (start stratum2Receiver.toInbox)).exchange.newjobprocessed = false := by
    decide +kernel
  have hturns : TurnsMeet (processLine lib h 0) (TracelessLine lib)
      (start stratum2Receiver.toInbox) [b.1, a.1] := by
    refine ⟨fun m hm => ?_, fun i hi => ⟨fun m hm => ?_, fun _ _ => trivial⟩⟩
    · obtain rfl := Option.some.inj (hb.symm.trans hm)
      exact traceless_stratum2Job lib rfl _ _ _
    · obtain rfl := Option.some.inj (ha.symm.trans hm)
      rw [leaves_of_ok hi] at hnew
      exact traceless_stratum2Job lib hnew _ _ _
  have hreads : TurnsMeet (receive lib h) (TracelessRead lib h) stratum2Receiver reads :=
    ⟨⟨⟨fun _ => rfl, fun _ => rfl, fun _ _ hview => hview⟩, hlines ▸ hturns⟩, fun _ _ => trivial⟩
  have hhanded : (leaves (receiveAll lib h reads) stratum2Receiver).handed =
      [stratum2Package "a".toList 1 0x11] := by
    decide +kernel
  have hparsed : (leaves (receiveAll lib h reads) stratum2Receiver).parsed = [b.1, a.1] := by
    decide +kernel
  have hmem : stratum2Package "a".toList 1 0x11 ∈
      (leaves (receiveAll lib h reads) stratum2Receiver).handed := by
    rw [hhanded]
    exact List.mem_singleton_self _
  have hcoherent := (coherent_of_traceless lib (h := h) (PoolManager.handlers_tame _) reads
    stratum2Receiver hreads rfl).1
  rw [hparsed] at hcoherent
  have hfrom := (hcoherent _ hmem).resolve_left (show _ ∉ [] from List.not_mem_nil)
  exact And.intro hreads (And.intro hhanded hfrom)

/-- The same two jobs in the other order: the package has the job id and the block of the
malformed job, and the header of the good one. -/
theorem mixed_package :
    let b := stratum2Job "b".toList "2".toList "zz".toList
    let a := stratum2Job "a".toList "1".toList (List.replicate 64 '1')
    let lib := readerOf [b, a]
    let h := PoolManager.handlers fun _ => -1
    let reads : List (Read PoolManager) := [⟨a.1 ++ '\n' :: b.1 ++ ['\n'], 0, id⟩]
    (leaves (receiveAll lib h reads) stratum2Receiver).handed =
        [stratum2Package "b".toList 2 0x11] ∧
      ¬ FromOne lib stratum2Receiver.exchange.mode
        (leaves (receiveAll lib h reads) stratum2Receiver).parsed
        (stratum2Package "b".toList 2 0x11) := by
  intro b a lib h reads
  have hhanded : (leaves (receiveAll lib h reads) stratum2Receiver).handed =
      [stratum2Package "b".toList 2 0x11] := by
    decide +kernel
  refine And.intro hhanded fun hone => ?_
  have hparsed : (leaves (receiveAll lib h reads) stratum2Receiver).parsed = [a.1, b.1] := by
    decide +kernel
  have ha : (noticeOf lib stratum2Receiver.exchange.mode a.1).map Notice.job =
      some "a".toList := by
    decide +kernel
  have hb : noticeOf lib stratum2Receiver.exchange.mode b.1 = none := by
    decide +kernel
  obtain ⟨text, hmem, n, hn, hmatch⟩ := hone.exists_noticeOf
  rw [hparsed, List.mem_pair] at hmem
  rcases hmem with rfl | rfl
  · rw [hn, Option.map_some, Option.some.injEq] at ha
    exact absurd (hmatch.job.trans ha) (by decide)
  · exact nomatch hb.symm.trans hn

end Stratum
end FpgaEthash
