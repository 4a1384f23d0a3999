import FpgaEthash.Stratum.MessageFrame

/-!
# What a `mining.notify` says

A `Notice` is what the pool says in a job: its id, its block and its header, and in some
modes its seed and its boundary.  `notice?` reads it off the message, and gives nothing
for a message that the client cannot make a package of.  `Notice.package` is the package
it stands for in a session.

The client does not read before it writes.  It assigns `m_current` member by member, and
a conversion may throw in between.  `processJob_of_notice` says that it arrives at the
package of the notice, and `processJob_of_malformed` what it leaves when there is none:
in EthereumStratum/2.0.0 the job id and the block, as far as they could be read.
-/

namespace FpgaEthash
namespace Stratum

open Devcore Ethcore Jsoncpp Throwing Talk

variable {μ : Type}

/-! ## Notices -/

/-- What a job of the pool says.  The seed and the boundary are not in every mode's. -/
structure Notice where
  job : StdString
  block : ℤ
  header : H256
  seed : Option H256 := none
  boundary : Option H256 := none
  deriving DecidableEq

/-- The block number at `prmIdx`: −1 for none, or for one that is not a number. -/
def blockAt (lib : Library) (mode : Option StratumMode) (jPrm : Value) (prmIdx : ℕ) :
    Option ℤ :=
  if mode = some .ethproxy ∧ prmIdx < jPrm.size then
    match prmText lib jPrm prmIdx with
    | .error _ => none
    | .ok text =>
      if text.take 2 = "0x".toList then
        match stoull text with
        | .error _ => some (-1)
        | .ok v => if maxBlock < toBlock v then none else some (toBlock v)
      else some (-1)
  else some (-1)

/-- The job of the modes that carry a share target. -/
def notice0? (lib : Library) (mode : Option StratumMode) (jPrm : Value) (prmIdx : ℕ) :
    Option Notice := do
  let job ← (prmText lib jPrm 0).toOption
  let texts ← (jobTexts lib jPrm prmIdx).toOption
  let block ← blockAt lib mode jPrm (prmIdx + 3)
  let sShareTarget ← (padShareTarget texts.sShareTarget).toOption
  let seed ← (FixedHash.ofString 32 texts.sSeedHash).toOption
  let header ← (FixedHash.ofString 32 texts.sHeaderHash).toOption
  let boundary ← (FixedHash.ofString 32 sShareTarget).toOption
  return { job, block, header, seed := some seed, boundary := some boundary }

/-- The job of EthereumStratum/1.0.0. -/
def notice1? (lib : Library) (jPrm : Value) : Option Notice := do
  let job ← (prmText lib jPrm 0).toOption
  let sSeedHash ← (prmText lib jPrm 1).toOption
  let sHeaderHash ← (prmText lib jPrm 2).toOption
  if sHeaderHash ≠ [] ∧ sSeedHash ≠ [] then
    let seed ← (FixedHash.ofString 32 sSeedHash).toOption
    let header ← (FixedHash.ofString 32 sHeaderHash).toOption
    return { job, block := -1, header, seed := some seed }
  else none

/-- The job of EthereumStratum/2.0.0. -/
def notice2? (lib : Library) (jPrm : Value) : Option Notice := do
  let job ← (prmText lib jPrm 0).toOption
  let blockText ← (prmText lib jPrm 1).toOption
  let block ← (stoull blockText).toOption
  let text ← (prmText lib jPrm 2).toOption
  let header ← (FixedHash.ofString 32 ('0' :: 'x' :: padLeft text 64 '0')).toOption
  return { job, block := toBlock block, header }

/-- **What a job says**, if it is well formed. -/
def notice? (lib : Library) (mode : Option StratumMode) (obj : Value.Members) :
    Option Notice :=
  if mode = some .ethereumstratum2 then
    if !(obj.item "params".toList).isArray || (obj.item "params".toList).size != 4 then none
    else notice2? lib (obj.item "params".toList)
  else if (jobParams mode obj).1.isArray && !(jobParams mode obj).1.empty then
    if mode = some .ethereumstratum then notice1? lib (jobParams mode obj).1
    else notice0? lib mode (jobParams mode obj).1 (jobParams mode obj).2
  else none

namespace Notice

/-- The package that a notice stands for.  What it does not say is taken from the session,
in the modes that keep it there. -/
def package (n : Notice) (mode : Option StratumMode) (session : Session)
    (current : WorkPackage) : WorkPackage :=
  if mode = some .ethereumstratum2 then
    { current with
      job := n.job
      block := n.block
      header := n.header
      boundary := session.nextWorkBoundary
      epoch := session.epoch.toInt
      algo := session.algo
      startNonce := session.extraNonce
      exSizeBytes := session.extraNonceSizeBytes.setWidth 16 }
  else if mode = some .ethereumstratum then
    { current with
      job := n.job
      block := n.block
      header := n.header
      seed := n.seed.getD current.seed
      boundary := session.nextWorkBoundary
      startNonce := session.extraNonce
      exSizeBytes := session.extraNonceSizeBytes.setWidth 16 }
  else
    { current with
      job := n.job
      block := n.block
      header := n.header
      seed := n.seed.getD current.seed
      boundary := n.boundary.getD current.boundary }

end Notice

/-- What the parameters of a malformed job of EthereumStratum/2.0.0 leave of a package: it
has their job id and their block, as far as they can be read. -/
def spoilBy (lib : Library) (current : WorkPackage) (jPrm : Value) : WorkPackage :=
  match prmText lib jPrm 0 with
  | .error _ => current
  | .ok job =>
    match prmText lib jPrm 1 with
    | .error _ => { current with job }
    | .ok text =>
      match stoull text with
      | .error _ => { current with job }
      | .ok block => { current with job, block := toBlock block }

/-- What a malformed job of EthereumStratum/2.0.0 leaves of a package. -/
def spoil (lib : Library) (current : WorkPackage) (obj : Value.Members) : WorkPackage :=
  if !(obj.item "params".toList).isArray || (obj.item "params".toList).size != 4 then current
  else spoilBy lib current (obj.item "params".toList)

/-! ## The client reads them -/

/-- The client after it has taken a job. -/
def Exchange.take (s : Exchange μ) (now : TimePoint) (current : WorkPackage) : Exchange μ :=
  { s with current, currentTimestamp := now, newjobprocessed := true }

section Reading

variable (lib : Library) (now : TimePoint) (session : Session) (s : Exchange μ)

/-- The hashes of a job of EthereumStratum/1.0.0. -/
theorem jobEthereumStratum_of_ok {sSeedHash sHeaderHash : StdString} {seed header : H256}
    (hseed : FixedHash.ofString 32 sSeedHash = .ok seed)
    (hheader : FixedHash.ofString 32 sHeaderHash = .ok header) (current : WorkPackage) :
    jobEthereumStratum session sSeedHash sHeaderHash current =
      .ok () { current with
        seed
        header
        boundary := session.nextWorkBoundary
        startNonce := session.extraNonce
        exSizeBytes := session.extraNonceSizeBytes.setWidth 16
        block := -1 } := by
  rw [jobEthereumStratum, hseed, hheader]
  rfl

/-- The header of a job of EthereumStratum/2.0.0.  The boundary is read back from its own
text, which never fails. -/
theorem jobEthereumStratum2_eq (sHeader : StdString) (current : WorkPackage) :
    jobEthereumStratum2 session sHeader current =
      match FixedHash.ofString 32 sHeader with
      | .error e => .error e current
      | .ok header => .ok () { current with
          header
          boundary := session.nextWorkBoundary
          epoch := session.epoch.toInt
          algo := session.algo
          startNonce := session.extraNonce
          exSizeBytes := session.extraNonceSizeBytes.setWidth 16 } := by
  unfold jobEthereumStratum2
  rw [FixedHash.ofString_hex]
  cases FixedHash.ofString 32 sHeader <;> rfl

theorem onCurrent_of_ok {x : EStateM StdException WorkPackage Unit} {current : WorkPackage}
    (hx : x s.current = .ok () current) : onCurrent x s = .ok () { s with current } := by
  rw [onCurrent, hx]

theorem onCurrent_of_error {x : EStateM StdException WorkPackage Unit} {current : WorkPackage}
    {e : StdException} (hx : x s.current = .error e current) :
    onCurrent x s = .error (.std e) { s with current } := by
  rw [onCurrent, hx]

/-- A well-formed job of EthereumStratum/2.0.0. -/
theorem readJob2_of_notice {jPrm : Value} {n : Notice} (hn : notice2? lib jPrm = some n) :
    readJob2 lib now session jPrm s =
      .ok () (s.take now (n.package (some .ethereumstratum2) session s.current)) := by
  simp only [notice2?, Option.bind_eq_bind, Option.bind_eq_some_iff, toOption_eq_some,
    Option.pure_def, Option.some.injEq] at hn
  obtain ⟨job, hjob, blockText, hblockText, block, hblock, text, htext, header, hheader, rfl⟩ := hn
  simp only [readJob2, ofJson, ofStd, ofExcept_bind_ok hjob, modify_bind,
    ofExcept_bind_ok hblockText, ofExcept_bind_ok hblock, ofExcept_bind_ok htext]
  rw [bind_of_ok (onCurrent_of_ok _ (by rw [jobEthereumStratum2_eq, hheader]))]
  rfl

/-- A malformed job of EthereumStratum/2.0.0. -/
theorem readJob2_of_malformed {jPrm : Value} (hn : notice2? lib jPrm = none) :
    ∃ e, readJob2 lib now session jPrm s =
      .error e { s with current := spoilBy lib s.current jPrm } := by
  simp only [readJob2, spoilBy, ofJson, ofStd]
  cases hjob : prmText lib jPrm 0 with
  | error e => exact ⟨_, rfl⟩
  | ok job =>
    cases hblockText : prmText lib jPrm 1 with
    | error e => exact ⟨_, rfl⟩
    | ok blockText =>
      simp only [ofExcept_bind_ok rfl, modify_bind]
      cases hblock : stoull blockText with
      | error e => exact ⟨_, rfl⟩
      | ok block =>
        simp only [ofExcept_bind_ok rfl, modify_bind]
        cases htext : prmText lib jPrm 2 with
        | error e => exact ⟨_, rfl⟩
        | ok text =>
          simp only [ofExcept_bind_ok rfl]
          cases hheader : FixedHash.ofString 32 ('0' :: 'x' :: padLeft text 64 '0') with
          | error e =>
            rw [bind_of_error (onCurrent_of_error _
              (by rw [jobEthereumStratum2_eq, hheader]))]
            exact ⟨_, rfl⟩
          | ok header =>
            simp [notice2?, hjob, hblockText, hblock, htext, hheader,
              Except.toOption] at hn

/-- The block of a job.  It was −1 before. -/
theorem readBlock_of_some {mode : Option StratumMode} {jPrm : Value} {prmIdx : ℕ} {block : ℤ}
    (hs : s.current.block = -1) (hblock : blockAt lib mode jPrm prmIdx = some block) :
    readBlock lib mode jPrm prmIdx s =
      .ok () { s with current := { s.current with block } } := by
  have hkeep : { s with current := { s.current with block := -1 } } = s := by
    rw [← hs]
  unfold blockAt at hblock
  unfold readBlock ofJson
  split_ifs at hblock ⊢
  · cases htext : prmText lib jPrm prmIdx with
    | error e => exact nomatch htext ▸ hblock
    | ok text =>
      rw [htext] at hblock
      simp only [ofExcept_bind_ok rfl]
      dsimp only at hblock
      split_ifs at hblock ⊢
      · cases hnumber : stoull text with
        | error e =>
          rw [hnumber] at hblock
          obtain rfl := Option.some.inj hblock
          rfl
        | ok v =>
          rw [hnumber] at hblock
          dsimp only at hblock
          split_ifs at hblock with hbig
          obtain rfl := Option.some.inj hblock
          simp only [modify_bind, if_neg hbig]
          rfl
      · obtain rfl := Option.some.inj hblock
        rw [hkeep]
        rfl
  · obtain rfl := Option.some.inj hblock
    rw [hkeep]
    rfl

theorem readBlock_of_none {mode : Option StratumMode} {jPrm : Value} {prmIdx : ℕ}
    (hblock : blockAt lib mode jPrm prmIdx = none) :
    ∃ e current, readBlock lib mode jPrm prmIdx s = .error e { s with current } := by
  unfold blockAt at hblock
  unfold readBlock ofJson
  split_ifs at hblock ⊢
  cases htext : prmText lib jPrm prmIdx with
  | error e => exact ⟨_, _, rfl⟩
  | ok text =>
    rw [htext] at hblock
    simp only [ofExcept_bind_ok rfl]
    dsimp only at hblock
    split_ifs at hblock ⊢
    cases hnumber : stoull text with
    | error e => exact nomatch hnumber ▸ hblock
    | ok v =>
      rw [hnumber] at hblock
      dsimp only at hblock
      split_ifs at hblock with hbig
      simp only [modify_bind, if_pos hbig]
      exact ⟨_, _, rfl⟩

/-- The hashes of a job that carries a share target. -/
theorem jobHashes_of_ok {texts : JobTexts} {sShareTarget : StdString} {seed header boundary : H256}
    (hpad : padShareTarget texts.sShareTarget = .ok sShareTarget)
    (hseed : FixedHash.ofString 32 texts.sSeedHash = .ok seed)
    (hheader : FixedHash.ofString 32 texts.sHeaderHash = .ok header)
    (hboundary : FixedHash.ofString 32 sShareTarget = .ok boundary) (current : WorkPackage) :
    jobHashes texts current = .ok () { current with seed, header, boundary } := by
  rw [jobHashes, hpad, hseed, hheader]
  show (MonadExcept.ofExcept (FixedHash.ofString 32 sShareTarget) >>= _ :
    EStateM StdException WorkPackage Unit) _ = _
  rw [hboundary]
  rfl

theorem jobHashes_ok {texts : JobTexts} {current current' : WorkPackage}
    (h : jobHashes texts current = .ok () current') :
    ∃ sShareTarget seed header boundary,
      padShareTarget texts.sShareTarget = .ok sShareTarget ∧
        FixedHash.ofString 32 texts.sSeedHash = .ok seed ∧
        FixedHash.ofString 32 texts.sHeaderHash = .ok header ∧
        FixedHash.ofString 32 sShareTarget = .ok boundary := by
  obtain ⟨sShareTarget, hpad, h⟩ := exists_of_ofExcept_bind h
  obtain ⟨seed, hseed, h⟩ := exists_of_ofExcept_bind h
  rw [modify_bind] at h
  obtain ⟨header, hheader, h⟩ := exists_of_ofExcept_bind h
  rw [modify_bind] at h
  obtain ⟨boundary, hboundary, -⟩ := exists_of_ofExcept_bind h
  exact ⟨sShareTarget, seed, header, boundary, hpad, hseed, hheader, hboundary⟩

/-- A well-formed job that carries a share target. -/
theorem readJob0_of_notice {mode : Option StratumMode} {jPrm : Value} {prmIdx : ℕ} {n : Notice}
    (hmode : mode ≠ some .ethereumstratum ∧ mode ≠ some .ethereumstratum2)
    (hn : notice0? lib mode jPrm prmIdx = some n) :
    readJob lib now mode session jPrm prmIdx s =
      .ok () (s.take now (n.package mode session s.current)) := by
  simp only [notice0?, Option.bind_eq_bind, Option.bind_eq_some_iff, toOption_eq_some,
    Option.pure_def, Option.some.injEq] at hn
  obtain ⟨job, hjob, texts, htexts, block, hblock, sShareTarget, hpad, seed, hseed, header,
    hheader, boundary, hboundary, rfl⟩ := hn
  simp only [readJob, readJob0, if_neg hmode.1, ofJson, ofExcept_bind_ok hjob, modify_bind,
    ofExcept_bind_ok htexts]
  rw [bind_of_ok (readBlock_of_some lib _ rfl hblock),
    bind_of_ok (onCurrent_of_ok _ (jobHashes_of_ok hpad hseed hheader hboundary _))]
  simp only [Notice.package, if_neg hmode.1, if_neg hmode.2]
  rfl

/-- A malformed one: it is not taken. -/
theorem readJob0_of_malformed {mode : Option StratumMode} {jPrm : Value} {prmIdx : ℕ}
    (hmode : mode ≠ some .ethereumstratum) (hn : notice0? lib mode jPrm prmIdx = none) :
    ∃ current, leaves (readJob lib now mode session jPrm prmIdx) s = { s with current } := by
  simp only [readJob, readJob0, if_neg hmode, ofJson]
  cases hjob : prmText lib jPrm 0 with
  | error e => exact ⟨_, rfl⟩
  | ok job =>
    cases htexts : jobTexts lib jPrm prmIdx with
    | error e => exact ⟨_, rfl⟩
    | ok texts =>
      simp only [leaves, ofExcept_bind_ok rfl, modify_bind]
      cases hblock : blockAt lib mode jPrm (prmIdx + 3) with
      | none =>
        obtain ⟨e, current, hrun⟩ := readBlock_of_none lib
          { s with current := { s.current with job, block := -1 } } hblock
        rw [bind_of_error hrun]
        exact ⟨_, rfl⟩
      | some block =>
        rw [bind_of_ok (readBlock_of_some lib _ rfl hblock)]
        cases hhashes : jobHashes texts { s.current with job, block } with
        | error e current =>
          rw [bind_of_error (onCurrent_of_error _ hhashes)]
          exact ⟨_, rfl⟩
        | ok u current =>
          obtain ⟨sShareTarget, seed, header, boundary, hpad, hseed, hheader, hboundary⟩ :=
            jobHashes_ok hhashes
          simp [notice0?, hjob, htexts, hblock, hpad, hseed, hheader, hboundary,
            Except.toOption] at hn

/-- A well-formed job of EthereumStratum/1.0.0. -/
theorem readJob1_of_notice {jPrm : Value} {prmIdx : ℕ} {n : Notice}
    (hn : notice1? lib jPrm = some n) :
    readJob lib now (some .ethereumstratum) session jPrm prmIdx s =
      .ok () (s.take now (n.package (some .ethereumstratum) session s.current)) := by
  simp only [notice1?, Option.bind_eq_bind, Option.bind_eq_some_iff, toOption_eq_some,
    Option.pure_def] at hn
  obtain ⟨job, hjob, sSeedHash, hseedText, sHeaderHash, hheaderText, hn⟩ := hn
  split_ifs at hn with hne
  simp only [Option.bind_eq_some_iff, toOption_eq_some, Option.some.injEq] at hn
  obtain ⟨seed, hseed, header, hheader, rfl⟩ := hn
  simp only [readJob, readJob1, if_pos, ofJson, ofExcept_bind_ok hjob, modify_bind,
    ofExcept_bind_ok hseedText, ofExcept_bind_ok hheaderText, if_pos hne]
  rw [bind_of_ok (onCurrent_of_ok _ (jobEthereumStratum_of_ok session hseed hheader _))]
  rfl

/-- A malformed one: it is not taken. -/
theorem readJob1_of_malformed {jPrm : Value} {prmIdx : ℕ} (hn : notice1? lib jPrm = none) :
    ∃ current, leaves (readJob lib now (some .ethereumstratum) session jPrm prmIdx) s =
      { s with current } := by
  simp only [readJob, readJob1, if_pos, ofJson]
  cases hjob : prmText lib jPrm 0 with
  | error e => exact ⟨_, rfl⟩
  | ok job =>
    cases hseedText : prmText lib jPrm 1 with
    | error e => exact ⟨_, rfl⟩
    | ok sSeedHash =>
      cases hheaderText : prmText lib jPrm 2 with
      | error e => exact ⟨_, rfl⟩
      | ok sHeaderHash =>
        simp only [leaves, ofExcept_bind_ok rfl, modify_bind]
        split_ifs with hne
        · cases hhashes : jobEthereumStratum session sSeedHash sHeaderHash
            { s.current with job } with
          | error e current =>
            rw [bind_of_error (onCurrent_of_error _ hhashes)]
            exact ⟨_, rfl⟩
          | ok u current =>
            obtain ⟨seed, hseed, hhashes⟩ := exists_of_ofExcept_bind hhashes
            rw [modify_bind] at hhashes
            obtain ⟨header, hheader, -⟩ := exists_of_ofExcept_bind hhashes
            simp [notice1?, hjob, hseedText, hheaderText, hne, hseed, hheader,
              Except.toOption] at hn
        · exact ⟨_, rfl⟩

end Reading

/-! ## The branch of `mining.notify` -/

section Branch

variable (lib : Library) (now : TimePoint) {s : Exchange μ} {session : LiveSession}
  {obj : Value.Members} {n : Notice}

theorem processJob_eq_onNotify (hmode : s.mode ≠ some .ethereumstratum2) :
    processJob lib now obj s = onNotify lib now obj s := by
  show (if s.mode = some .ethereumstratum2 then _ else _ : Talk μ Unit) s = _
  rw [if_neg hmode]

theorem processJob_eq_onNotify2 (hmode : s.mode = some .ethereumstratum2) :
    processJob lib now obj s = onNotify2 lib now obj s := by
  show (if s.mode = some .ethereumstratum2 then _ else _ : Talk μ Unit) s = _
  rw [if_pos hmode]

/-- **Except in EthereumStratum/2.0.0, a session that is not subscribed, or has a job of this
transmission already, passes over a job.** -/
theorem processJob_of_passed (hs : s.session = some session)
    (hmode : s.mode ≠ some .ethereumstratum2)
    (hpass : session.subscribed = false ∨ s.newjobprocessed = true) :
    processJob lib now obj s = .ok () s := by
  have hskip : (!session.subscribed || s.newjobprocessed) = true := by
    rw [Bool.or_eq_true, Bool.not_eq_true']
    exact hpass
  rw [processJob_eq_onNotify lib now hmode, onNotify_of_session lib now obj hs, if_pos hskip]
  rfl

/-- **A well-formed job is taken**, in a session that is ready for it. -/
theorem processJob_of_notice (hs : s.session = some session)
    (hmode : s.mode ≠ some .ethereumstratum2) (hsub : session.subscribed = true)
    (hnew : s.newjobprocessed = false) (hn : notice? lib s.mode obj = some n) :
    processJob lib now obj s =
      .ok () (s.take now (n.package s.mode session.toSession s.current)) := by
  rw [processJob_eq_onNotify lib now hmode, onNotify_of_session lib now obj hs, hsub, hnew,
    if_neg (by decide)]
  rw [notice?, if_neg hmode] at hn
  split_ifs at hn with harray hmode1
  · rw [if_pos harray, hmode1]
    rw [hmode1] at hn
    exact readJob1_of_notice lib now session.toSession s hn
  · rw [if_pos harray]
    exact readJob0_of_notice lib now session.toSession s ⟨hmode1, hmode⟩ hn

theorem processJob2_of_notice (hs : s.session = some session)
    (hmode : s.mode = some .ethereumstratum2) (hset : session.firstMiningSet = true)
    (hn : notice? lib s.mode obj = some n) :
    processJob lib now obj s =
      .ok () (s.take now (n.package s.mode session.toSession s.current)) := by
  rw [processJob_eq_onNotify2 lib now hmode, onNotify2_of_session lib now obj hs, hset,
    if_neg (by decide)]
  rw [notice?, if_pos hmode] at hn
  split_ifs at hn with hparams
  rw [if_neg hparams, hmode]
  exact readJob2_of_notice lib now session.toSession s hn

/-- **A malformed job is not taken.** -/
theorem processJob_of_malformed (hs : s.session = some session)
    (hmode : s.mode ≠ some .ethereumstratum2) (hn : notice? lib s.mode obj = none) :
    ∃ current, leaves (processJob lib now obj) s = { s with current } := by
  by_cases hpass : session.subscribed = false ∨ s.newjobprocessed = true
  · rw [leaves_of_ok (processJob_of_passed lib now hs hmode hpass)]
    exact ⟨_, rfl⟩
  · have hskip : ¬ (!session.subscribed || s.newjobprocessed) = true := by
      rw [Bool.or_eq_true, Bool.not_eq_true']
      exact hpass
    rw [leaves, processJob_eq_onNotify lib now hmode, onNotify_of_session lib now obj hs,
      if_neg hskip]
    rw [notice?, if_neg hmode] at hn
    split_ifs at hn with harray hmode1
    · rw [if_pos harray, hmode1]
      rw [hmode1] at hn
      exact readJob1_of_malformed lib now session.toSession s hn
    · rw [if_pos harray]
      exact readJob0_of_malformed lib now session.toSession s hmode1 hn
    · rw [if_neg harray]
      exact ⟨_, rfl⟩

/-- **In EthereumStratum/2.0.0 a malformed job leaves its job id and its block behind.** -/
theorem processJob2_of_malformed (hs : s.session = some session)
    (hmode : s.mode = some .ethereumstratum2) (hset : session.firstMiningSet = true)
    (hn : notice? lib s.mode obj = none) :
    leaves (processJob lib now obj) s = { s with current := spoil lib s.current obj } := by
  rw [leaves, processJob_eq_onNotify2 lib now hmode, onNotify2_of_session lib now obj hs, hset,
    if_neg (by decide)]
  rw [notice?, if_pos hmode] at hn
  unfold spoil
  split_ifs at hn ⊢ with hparams
  · rfl
  · obtain ⟨e, hrun⟩ := readJob2_of_malformed lib now session.toSession s hn
    rw [hrun]

end Branch

end Stratum
end FpgaEthash
