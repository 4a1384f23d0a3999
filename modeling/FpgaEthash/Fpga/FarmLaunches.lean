import FpgaEthash.Ethcore.NoncePartition
import FpgaEthash.Fpga.Launches

/-!
# No nonce is hashed twice

`Farm::setWork` gives each miner a segment of the nonces (`Ethcore.NoncePartition`), and the
work loop of a miner moves through its segment launch by launch (`Fpga.Launches`).  Here the
two run together: one farm, the loops of all of its miners, and every order of their steps.

`setWork` holds a lock of the farm for the whole call, so one call ends before the next
begins, but the miners go on while it hands out the package: each miner has a lock of its own,
and a turn reads its package once, with `work`.  So a call is an event for what comes before
the loop and one event for each turn of the loop, and a turn of a miner may come between any
two of them.  `calls` and `launches` are a record, for the proof only.

* `Tracked` says of each launch where it starts: at the segment of its miner in the call that
  brought its header, moved on by `globalWorkSize` for each launch that the miner has made for
  this header before.  It takes that no two calls bring the same header (`Fresh`): a package
  with the header of the last launch does not move the start nonce, whatever its own is.
* The loop has no bound on the number of launches, so a miner can leave its segment.
  `no_nonce_twice` is about every state in which no miner has made more launches for one
  header than its segment holds.
-/

namespace FpgaEthash
namespace Fpga

open Devcore Ethcore Runs Segments

/-- A call of `Farm::setWork`: its package, the start nonce of the first miner, and the
width of a segment. -/
structure Call where
  work : WorkPackage
  startNonce : BitVec 64
  width : ℕ
  deriving DecidableEq

/-- Where the segment of miner `i` begins. -/
def Call.share (c : Call) (i : ℕ) : BitVec 64 :=
  c.startNonce + BitVec.ofNat 64 (i * 2 ^ c.width)

/-- A launch, and the miner that made it. -/
structure FarmLaunch where
  miner : ℕ
  run : Launch
  deriving DecidableEq

/-- The nonces that a launch hashes. -/
def FarmLaunch.nonces (settings : FPGASettings) (x : FarmLaunch) : Set (BitVec 64) :=
  segment x.run.startNonce settings.globalWorkSize.toNat

/-- The number of launches that a miner has made for a header. -/
def launchesFor (miner : ℕ) (header : H256) (launches : List FarmLaunch) : ℕ :=
  launches.countP fun x => x.miner = miner ∧ x.run.header = header

/-- The farm and the loops of its miners.  `handing` is the call of `setWork` in progress:
the start nonce of the first miner, and the turn that comes next. -/
structure MiningFarm where
  farm : Farm
  handing : Option (BitVec 64 × BitVec 32) := none
  loops : List State
  calls : List Call := []
  launches : List FarmLaunch := []

/-- What happens to the farm and its miners. -/
inductive FarmEvent where
  | setWork (newWp : WorkPackage) (draw : BitVec 64)
  | handOut
  | turn (i : ℕ) (init : InitEpoch) (found : List SearchResult)
  | pause (i : ℕ) (what : MinerPauseEnum)
  | resume (i : ℕ) (fromwhat : MinerPauseEnum)

/-- **A turn that launches, taken apart.**  It launches for the package that it got; with the
header of the last launch it goes on from there, with another one it starts at the start nonce
of the package. -/
theorem State.launch_of_iterate {settings : FPGASettings} {index : ℕ} {s s' : State} {t : Turn}
    (hs : s.LoopInv) (hreal : t.work.isReal = true)
    (h : s.iterate settings index t = some s') :
    s'.lastRun.header = t.work.header ∧ s'.current.header = t.work.header ∧
      s'.lastRun.startNonce =
        (if s.current.header = t.work.header then s.startNonce else t.work.startNonce) ∧
      s'.startNonce = s'.lastRun.startNonce + settings.globalWorkSize.setWidth 64 := by
  obtain ⟨b, hclean, hcount⟩ := s.cleanResults_spec settings
  obtain ⟨s₁, hs₁, hrun, hcurrent, hqueue, hnonce⟩ := launched_of_isReal hreal h
  rw [hclean] at hs₁
  obtain ⟨-, -, hready⟩ := switchJob_spec (s := { s with searchBuffer := b }) hs.header hcount hs₁
  rw [hrun, hcurrent, hnonce]
  refine ⟨(hready hqueue).1, rfl, ?_, rfl⟩
  split_ifs with hsame
  · rw [switchJob, if_pos hsame] at hs₁
    obtain rfl := Option.some.inj hs₁
    rfl
  · exact (target_of_new_header (s := { s with searchBuffer := b }) hsame hs₁).2

namespace MiningFarm

/-- The part of a call of `setWork` before its loop. -/
def beginCall (lib : EthashLibrary) (newWp : WorkPackage) (draw : BitVec 64) (s : MiningFarm) :
    MiningFarm :=
  let begun := s.farm.setWorkBegin lib newWp draw
  { s with
    farm := begun.1
    handing := some (begun.2, 0)
    calls := s.calls ++ [⟨newWp, begun.2, begun.1.nonceSegmentWith.toNat⟩] }

/-- One step.  It is `none` where the event cannot happen: a call of `setWork` waits for the
one in progress, and a loop that has been left takes no turns. -/
def step (lib : EthashLibrary) (settings : FPGASettings) (s : MiningFarm) :
    FarmEvent → Option MiningFarm
  | .setWork newWp draw =>
    if s.handing.isSome then none else some (s.beginCall lib newWp draw)
  | .handOut => do
      let (startNonce, i) ← s.handing
      if i.toNat < s.farm.miners.length then
        some { s with farm := s.farm.giveWork startNonce i, handing := some (startNonce, i + 1) }
      else some { s with handing := none }
  | .turn i init found => do
      let m ← s.farm.miners[i]?
      let l ← s.loops[i]?
      let l' ← l.iterate settings i ⟨m.work, init, found⟩
      some
        { s with
          loops := s.loops.set i l'
          launches :=
            if m.work.isReal then s.launches ++ [⟨i, l'.lastRun⟩] else s.launches }
  | .pause i what =>
    some { s with farm := { s.farm with miners := s.farm.miners.modify i (Miner.pause · what) } }
  | .resume i fromwhat =>
    some
      { s with
        farm := { s.farm with miners := s.farm.miners.modify i (Miner.resume · fromwhat) } }

/-- The package that miner `i` holds. -/
def work (s : MiningFarm) (i : ℕ) : Option WorkPackage := s.farm.miners[i]?.map Miner.work

/-! ## What is assumed, and what follows -/

/-- Every package so far fits. -/
def Fitting (s : MiningFarm) : Prop :=
  ∀ c ∈ s.calls, Fits s.farm.miners.length c.work.exSizeBytes.toNat

/-- No two calls so far brought the same header. -/
def Fresh (s : MiningFarm) : Prop := (s.calls.map fun c => c.work.header).Nodup

/-- No miner has made more launches for a header than its segment holds. -/
def WithinSegments (settings : FPGASettings) (s : MiningFarm) : Prop :=
  ∀ c ∈ s.calls, ∀ i,
    launchesFor i c.work.header s.launches * settings.globalWorkSize.toNat ≤ 2 ^ c.width

/-- No nonce was hashed twice with one header, by one miner or by two. -/
def NoneTwice (settings : FPGASettings) (s : MiningFarm) : Prop :=
  s.launches.Pairwise fun x y =>
    x.run.header = y.run.header → Disjoint (x.nonces settings) (y.nonces settings)

/-- Every nonce that was hashed begins with the extranonce of the package that brought the
header, if it has one and nothing below it in its start nonce. -/
def InPoolRange (settings : FPGASettings) (s : MiningFarm) : Prop :=
  ∀ c ∈ s.calls, 0 < c.work.exSizeBytes →
    c.work.startNonce.toNat % 2 ^ (64 - c.work.exSizeBytes.toNat * 4) = 0 →
    ∀ x ∈ s.launches, x.run.header = c.work.header → ∀ v ∈ x.nonces settings,
      v >>> (64 - c.work.exSizeBytes.toNat * 4) =
        c.work.startNonce >>> (64 - c.work.exSizeBytes.toNat * 4)

/-! ## The steps, taken apart -/

section Steps

variable {lib : EthashLibrary} {settings : FPGASettings} {s s' : MiningFarm}

theorem step_setWork {newWp : WorkPackage} {draw : BitVec 64}
    (h : s.step lib settings (.setWork newWp draw) = some s') :
    s' = s.beginCall lib newWp draw := by
  unfold step at h
  split_ifs at h
  exact (Option.some.inj h).symm

theorem step_handOut (h : s.step lib settings .handOut = some s') :
    ∃ startNonce i, s.handing = some (startNonce, i) ∧
      ((i.toNat < s.farm.miners.length ∧
        s' = { s with
          farm := s.farm.giveWork startNonce i
          handing := some (startNonce, i + 1) }) ∨
      s' = { s with handing := none }) := by
  unfold step at h
  obtain ⟨⟨startNonce, i⟩, hhanding, h⟩ := Option.bind_eq_some_iff.mp h
  refine ⟨startNonce, i, hhanding, ?_⟩
  dsimp only at h
  split_ifs at h with hi
  · exact .inl ⟨hi, (Option.some.inj h).symm⟩
  · exact .inr (Option.some.inj h).symm

theorem step_turn {i : ℕ} {init : InitEpoch} {found : List SearchResult}
    (h : s.step lib settings (.turn i init found) = some s') :
    ∃ m l l', s.farm.miners[i]? = some m ∧ s.loops[i]? = some l ∧
      l.iterate settings i ⟨m.work, init, found⟩ = some l' ∧
      s' =
        { s with
          loops := s.loops.set i l'
          launches :=
            if m.work.isReal then s.launches ++ [⟨i, l'.lastRun⟩] else s.launches } := by
  unfold step at h
  obtain ⟨m, hm, h⟩ := Option.bind_eq_some_iff.mp h
  obtain ⟨l, hl, h⟩ := Option.bind_eq_some_iff.mp h
  obtain ⟨l', hl', h⟩ := Option.bind_eq_some_iff.mp h
  exact ⟨m, l, l', hm, hl, hl', (Option.some.inj h).symm⟩

/-- A step adds at most one call, and no step changes the number of miners. -/
theorem step_frame {e : FarmEvent} (h : s.step lib settings e = some s') :
    s'.farm.miners.length = s.farm.miners.length ∧ ∃ new, s'.calls = s.calls ++ new := by
  cases e with
  | setWork newWp draw =>
    obtain rfl := step_setWork h
    exact ⟨Farm.length_setWorkBegin .., _, rfl⟩
  | handOut =>
    obtain ⟨startNonce, i, -, ⟨-, rfl⟩ | rfl⟩ := step_handOut h
    · exact ⟨Farm.length_giveWork .., [], (List.append_nil _).symm⟩
    · exact ⟨rfl, [], (List.append_nil _).symm⟩
  | turn i init found =>
    obtain ⟨m, l, l', -, -, -, rfl⟩ := step_turn h
    exact ⟨rfl, [], (List.append_nil _).symm⟩
  | pause i what | resume i fromwhat =>
    obtain rfl := Option.some.inj h
    exact ⟨List.length_modify .., [], (List.append_nil _).symm⟩

theorem Fitting.of_step {e : FarmEvent} (h : s.step lib settings e = some s')
    (hfit : s'.Fitting) : s.Fitting := by
  obtain ⟨hlen, new, hcalls⟩ := step_frame h
  intro c hc
  rw [← hlen]
  exact hfit c (by rw [hcalls]; exact List.mem_append_left _ hc)

theorem Fresh.of_step {e : FarmEvent} (h : s.step lib settings e = some s')
    (hfresh : s'.Fresh) : s.Fresh := by
  obtain ⟨-, new, hcalls⟩ := step_frame h
  rw [Fresh, hcalls, List.map_append] at hfresh
  exact hfresh.of_append_left

end Steps

/-! ## Room in the segments -/

/-- The segments of every call so far fit into the range of a nonce, those of a call with an
extranonce into the bits that it leaves. -/
structure Roomy (s : MiningFarm) : Prop where
  now : s.farm.Room
  calls : ∀ c ∈ s.calls, s.farm.miners.length * 2 ^ c.width ≤ 2 ^ 64
  pool : ∀ c ∈ s.calls, 0 < c.work.exSizeBytes →
    c.startNonce = c.work.startNonce ∧
      (1 ≤ s.farm.miners.length →
        s.farm.miners.length * 2 ^ c.width ≤ 2 ^ (64 - c.work.exSizeBytes.toNat * 4))

section Room

variable {lib : EthashLibrary} {settings : FPGASettings} {s s' : MiningFarm}

theorem Roomy.of_eq (h : s.Roomy) (hlen : s'.farm.miners.length = s.farm.miners.length)
    (hwidth : s'.farm.nonceSegmentWith = s.farm.nonceSegmentWith) (hcalls : s'.calls = s.calls) :
    s'.Roomy := by
  refine ⟨?_, ?_, ?_⟩
  · have hnow := h.now
    unfold Farm.Room at hnow ⊢
    rw [hlen, hwidth]
    exact hnow
  · rw [hcalls, hlen]
    exact h.calls
  · rw [hcalls, hlen]
    exact h.pool

/-- **A call keeps room**, if its package fits. -/
theorem roomy_setWork {newWp : WorkPackage} {draw : BitVec 64} (h : s.Roomy)
    (hs' : s.step lib settings (.setWork newWp draw) = some s') (hfit : s'.Fitting) :
    s'.Roomy := by
  obtain ⟨hlen, -⟩ := step_frame hs'
  obtain rfl := step_setWork hs'
  have hfits : Fits s.farm.miners.length newWp.exSizeBytes.toNat := by
    have hlast := hfit _ (List.mem_append_right _ List.mem_cons_self)
    rwa [hlen] at hlast
  have hroom : (s.farm.setWorkBegin lib newWp draw).1.Room := by
    rcases Nat.eq_zero_or_pos s.farm.miners.length with hzero | hpos
    · rw [Farm.Room, Farm.length_setWorkBegin, hzero, Nat.zero_mul]
      exact Nat.zero_le _
    · exact Farm.room_setWorkBegin lib draw hpos hfits h.now
  refine ⟨hroom, fun c hc => ?_, fun c hc he => ?_⟩
  · rcases List.mem_append.mp hc with hold | hnew
    · rw [hlen]
      exact h.calls c hold
    · rw [List.mem_singleton.mp hnew]
      exact hroom
  · rw [hlen]
    rcases List.mem_append.mp hc with hold | hnew
    · exact h.pool c hold he
    · obtain rfl := List.mem_singleton.mp hnew
      exact ⟨Farm.setWorkBegin_startNonce lib s.farm draw he,
        fun hn => Farm.mul_width_setWorkBegin_le lib draw hn hfits he⟩

theorem roomy_step {e : FarmEvent} (h : s.Fitting → s.Roomy)
    (hs' : s.step lib settings e = some s') (hfit : s'.Fitting) : s'.Roomy := by
  have hs : s.Roomy := h (hfit.of_step hs')
  obtain ⟨hlen, -⟩ := step_frame hs'
  cases e with
  | setWork newWp draw => exact roomy_setWork hs hs' hfit
  | handOut =>
    obtain ⟨startNonce, i, -, ⟨-, rfl⟩ | rfl⟩ := step_handOut hs'
    · exact hs.of_eq hlen rfl rfl
    · exact hs.of_eq hlen rfl rfl
  | turn i init found =>
    obtain ⟨m, l, l', -, -, -, rfl⟩ := step_turn hs'
    exact hs.of_eq hlen rfl rfl
  | pause i what | resume i fromwhat =>
    obtain rfl := Option.some.inj hs'
    exact hs.of_eq hlen rfl rfl

end Room

/-! ## Where each launch starts -/

/-- The miner has made no launch for this header. -/
def Unlaunched (s : MiningFarm) (i : ℕ) (header : H256) : Prop :=
  ∀ x ∈ s.launches, x.miner = i → x.run.header ≠ header

/-- The header has not come to the miner yet. -/
structure Ahead (s : MiningFarm) (i : ℕ) (header : H256) : Prop where
  work : ∀ w, s.work i = some w → w.header ≠ header
  current : ∀ l : State, s.loops[i]? = some l → l.current.header ≠ header
  launches : s.Unlaunched i header

/-- The call in progress is the last one, and from turn `j` on the miners do not have its
header. -/
def InProgress (s : MiningFarm) (startNonce : BitVec 64) (j : BitVec 32) : Prop :=
  ∃ c, s.calls.getLast? = some c ∧ c.startNonce = startNonce ∧
    c.width = s.farm.nonceSegmentWith.toNat ∧ s.farm.currentWp.header = c.work.header ∧
    (c.work.isReal = true → ∀ i, j.toNat ≤ i → s.Ahead i c.work.header)

/-- Where miner `i` is after `k` launches for a header. -/
def Placed (settings : FPGASettings) (s : MiningFarm) (i : ℕ) (header : H256) (k : ℕ)
    (nonce : BitVec 64) : Prop :=
  ∃ c ∈ s.calls, c.work.header = header ∧
    nonce = c.share i + BitVec.ofNat 64 (k * settings.globalWorkSize.toNat)

/-- What the record says about the miners, the loops and the launches. -/
structure Tracked (settings : FPGASettings) (s : MiningFarm) : Prop where
  given : ∀ i w, s.work i = some w → w.isReal = true →
    ∃ c ∈ s.calls, c.work.header = w.header ∧ w.startNonce = c.share i
  unlaunched : ∀ (i : ℕ) (w : WorkPackage) (l : State), s.work i = some w →
    s.loops[i]? = some l → w.isReal = true → l.current.header ≠ w.header →
    s.Unlaunched i w.header
  loopInv : ∀ (i : ℕ) (l : State), s.loops[i]? = some l → l.LoopInv
  current : ∀ (i : ℕ) (l : State), s.loops[i]? = some l → l.current.isReal = true →
    s.Placed settings i l.current.header (launchesFor i l.current.header s.launches) l.startNonce
  launched : ∀ p x, s.launches[p]? = some x → x.miner < s.farm.miners.length ∧
    s.Placed settings x.miner x.run.header
      (launchesFor x.miner x.run.header (s.launches.take p)) x.run.startNonce
  handing : ∀ startNonce j, s.handing = some (startNonce, j) → s.InProgress startNonce j

section Tracking

variable {lib : EthashLibrary} {settings : FPGASettings} {s s' : MiningFarm}

theorem launchesFor_eq_zero {i : ℕ} {header : H256} (h : s.Unlaunched i header) :
    launchesFor i header s.launches = 0 := by
  rw [launchesFor, List.countP_eq_zero]
  intro x hx hmatch
  obtain ⟨hminer, hheader⟩ := of_decide_eq_true hmatch
  exact h x hx hminer hheader

theorem launchesFor_append_self (i : ℕ) (run : Launch) (launches : List FarmLaunch) :
    launchesFor i run.header (launches ++ [⟨i, run⟩]) = launchesFor i run.header launches + 1 := by
  rw [launchesFor, List.countP_append, launchesFor, List.countP_singleton, if_pos]
  exact decide_eq_true ⟨rfl, rfl⟩

theorem launchesFor_append_other {i j : ℕ} (hij : i ≠ j) (header : H256) (run : Launch)
    (launches : List FarmLaunch) :
    launchesFor i header (launches ++ [⟨j, run⟩]) = launchesFor i header launches := by
  rw [launchesFor, List.countP_append, launchesFor, List.countP_singleton, if_neg]
  · rfl
  · intro hmatch
    exact hij (of_decide_eq_true hmatch).1.symm

theorem Unlaunched.append {i k : ℕ} {header : H256} {run : Launch} (h : s.Unlaunched k header)
    (hne : k = i → run.header ≠ header) :
    ∀ x ∈ s.launches ++ [⟨i, run⟩], x.miner = k → x.run.header ≠ header := by
  intro x hx hxk
  rcases List.mem_append.mp hx with hx | hx
  · exact h x hx hxk
  · obtain rfl := List.mem_singleton.mp hx
    exact hne hxk.symm

/-- A loop after that of miner `i` has taken a turn: it is that one, or another, as it was. -/
theorem getElem?_set_loop {loops : List State} {i k : ℕ} {l l' l₁ : State}
    (hl : loops[i]? = some l) (hl₁ : (loops.set i l')[k]? = some l₁) :
    (k = i ∧ l₁ = l') ∨ (k ≠ i ∧ loops[k]? = some l₁) := by
  by_cases hik : i = k
  · subst hik
    rw [List.getElem?_set_self (List.getElem?_eq_some_iff.mp hl).1] at hl₁
    exact .inl ⟨rfl, (Option.some.inj hl₁).symm⟩
  · rw [List.getElem?_set_ne hik] at hl₁
    exact .inr ⟨Ne.symm hik, hl₁⟩

/-- **Only packages change**, and those that change are voided or replaced by ones that the
record knows and that the miner has not launched. -/
theorem Tracked.of_works (h : s.Tracked settings)
    (hlen : s'.farm.miners.length = s.farm.miners.length) (hloops : s'.loops = s.loops)
    (hcalls : s'.calls = s.calls) (hlaunches : s'.launches = s.launches)
    (hwork : ∀ i w, s'.work i = some w → w.isReal = true → s.work i = some w ∨
      (∃ c ∈ s.calls, c.work.header = w.header ∧ w.startNonce = c.share i) ∧
        s.Unlaunched i w.header)
    (hhanding : ∀ startNonce j, s'.handing = some (startNonce, j) →
      s'.InProgress startNonce j) :
    s'.Tracked settings := by
  refine ⟨fun i w hw hreal => ?_, fun i w l hw hl hreal hne => ?_, ?_, ?_, ?_, hhanding⟩
  · rw [hcalls]
    rcases hwork i w hw hreal with hold | ⟨hnew, -⟩
    · exact h.given i w hold hreal
    · exact hnew
  · rw [Unlaunched, hlaunches]
    rw [hloops] at hl
    rcases hwork i w hw hreal with hold | ⟨-, hnew⟩
    · exact h.unlaunched i w l hold hl hreal hne
    · exact hnew
  · rw [hloops]
    exact h.loopInv
  · unfold Placed
    rw [hloops, hcalls, hlaunches]
    exact h.current
  · unfold Placed
    rw [hcalls, hlaunches, hlen]
    exact h.launched

/-- A miner whose flags change keeps its package or has it voided. -/
theorem work_modify {i j : ℕ} {f : Miner → Miner} {w : WorkPackage}
    (hf : ∀ m, (f m).work = m.work ∨ (f m).work.isReal = false)
    (hw : (s.farm.miners.modify j f)[i]?.map Miner.work = some w) (hreal : w.isReal = true) :
    s.work i = some w := by
  rw [List.getElem?_modify] at hw
  obtain ⟨m', hm', rfl⟩ := Option.map_eq_some_iff.mp hw
  obtain ⟨m, hm, rfl⟩ := Option.map_eq_some_iff.mp hm'
  rw [work, hm, Option.map_some]
  split_ifs at hreal ⊢ with hij
  · rcases hf m with hsame | hvoid
    · rw [hsame]
    · rw [hvoid] at hreal
      cases hreal
  · rfl

/-- **Pausing and resuming a miner** keep track. -/
theorem tracked_modify (h : s.Tracked settings) (j : ℕ) {f : Miner → Miner}
    (hf : ∀ m, (f m).work = m.work ∨ (f m).work.isReal = false) :
    ({ s with farm := { s.farm with miners := s.farm.miners.modify j f } } :
      MiningFarm).Tracked settings := by
  refine h.of_works (List.length_modify ..) rfl rfl rfl
    (fun i w hw hreal => .inl (work_modify hf hw hreal)) fun startNonce k hk => ?_
  obtain ⟨c, hlast, hstart, hwidth, hheader, hahead⟩ := h.handing startNonce k hk
  refine ⟨c, hlast, hstart, hwidth, hheader, fun hreal i hi => ?_⟩
  obtain ⟨hwork, hcurrent, hlaunches⟩ := hahead hreal i hi
  refine ⟨fun w hw heq => ?_, hcurrent, hlaunches⟩
  -- a package with the header of the call is a real one, so it was there before
  have hreal' : w.isReal = true := by
    rw [WorkPackage.isReal, heq]
    exact hreal
  exact hwork w (work_modify hf hw hreal') heq

theorem work_beginCall (newWp : WorkPackage) (draw : BitVec 64) (i : ℕ) :
    (s.beginCall lib newWp draw).work i = s.work i := by
  show (s.farm.setWorkBegin lib newWp draw).1.miners[i]?.map Miner.work = _
  rw [Farm.setWorkBegin_miners, Farm.retrieveEpochContext, work]
  split_ifs
  · rw [List.getElem?_map, Option.map_map]
    rfl
  · rfl

/-- **A call begins**: its header is a new one for every miner. -/
theorem tracked_setWork {newWp : WorkPackage} {draw : BitVec 64} (h : s.Tracked settings)
    (hs' : s.step lib settings (.setWork newWp draw) = some s') (hfresh : s'.Fresh) :
    s'.Tracked settings := by
  obtain ⟨hlen, -⟩ := step_frame hs'
  obtain rfl := step_setWork hs'
  have hold : ∀ c ∈ s.calls, c.work.header ≠ newWp.header := by
    intro c hc heq
    rw [Fresh, beginCall, List.map_append, List.nodup_append] at hfresh
    exact hfresh.2.2 _ (List.mem_map_of_mem hc) _ List.mem_cons_self heq
  have hwork : ∀ i, (s.beginCall lib newWp draw).work i = s.work i := work_beginCall newWp draw
  refine ⟨fun i w hw hreal => ?_, fun i w l hw => ?_, h.loopInv, fun i l hl hreal => ?_,
    fun p x hx => ?_, fun startNonce j hj => ?_⟩
  · rw [hwork] at hw
    obtain ⟨c, hc, hcall⟩ := h.given i w hw hreal
    exact ⟨c, List.mem_append_left _ hc, hcall⟩
  · rw [hwork] at hw
    exact h.unlaunched i w l hw
  · obtain ⟨c, hc, hcall⟩ := h.current i l hl hreal
    exact ⟨c, List.mem_append_left _ hc, hcall⟩
  · obtain ⟨hminer, c, hc, hcall⟩ := h.launched p x hx
    exact ⟨lt_of_lt_of_eq hminer hlen.symm, c, List.mem_append_left _ hc, hcall⟩
  · obtain ⟨rfl, rfl⟩ := Prod.mk.inj (Option.some.inj hj)
    refine ⟨_, List.getLast?_concat, rfl, rfl,
      congrArg WorkPackage.header (Farm.setWorkBegin_currentWp ..), fun hreal i _ => ?_⟩
    refine ⟨fun w hw heq => ?_, fun l hl heq => ?_, fun x hx _ heq => ?_⟩
    · rw [hwork] at hw
      obtain ⟨c, hc, hheader, -⟩ := h.given i w hw (by rw [WorkPackage.isReal, heq]; exact hreal)
      exact hold c hc (hheader.trans heq)
    · obtain ⟨c, hc, hheader, -⟩ :=
        h.current i l hl (by rw [WorkPackage.isReal, heq]; exact hreal)
      exact hold c hc (hheader.trans heq)
    · obtain ⟨p, hp⟩ := List.getElem?_of_mem hx
      obtain ⟨-, c, hc, hheader, -⟩ := h.launched p x hp
      exact hold c hc (hheader.trans heq)

/-- What a turn of the loop of `setWork` makes of the package of miner `i`. -/
theorem work_giveWork {startNonce : BitVec 64} {i : ℕ} {j : BitVec 32} {w : WorkPackage}
    (hw : (s.farm.giveWork startNonce j).miners[i]?.map Miner.work = some w)
    (hreal : w.isReal = true) :
    (j.toNat ≠ i ∧ s.work i = some w) ∨
      (j.toNat = i ∧ w = s.farm.packageFor startNonce j) := by
  rw [Farm.giveWork, List.getElem?_modify] at hw
  obtain ⟨m', hm', rfl⟩ := Option.map_eq_some_iff.mp hw
  obtain ⟨m, hm, rfl⟩ := Option.map_eq_some_iff.mp hm'
  split_ifs at hreal ⊢ with hij
  · refine .inr ⟨hij, ?_⟩
    unfold Miner.setWork at hreal ⊢
    split_ifs at hreal ⊢
    · cases hreal
    · rfl
  · exact .inl ⟨hij, by rw [work, hm]; rfl⟩

/-- **A turn of the loop of `setWork`** gives the next miner its segment of the call. -/
theorem tracked_giveWork {startNonce : BitVec 64} {j : BitVec 32} (h : s.Tracked settings)
    (hhanding : s.handing = some (startNonce, j)) (hj : j.toNat < s.farm.miners.length)
    (hmany : s.farm.miners.length < 2 ^ 32) :
    ({ s with
        farm := s.farm.giveWork startNonce j
        handing := some (startNonce, j + 1) } : MiningFarm).Tracked settings := by
  obtain ⟨c, hlast, hstart, hwidth, hheader, hahead⟩ := h.handing startNonce j hhanding
  have hnext : (j + 1).toNat = j.toNat + 1 := by
    rw [BitVec.toNat_add, show (1 : BitVec 32).toNat = 1 from rfl]
    omega
  have hshare : (s.farm.packageFor startNonce j).startNonce = c.share j.toNat := by
    rw [Farm.packageFor_startNonce, Call.share, hstart, hwidth]
  have hpackage : (s.farm.packageFor startNonce j).header = c.work.header := hheader
  refine h.of_works (Farm.length_giveWork ..) rfl rfl rfl (fun i w hw hreal => ?_)
    fun startNonce' k hk => ?_
  · rcases work_giveWork hw hreal with ⟨-, hold⟩ | ⟨rfl, rfl⟩
    · exact .inl hold
    · have hrealc : c.work.isReal = true := by
        rw [WorkPackage.isReal, ← hpackage]
        exact hreal
      refine .inr ⟨⟨c, List.mem_of_getLast? hlast, hpackage.symm, hshare⟩, ?_⟩
      rw [hpackage]
      exact (hahead hrealc _ (le_refl _)).launches
  · obtain ⟨rfl, rfl⟩ := Prod.mk.inj (Option.some.inj hk)
    refine ⟨c, hlast, hstart, hwidth, hheader, fun hrealc i hi => ?_⟩
    rw [hnext] at hi
    obtain ⟨hwork, hcurrent, hlaunches⟩ := hahead hrealc i (by omega)
    refine ⟨fun w hw heq => ?_, hcurrent, hlaunches⟩
    have hreal : w.isReal = true := by
      rw [WorkPackage.isReal, heq]
      exact hrealc
    rcases work_giveWork hw hreal with ⟨-, hold⟩ | ⟨hji, -⟩
    · exact hwork w hold heq
    · omega

/-- A turn without work changes what the record does not look at. -/
theorem tracked_turn_void {i : ℕ} {l l' : State} (h : s.Tracked settings)
    (hl : s.loops[i]? = some l) (hinv : l'.LoopInv) (hcurrent : l'.current = l.current)
    (hstart : l'.startNonce = l.startNonce) :
    ({ s with loops := s.loops.set i l' } : MiningFarm).Tracked settings := by
  have hloop : ∀ (k : ℕ) (l₁ : State), (s.loops.set i l')[k]? = some l₁ →
      ∃ l₀, s.loops[k]? = some l₀ ∧ l₁.current = l₀.current ∧ l₁.startNonce = l₀.startNonce ∧
        l₁.LoopInv := by
    intro k l₁ hl₁
    rcases getElem?_set_loop hl hl₁ with ⟨rfl, rfl⟩ | ⟨-, hl₁⟩
    · exact ⟨l, hl, hcurrent, hstart, hinv⟩
    · exact ⟨l₁, hl₁, rfl, rfl, h.loopInv k l₁ hl₁⟩
  refine ⟨h.given, fun k w l₁ hw hl₁ hreal hne => ?_, fun k l₁ hl₁ => ?_,
    fun k l₁ hl₁ hreal => ?_, h.launched, fun startNonce j hj => ?_⟩
  · obtain ⟨l₀, hl₀, hcur, -, -⟩ := hloop k l₁ hl₁
    exact h.unlaunched k w l₀ hw hl₀ hreal (by rw [← hcur]; exact hne)
  · obtain ⟨-, -, -, -, hinv₁⟩ := hloop k l₁ hl₁
    exact hinv₁
  · obtain ⟨l₀, hl₀, hcur, hst, -⟩ := hloop k l₁ hl₁
    rw [hcur] at hreal ⊢
    rw [hst]
    exact h.current k l₀ hl₀ hreal
  · obtain ⟨c, hlast, hstartc, hwidth, hheader, hahead⟩ := h.handing startNonce j hj
    refine ⟨c, hlast, hstartc, hwidth, hheader, fun hreal k hk => ?_⟩
    obtain ⟨hwork, hcur, hlaunches⟩ := hahead hreal k hk
    refine ⟨hwork, fun l₁ hl₁ => ?_, hlaunches⟩
    obtain ⟨l₀, hl₀, hcur₁, -, -⟩ := hloop k l₁ hl₁
    rw [hcur₁]
    exact hcur l₀ hl₀

/-- **A launch starts where the record says**: after the launches that the miner has made for
the header, in its segment of the call that brought it. -/
theorem startNonce_of_launch {i : ℕ} {w : WorkPackage} {l : State} (h : s.Tracked settings)
    (hw : s.work i = some w) (hl : s.loops[i]? = some l) (hreal : w.isReal = true) :
    s.Placed settings i w.header (launchesFor i w.header s.launches)
      (if l.current.header = w.header then l.startNonce else w.startNonce) := by
  by_cases hsame : l.current.header = w.header
  · have hrealCurrent : l.current.isReal = true := by
      rw [WorkPackage.isReal, hsame]
      exact hreal
    obtain ⟨c, hc, hheader, hstart⟩ := h.current i l hl hrealCurrent
    rw [if_pos hsame, ← hsame]
    exact ⟨c, hc, hheader, hstart⟩
  · obtain ⟨c, hc, hheader, hstart⟩ := h.given i w hw hreal
    rw [if_neg hsame, launchesFor_eq_zero (h.unlaunched i w l hw hl hreal hsame), Placed,
      Nat.zero_mul]
    exact ⟨c, hc, hheader, hstart.trans (BitVec.add_zero _).symm⟩

/-- The start nonce after one launch more. -/
theorem add_launch (a : BitVec 64) (k : ℕ) (globalWorkSize : BitVec 32) :
    a + BitVec.ofNat 64 (k * globalWorkSize.toNat) + globalWorkSize.setWidth 64 =
      a + BitVec.ofNat 64 ((k + 1) * globalWorkSize.toNat) := by
  rw [BitVec.add_assoc, Nat.succ_mul, BitVec.ofNat_add, BitVec.ofNat_toNat]

/-- **A launch** is recorded. -/
theorem tracked_turn_real {i : ℕ} {w : WorkPackage} {l l' : State} (h : s.Tracked settings)
    (hw : s.work i = some w) (hl : s.loops[i]? = some l) (hreal : w.isReal = true)
    (hi : i < s.farm.miners.length) (hinv : l'.LoopInv)
    (hrun : l'.lastRun.header = w.header) (hcurrent : l'.current.header = w.header)
    (hlaunch : l'.lastRun.startNonce =
      if l.current.header = w.header then l.startNonce else w.startNonce)
    (hstart : l'.startNonce = l'.lastRun.startNonce + settings.globalWorkSize.setWidth 64) :
    ({ s with
        loops := s.loops.set i l'
        launches := s.launches ++ [⟨i, l'.lastRun⟩] } : MiningFarm).Tracked settings := by
  obtain ⟨c, hc, hheader, hplace⟩ := startNonce_of_launch h hw hl hreal
  rw [← hlaunch, ← hrun] at hplace
  refine ⟨h.given, fun k w₁ l₁ hw₁ hl₁ hreal₁ hne => ?_, fun k l₁ hl₁ => ?_,
    fun k l₁ hl₁ hreal₁ => ?_, fun p x hx => ?_, fun startNonce j hj => ?_⟩
  · rcases getElem?_set_loop hl hl₁ with ⟨rfl, rfl⟩ | ⟨hki, hl₁⟩
    · obtain rfl := Option.some.inj (hw.symm.trans hw₁)
      exact absurd hcurrent hne
    · exact (h.unlaunched k w₁ l₁ hw₁ hl₁ hreal₁ hne).append fun heq => absurd heq hki
  · rcases getElem?_set_loop hl hl₁ with ⟨-, rfl⟩ | ⟨-, hl₁⟩
    · exact hinv
    · exact h.loopInv k l₁ hl₁
  · rcases getElem?_set_loop hl hl₁ with ⟨rfl, rfl⟩ | ⟨hki, hl₁⟩
    · refine ⟨c, hc, hheader.trans hcurrent.symm, ?_⟩
      rw [hcurrent, ← hrun, launchesFor_append_self, hstart, hplace, add_launch]
    · rw [launchesFor_append_other hki]
      exact h.current k l₁ hl₁ hreal₁
  · rcases Nat.lt_or_ge p s.launches.length with hp | hp
    · rw [List.getElem?_append_left hp] at hx
      rw [List.take_append_of_le_length (Nat.le_of_lt hp)]
      exact h.launched p x hx
    · have hlast : p = s.launches.length := by
        have hlt := (List.getElem?_eq_some_iff.mp hx).1
        rw [List.length_append, List.length_singleton] at hlt
        omega
      rw [hlast, List.getElem?_concat_length] at hx
      obtain rfl := Option.some.inj hx
      rw [hlast, List.take_left]
      exact ⟨hi, c, hc, hheader.trans hrun.symm, hplace⟩
  · obtain ⟨c₁, hlast, hstartc, hwidth, hheader₁, hahead⟩ := h.handing startNonce j hj
    refine ⟨c₁, hlast, hstartc, hwidth, hheader₁, fun hreal₁ k hk => ?_⟩
    obtain ⟨hwork, hcur, hlaunches⟩ := hahead hreal₁ k hk
    have hahead₁ : k = i → w.header ≠ c₁.work.header := fun hki => hwork w (hki ▸ hw)
    refine ⟨hwork, fun l₁ hl₁ => ?_, hlaunches.append (hrun ▸ hahead₁)⟩
    rcases getElem?_set_loop hl hl₁ with ⟨hki, rfl⟩ | ⟨-, hl₁⟩
    · rw [hcurrent]
      exact hahead₁ hki
    · exact hcur l₁ hl₁

/-- **A turn of a miner** keeps track. -/
theorem tracked_turn {i : ℕ} {init : InitEpoch} {found : List SearchResult}
    (h : s.Tracked settings) (hs' : s.step lib settings (.turn i init found) = some s') :
    s'.Tracked settings := by
  obtain ⟨m, l, l', hm, hl, hl', rfl⟩ := step_turn hs'
  have hinv := State.loopInv_iterate (h.loopInv i l hl) hl'
  cases hreal : m.work.isReal with
  | false =>
    obtain ⟨b, hclean, -⟩ := l.cleanResults_spec settings
    obtain hvoid := State.iterate_of_void hreal hl'
    rw [if_neg Bool.false_ne_true]
    exact tracked_turn_void h hl hinv (by rw [hvoid, hclean]) (by rw [hvoid, hclean])
  | true =>
    obtain ⟨hrun, hcurrent, hlaunch, hstart⟩ :=
      State.launch_of_iterate (h.loopInv i l hl) hreal hl'
    rw [if_pos rfl]
    exact tracked_turn_real h (by rw [work, hm]; rfl) hl hreal
      (List.getElem?_eq_some_iff.mp hm).1 hinv hrun hcurrent hlaunch hstart

/-- **Every step keeps track**, as long as the headers are new. -/
theorem tracked_step {e : FarmEvent} (h : s.Fresh → s.Tracked settings)
    (hmany : s.farm.miners.length < 2 ^ 32) (hs' : s.step lib settings e = some s')
    (hfresh : s'.Fresh) : s'.Tracked settings := by
  have hs : s.Tracked settings := h (hfresh.of_step hs')
  cases e with
  | setWork newWp draw => exact tracked_setWork hs hs' hfresh
  | handOut =>
    obtain ⟨startNonce, j, hhanding, ⟨hj, rfl⟩ | rfl⟩ := step_handOut hs'
    · exact tracked_giveWork hs hhanding hj hmany
    · exact hs.of_works rfl rfl rfl rfl (fun _ _ hw _ => .inl hw) fun _ _ hk => nomatch hk
  | turn i init found => exact tracked_turn hs hs'
  | pause i what =>
    obtain rfl := Option.some.inj hs'
    exact tracked_modify hs i fun m => .inr rfl
  | resume i fromwhat =>
    obtain rfl := Option.some.inj hs'
    exact tracked_modify hs i fun m => .inl rfl

end Tracking

/-! ## What is hashed -/

section Hashed

variable {settings : FPGASettings} {s : MiningFarm}

/-- Of two launches of one miner for one header the later one has the higher number. -/
theorem launchesFor_take_lt {launches : List FarmLaunch} {p q : ℕ} {x y : FarmLaunch}
    (hpq : p < q) (hx : launches[p]? = some x) (hminer : x.miner = y.miner)
    (hheader : x.run.header = y.run.header) :
    launchesFor x.miner x.run.header (launches.take p) <
      launchesFor y.miner y.run.header (launches.take q) := by
  have hsucc : launches.take (p + 1) = launches.take p ++ [x] := by
    rw [List.take_add_one, hx]
    rfl
  calc launchesFor x.miner x.run.header (launches.take p)
      < launchesFor x.miner x.run.header (launches.take (p + 1)) := by
        rw [hsucc]
        exact lt_of_lt_of_eq (Nat.lt_succ_self _) (launchesFor_append_self x.miner x.run _).symm
    _ ≤ launchesFor x.miner x.run.header (launches.take q) :=
        ((List.take_prefix_take_left hpq).sublist).countP_le
    _ = launchesFor y.miner y.run.header (launches.take q) := by rw [hminer, hheader]

/-- A launch is one of those that its segment holds. -/
theorem launchesFor_take_le (hwithin : s.WithinSegments settings) {p : ℕ} {x : FarmLaunch}
    (hx : s.launches[p]? = some x) {c : Call} (hc : c ∈ s.calls)
    (hheader : c.work.header = x.run.header) :
    (launchesFor x.miner x.run.header (s.launches.take p) + 1) *
      settings.globalWorkSize.toNat ≤ 2 ^ c.width := by
  have hsucc : s.launches.take (p + 1) = s.launches.take p ++ [x] := by
    rw [List.take_add_one, hx]
    rfl
  have hle : launchesFor x.miner x.run.header (s.launches.take p) + 1 ≤
      launchesFor x.miner x.run.header s.launches := by
    rw [← launchesFor_append_self, ← hsucc]
    exact (List.take_sublist _ _).countP_le
  refine le_trans (Nat.mul_le_mul_right _ hle) ?_
  rw [← hheader]
  exact hwithin c hc x.miner

theorem Fresh.eq_of_header (h : s.Fresh) {c d : Call} (hc : c ∈ s.calls) (hd : d ∈ s.calls)
    (heq : c.work.header = d.work.header) : c = d :=
  List.inj_on_of_nodup_map h hc hd heq

theorem noneTwice_of_tracked (h : s.Tracked settings) (hroom : s.Roomy) (hfresh : s.Fresh)
    (hwithin : s.WithinSegments settings) : s.NoneTwice settings := by
  refine List.pairwise_iff_getElem.mpr fun p q hp hq hpq hheader => ?_
  have hx : s.launches[p]? = some s.launches[p] := List.getElem?_eq_getElem hp
  have hy : s.launches[q]? = some s.launches[q] := List.getElem?_eq_getElem hq
  obtain ⟨hminerx, c, hc, hcx, hstartx⟩ := h.launched p _ hx
  obtain ⟨hminery, d, hd, hdy, hstarty⟩ := h.launched q _ hy
  -- one header comes from one call
  obtain rfl := hfresh.eq_of_header hc hd (hcx.trans (hheader.trans hdy.symm))
  rw [FarmLaunch.nonces, FarmLaunch.nonces, hstartx, hstarty]
  refine disjoint_segment_mul_mul (hroom.calls c hc) hminerx hminery
    (launchesFor_take_le hwithin hx hc hcx) (launchesFor_take_le hwithin hy hd hdy) ?_
  by_cases hminer : s.launches[p].miner = s.launches[q].miner
  · exact .inr (Nat.ne_of_lt (launchesFor_take_lt hpq hx hminer hheader))
  · exact .inl hminer

theorem inPoolRange_of_tracked (h : s.Tracked settings) (hroom : s.Roomy) (hfresh : s.Fresh)
    (hwithin : s.WithinSegments settings) : s.InPoolRange settings := by
  intro c hc he hzero x hx hheader v hv
  obtain ⟨p, hp⟩ := List.getElem?_of_mem hx
  obtain ⟨hminer, d, hd, hdx, hstart⟩ := h.launched p x hp
  obtain rfl := hfresh.eq_of_header hd hc (hdx.trans hheader)
  obtain ⟨hfirst, hpool⟩ := hroom.pool d hd he
  have hle := launchesFor_take_le hwithin hp hd hdx
  rw [Nat.succ_mul] at hle
  rw [FarmLaunch.nonces, hstart] at hv
  obtain ⟨r, hr, rfl⟩ := exists_offset_of_mem_segment_mul hminer (segment_add_subset _ hle hv)
  rw [hfirst]
  exact ushiftRight_add_ofNat (Nat.sub_le _ _) hzero (lt_of_lt_of_le hr (hpool (by omega)))

end Hashed

/-! ## Every order of the steps -/

/-- The farm before its first package, and the loops as they start. -/
def start (f : Farm) (devices : List (H256 × SearchBuffer × BitVec 64)) : MiningFarm :=
  { farm := f, loops := devices.map fun d => State.start d.1 d.2.1 d.2.2 }

theorem tracked_start (settings : FPGASettings) {f : Farm}
    (devices : List (H256 × SearchBuffer × BitVec 64))
    (hidle : ∀ m ∈ f.miners, m.work.isReal = false) : (start f devices).Tracked settings := by
  have hwork : ∀ i w, (start f devices).work i = some w → w.isReal = false := by
    intro i w hw
    obtain ⟨m, hm, rfl⟩ := Option.map_eq_some_iff.mp hw
    exact hidle m (List.mem_of_getElem? hm)
  have hloop : ∀ (i : ℕ) (l : State), (start f devices).loops[i]? = some l →
      ∃ header searchBuffer target, l = State.start header searchBuffer target := by
    intro i l hl
    obtain ⟨d, -, rfl⟩ := List.mem_map.mp (List.mem_of_getElem? hl)
    exact ⟨_, _, _, rfl⟩
  refine ⟨fun i w hw hreal => ?_, fun i w l hw _ hreal => ?_, fun i l hl => ?_,
    fun i l hl hreal => ?_, fun p x hx => ?_, fun _ _ h => nomatch h⟩
  · rw [hwork i w hw] at hreal
    cases hreal
  · rw [hwork i w hw] at hreal
    cases hreal
  · obtain ⟨header, searchBuffer, target, rfl⟩ := hloop i l hl
    exact ⟨fun sub hsub => absurd hsub List.not_mem_nil,
      fun slot hslot => absurd hslot List.not_mem_nil, fun h => absurd h Bool.false_ne_true⟩
  · obtain ⟨header, searchBuffer, target, rfl⟩ := hloop i l hl
    cases hreal
  · cases hx

/-- **No nonce is hashed twice.**  Take a farm of fewer than `2 ^ 32` idle miners with its
initial width, and any order of calls of `setWork`, of turns of the miners between the turns of
its loop, of pauses and of resumptions.  In every state on the way in which the packages so far
fit and bring different headers, and in which no miner has made more launches for one header
than its segment holds: no two launches for one header, of one miner or of two, hash the same
nonce, and every nonce that was hashed for a package with an extranonce begins with it. -/
theorem no_nonce_twice (lib : EthashLibrary) (settings : FPGASettings) (f : Farm)
    (devices : List (H256 × SearchBuffer × BitVec 64)) (events : List FarmEvent)
    (hwidth : f.nonceSegmentWith = 32) (hmany : f.miners.length < 2 ^ 32)
    (hidle : ∀ m ∈ f.miners, m.work.isReal = false) :
    Along (step lib settings)
      (fun s => s.Fitting → s.Fresh → s.WithinSegments settings →
        s.NoneTwice settings ∧ s.InPoolRange settings)
      (start f devices) events := by
  have hroom : (start f devices).Roomy := by
    refine ⟨?_, fun c hc => absurd hc List.not_mem_nil, fun c hc => absurd hc List.not_mem_nil⟩
    rw [Farm.Room, show (start f devices).farm = f from rfl, hwidth]
    calc f.miners.length * 2 ^ (32 : BitVec 32).toNat ≤ 2 ^ 32 * 2 ^ 32 :=
          Nat.mul_le_mul_right _ (Nat.le_of_lt hmany)
      _ = 2 ^ 64 := by norm_num
  have hinv : Along (step lib settings)
      (fun s => s.farm.miners.length < 2 ^ 32 ∧ (s.Fitting → s.Roomy) ∧
        (s.Fresh → s.Tracked settings)) (start f devices) events := by
    refine along_of_invariant ?_ events _
      ⟨hmany, fun _ => hroom, fun _ => tracked_start settings devices hidle⟩
    rintro s e s' ⟨hlt, hroomy, htracked⟩ hs'
    exact ⟨lt_of_eq_of_lt (step_frame hs').1 hlt, roomy_step hroomy hs',
      tracked_step htracked hlt hs'⟩
  refine hinv.mono ?_
  rintro s ⟨-, hroomy, htracked⟩ hfit hfresh hwithin
  exact ⟨noneTwice_of_tracked (htracked hfresh) (hroomy hfit) hfresh hwithin,
    inPoolRange_of_tracked (htracked hfresh) (hroomy hfit) hfresh hwithin⟩

/-- Launches of eight nonces. -/
def eightNonces : FPGASettings := { globalWorkSize := 8 }

/-- A call for three miners; the first one launches before the others have the package, and
once more after the second one. -/
def callWithTurns : List FarmEvent :=
  [.setWork Logged.firstTurn.work 0, .handOut, .turn 0 (.ready (FixedHash.zero 32)) [], .handOut,
    .handOut, .handOut, .turn 1 (.ready (FixedHash.zero 32)) [], .turn 0 .failed []]

/-- The launches of `callWithTurns`: the second miner starts with its segment, and the first one
goes on from its first launch. -/
def threeLaunches : List FarmLaunch :=
  [(0, 0), (1, 2 ^ 32), (0, 8)].map fun x =>
    ⟨x.1, Vector.replicate 32 1, State.upper64 (Vector.replicate 32 1), x.2⟩

/-- The three launches of `callWithTurns` are apart. -/
theorem no_nonce_twice_callWithTurns :
    ∃ s, run (step default eightNonces)
        (start Farm.threeMiners (List.replicate 3 (FixedHash.zero 32, Logged.blankBuffer, 0)))
        callWithTurns = some s ∧
      s.launches = threeLaunches ∧ s.NoneTwice eightNonces := by
  have hend : (run (step default eightNonces)
      (start Farm.threeMiners (List.replicate 3 (FixedHash.zero 32, Logged.blankBuffer, 0)))
      callWithTurns).map (fun s => (s.farm.miners.length, s.calls, s.launches)) =
      some (3, [⟨Logged.firstTurn.work, 0, 32⟩], threeLaunches) := by
    decide +kernel
  obtain ⟨s, hs, hfields⟩ := Option.map_eq_some_iff.mp hend
  obtain ⟨hlen, hrest⟩ := Prod.mk.inj hfields
  obtain ⟨hcalls, hlaunches⟩ := Prod.mk.inj hrest
  refine ⟨s, hs, hlaunches, ?_⟩
  have halong := no_nonce_twice default eightNonces Farm.threeMiners
    (List.replicate 3 (FixedHash.zero 32, Logged.blankBuffer, 0)) callWithTurns rfl (by decide)
    (by decide)
  refine (halong.of_run hs ?_ ?_ ?_).1
  · rw [Fitting, hcalls, hlen, List.forall_mem_singleton, Fits]
    decide
  · rw [Fresh, hcalls]
    exact List.nodup_singleton _
  · rw [WithinSegments, hcalls, List.forall_mem_singleton, hlaunches]
    intro i
    have hle : launchesFor i Logged.firstTurn.work.header threeLaunches ≤ 3 :=
      List.countP_le_length
    exact le_trans (Nat.mul_le_mul_right 8 hle) (by decide)

end MiningFarm
end Fpga
end FpgaEthash
