import FpgaEthash.Pool.Manager

/-!
# The epoch of the packages that the farm is given

The manager's copy of the last package outlives the connection that it came on: a lost
connection clears its header, a new one its job, and its epoch and its seed stay.  When
the next package comes, `newEpoch` decides whether the epoch is worked out again or
carried over, and it compares what the *new* connection tells: epoch numbers in
EthereumStratum/2.0.0, seeds in every other mode.

Each of the two comparisons is sound as long as the last package came in the same way.
A package of EthereumStratum/2.0.0 has no seed, though, and leaves `h256()` in the
copy, which is the seed hash of epoch 0.  A pool of another mode that mines in epoch 0
then shows the seed that is already there, and its package goes to the farm with the
epoch of the pool before it.

`epochsTrue_iff` is the exact condition, for every sequence of connections and packages;
`epochsTrue_of_seeds` says that connections which all tell seeds meet it.
-/

namespace FpgaEthash
namespace Pool

open Devcore Ethcore Runs Stratum Throwing

/-- A package as a client delivers it, and the epoch that it is for.  In
EthereumStratum/2.0.0 the package has its epoch, in the other modes the seed hash of it,
which `find_epoch_number` inverts; a block number, if there is one, lies in the epoch. -/
structure Delivery (seedHash : ℤ → H256) (findEpochNumber : H256 → ℤ) where
  conn : Uri
  wp : WorkPackage
  epoch : ℤ
  nonneg : 0 ≤ epoch
  session : conn.stratumMode = 3 → wp.epoch = epoch
  given : wp.epoch = -1 ∨ wp.epoch = epoch
  seed : conn.stratumMode ≠ 3 → wp.seed = seedHash epoch
  block : 0 ≤ wp.block → wp.block / 30000 = epoch
  inverse : findEpochNumber (seedHash epoch) = epoch

variable {seedHash : ℤ → H256} {findEpochNumber : H256 → ℤ}

/-- Working out the epoch gives the right one. -/
theorem Delivery.epoch_withEpoch (d : Delivery seedHash findEpochNumber) :
    (PoolManager.withEpoch findEpochNumber d.wp).epoch = d.epoch := by
  unfold PoolManager.withEpoch
  split_ifs with hunset hblock
  · exact (Int.tdiv_eq_ediv_of_nonneg hblock).trans (d.block hblock)
  · -- a package of EthereumStratum/2.0.0 has its epoch, so this one has a seed
    have hmode : d.conn.stratumMode ≠ 3 := by
      intro hmode
      have hnonneg := d.nonneg
      have hgiven := d.session hmode
      omega
    show findEpochNumber d.wp.seed = d.epoch
    rw [d.seed hmode, d.inverse]
  · exact d.given.resolve_left hunset

/-! ## What the handler of new work leaves -/

namespace PoolManager

/-- The handler gets to `Farm::setWork`. -/
def Gives (p : PoolManager) (conn : Uri) (wp : WorkPackage) : Prop :=
  wp.isReal = true ∧ ¬ p.ShowsZero conn wp

instance (p : PoolManager) (conn : Uri) (wp : WorkPackage) : Decidable (p.Gives conn wp) :=
  inferInstanceAs (Decidable (_ ∧ _))

/-- `Farm::f().setWork(m_currentWp)`. -/
def giveWork (p : PoolManager) : PoolManager := { p with farmWork := p.farmWork ++ [p.currentWp] }

@[simp] theorem farmWork_takeWork (conn : Uri) (wp : WorkPackage) (p : PoolManager) :
    (takeWork findEpochNumber conn wp p).farmWork = p.farmWork := by
  unfold takeWork
  split_ifs <;> rfl

/-- Showing what is mined changes nothing. -/
theorem leaves_showNew (new : Bool) (p : PoolManager) : leaves (showNew new) p = p := by
  cases new with
  | false => rfl
  | true =>
    show leaves
      (if p.currentWp.isReal = true then _ else _ : EStateM Abort PoolManager Unit) p = p
    split_ifs with hreal
    · cases getHashesToTarget (p.currentWp.boundary.hex .add) with
      | ok n => rfl
      | error e => rfl
    · rfl

/-- A void package changes nothing. -/
theorem leaves_onWorkReceived_of_void {conn : Uri} {wp : WorkPackage} (p : PoolManager)
    (hvoid : wp.isReal = false) : leaves (onWorkReceived findEpochNumber conn wp) p = p := by
  unfold onWorkReceived
  rw [hvoid]
  rfl

/-- A real package is taken, and given to the farm unless the handler throws. -/
theorem leaves_onWorkReceived_of_real {conn : Uri} {wp : WorkPackage} (p : PoolManager)
    (hreal : wp.isReal = true) :
    leaves (onWorkReceived findEpochNumber conn wp) p =
      if p.ShowsZero conn wp then takeWork findEpochNumber conn wp p
      else (takeWork findEpochNumber conn wp p).giveWork := by
  have hthrown := thrown_onWorkReceived_iff findEpochNumber conn wp p
  have hcall : onWorkReceived findEpochNumber conn wp p =
      (showNew (p.newDiff wp || p.newEpoch conn wp) >>= fun _ => modify giveWork)
        (takeWork findEpochNumber conn wp p) := by
    unfold onWorkReceived
    rw [hreal]
    rfl
  cases hshow : showNew (p.newDiff wp || p.newEpoch conn wp)
      (takeWork findEpochNumber conn wp p) with
  | ok u q =>
    have hq : q = takeWork findEpochNumber conn wp p :=
      (leaves_of_ok hshow).symm.trans (leaves_showNew _ _)
    have hok : onWorkReceived findEpochNumber conn wp p = .ok ⟨⟩ q.giveWork := by
      rw [hcall, bind_of_ok hshow]
      rfl
    rw [if_neg (hthrown.mp (thrown_of_ok hok)), leaves_of_ok hok, hq]
  | error e q =>
    have hq : q = takeWork findEpochNumber conn wp p :=
      (leaves_of_error hshow).symm.trans (leaves_showNew _ _)
    have herror : onWorkReceived findEpochNumber conn wp p = .error e q := by
      rw [hcall, bind_of_error hshow]
    have hzero : p.ShowsZero conn wp := by
      by_contra hne
      have hnone := (thrown_of_error herror).symm.trans (hthrown.mpr hne)
      cases hnone
    rw [if_pos hzero, leaves_of_error herror, hq]

/-- The manager's epoch after a package: worked out if the epoch is new, else what it
was. -/
theorem epoch_takeWork (conn : Uri) (wp : WorkPackage) (p : PoolManager) :
    (takeWork findEpochNumber conn wp p).currentWp.epoch =
      if p.newEpoch conn wp then (withEpoch findEpochNumber wp).epoch else p.currentWp.epoch := by
  unfold takeWork
  split_ifs <;> rfl

@[simp] theorem seed_takeWork (conn : Uri) (wp : WorkPackage) (p : PoolManager) :
    (takeWork findEpochNumber conn wp p).currentWp.seed = wp.seed := by
  unfold takeWork withEpoch
  split_ifs <;> rfl

/-- The package shows the seed that is there already, but it is for another epoch. -/
def Misleads (p : PoolManager) (d : Delivery seedHash findEpochNumber) : Prop :=
  d.conn.stratumMode ≠ 3 ∧ p.currentWp.epoch ≠ -1 ∧ d.wp.seed = p.currentWp.seed ∧
    p.currentWp.epoch ≠ d.epoch

/-- **When the manager has the right epoch** after a package. -/
theorem epoch_takeWork_iff (p : PoolManager) (d : Delivery seedHash findEpochNumber) :
    (takeWork findEpochNumber d.conn d.wp p).currentWp.epoch = d.epoch ↔ ¬ p.Misleads d := by
  rw [epoch_takeWork]
  split_ifs with hnew
  · refine iff_of_true d.epoch_withEpoch ?_
    rintro ⟨hmode, hset, hseed, -⟩
    simp [newEpoch, hmode, hset, hseed] at hnew
  · simp only [newEpoch, Bool.or_eq_true, beq_iff_eq, not_or] at hnew
    obtain ⟨hset, hsame⟩ := hnew
    by_cases hmode : d.conn.stratumMode = 3
    · rw [if_pos hmode, bne_iff_ne, not_not] at hsame
      exact iff_of_true (hsame.symm.trans (d.session hmode)) fun h => h.1 hmode
    · rw [if_neg hmode, bne_iff_ne, not_not] at hsame
      constructor
      · rintro hright ⟨-, -, -, hwrong⟩
        exact hwrong hright
      · intro h
        by_contra hwrong
        exact h ⟨hmode, hset, hsame, hwrong⟩

end PoolManager

/-! ## Sequences of connections and packages -/

/-- The manager, and for each package that it has given to the farm the epoch that it was
for. -/
structure Tracking where
  manager : PoolManager := {}
  epochs : List ℤ := []

namespace Tracking

/-- What the client reports. -/
inductive Event (seedHash : ℤ → H256) (findEpochNumber : H256 → ℤ) where
  | connected
  | disconnected
  | work (d : Delivery seedHash findEpochNumber)

/-- The manager's handler of the report. -/
def step (s : Tracking) : Event seedHash findEpochNumber → Option Tracking
  | .connected => some { s with manager := s.manager.resetWork }
  | .disconnected => some { s with manager := s.manager.dropWork }
  | .work d =>
    let manager := leaves (PoolManager.onWorkReceived findEpochNumber d.conn d.wp) s.manager
    let given := manager.farmWork.length - s.manager.farmWork.length
    some ⟨manager, s.epochs ++ List.replicate given d.epoch⟩

/-- Every package was given to the farm with the epoch that it is for. -/
def EpochsTrue (s : Tracking) : Prop := s.manager.farmWork.map WorkPackage.epoch = s.epochs

/-- The steps that keep the epochs true: a package that gets to the farm does not show
the seed of the last one for another epoch. -/
def Tells (s : Tracking) : Event seedHash findEpochNumber → Prop
  | .work d => s.manager.Gives d.conn d.wp → ¬ s.manager.Misleads d
  | _ => True

/-- A package that gets to the farm. -/
theorem step_work_of_gives {s : Tracking} {d : Delivery seedHash findEpochNumber}
    (h : s.manager.Gives d.conn d.wp) :
    s.step (.work d) = some
      ⟨(PoolManager.takeWork findEpochNumber d.conn d.wp s.manager).giveWork,
        s.epochs ++ [d.epoch]⟩ := by
  simp only [step, PoolManager.leaves_onWorkReceived_of_real s.manager h.1, if_neg h.2]
  simp [PoolManager.giveWork]

/-- A package that does not. -/
theorem step_work_of_not_gives {s : Tracking} {d : Delivery seedHash findEpochNumber}
    (h : ¬ s.manager.Gives d.conn d.wp) :
    ∃ manager, manager.farmWork = s.manager.farmWork ∧
      (manager = s.manager ∨
        manager = PoolManager.takeWork findEpochNumber d.conn d.wp s.manager) ∧
      s.step (.work d) = some ⟨manager, s.epochs⟩ := by
  cases hreal : d.wp.isReal with
  | false =>
    refine ⟨s.manager, rfl, Or.inl rfl, ?_⟩
    simp only [step, PoolManager.leaves_onWorkReceived_of_void s.manager hreal]
    simp
  | true =>
    have hzero : s.manager.ShowsZero d.conn d.wp := by
      by_contra hne
      exact h ⟨hreal, hne⟩
    refine ⟨PoolManager.takeWork findEpochNumber d.conn d.wp s.manager,
      PoolManager.farmWork_takeWork .., Or.inr rfl, ?_⟩
    simp only [step, PoolManager.leaves_onWorkReceived_of_real s.manager hreal, if_pos hzero]
    simp

/-- **One step keeps the epochs true** exactly when its package does not mislead. -/
theorem epochsTrue_step_iff {s s' : Tracking} {e : Event seedHash findEpochNumber}
    (h : s.EpochsTrue) (hs : s.step e = some s') : s'.EpochsTrue ↔ s.Tells e := by
  cases e with
  | connected | disconnected =>
    obtain rfl := Option.some.inj hs
    exact iff_of_true h trivial
  | work d =>
    by_cases hgives : s.manager.Gives d.conn d.wp
    · rw [step_work_of_gives hgives] at hs
      obtain rfl := Option.some.inj hs
      have hlast : EpochsTrue ⟨(PoolManager.takeWork findEpochNumber d.conn d.wp
            s.manager).giveWork, s.epochs ++ [d.epoch]⟩ ↔
          (PoolManager.takeWork findEpochNumber d.conn d.wp s.manager).currentWp.epoch =
            d.epoch := by
        unfold EpochsTrue at h ⊢
        simp [PoolManager.giveWork, h]
      rw [hlast, PoolManager.epoch_takeWork_iff]
      exact ⟨fun hd _ => hd, fun hd => hd hgives⟩
    · obtain ⟨manager, hsame, -, hstep⟩ := step_work_of_not_gives hgives
      obtain rfl := Option.some.inj (hstep.symm.trans hs)
      refine iff_of_true ?_ fun hg => absurd hg hgives
      unfold EpochsTrue at h ⊢
      rw [hsame, h]

/-- **Every package is given to the farm with its epoch**, in every state of a run,
exactly when no package of the run that gets to the farm shows the seed of the manager's
copy while the epoch kept there is another one. -/
theorem epochsTrue_iff (es : List (Event seedHash findEpochNumber)) :
    Along step EpochsTrue {} es ↔ StepsMeet step Tells {} es :=
  along_iff_stepsMeet (fun _ _ _ _ _ => trivial)
    (fun _ _ _ _ h hs => epochsTrue_step_iff h hs) es {} trivial rfl

/-! ## Pools that all tell seeds -/

/-- The seed and the epoch of the manager's copy belong together. -/
def Paired (seedHash : ℤ → H256) (findEpochNumber : H256 → ℤ) (wp : WorkPackage) : Prop :=
  wp.epoch = -1 ∨ wp.seed = seedHash wp.epoch ∧ findEpochNumber wp.seed = wp.epoch

/-- A package with a seed cannot mislead a manager whose copy is paired. -/
theorem not_misleads_of_paired {p : PoolManager} (d : Delivery seedHash findEpochNumber)
    (h : Paired seedHash findEpochNumber p.currentWp) : ¬ p.Misleads d := by
  rintro ⟨hmode, hset, hseed, hother⟩
  obtain ⟨-, hfind⟩ := h.resolve_left hset
  rw [← hseed, d.seed hmode, d.inverse] at hfind
  exact hother hfind.symm

theorem paired_takeWork {p : PoolManager} {d : Delivery seedHash findEpochNumber}
    (hmode : d.conn.stratumMode ≠ 3) (h : Paired seedHash findEpochNumber p.currentWp) :
    Paired seedHash findEpochNumber
      (PoolManager.takeWork findEpochNumber d.conn d.wp p).currentWp := by
  have hepoch := (PoolManager.epoch_takeWork_iff p d).mpr (not_misleads_of_paired d h)
  refine Or.inr ?_
  rw [hepoch, PoolManager.seed_takeWork, d.seed hmode]
  exact ⟨rfl, d.inverse⟩

theorem paired_step {s s' : Tracking} {e : Event seedHash findEpochNumber}
    (hseeds : ∀ d, e = .work d → d.conn.stratumMode ≠ 3)
    (h : Paired seedHash findEpochNumber s.manager.currentWp) (hs : s.step e = some s') :
    Paired seedHash findEpochNumber s'.manager.currentWp := by
  cases e with
  | connected | disconnected =>
    obtain rfl := Option.some.inj hs
    exact h
  | work d =>
    have hnext := paired_takeWork (hseeds d rfl) h
    by_cases hgives : s.manager.Gives d.conn d.wp
    · obtain rfl := Option.some.inj ((step_work_of_gives hgives).symm.trans hs)
      exact hnext
    · obtain ⟨manager, -, hmanager, hstep⟩ := step_work_of_not_gives hgives
      obtain rfl := Option.some.inj (hstep.symm.trans hs)
      rcases hmanager with rfl | rfl
      · exact h
      · exact hnext

/-- **Pools that tell seeds never confuse the manager**, whatever their modes are. -/
theorem epochsTrue_of_seeds (es : List (Event seedHash findEpochNumber))
    (hseeds : ∀ d, .work d ∈ es → d.conn.stratumMode ≠ 3) : Along step EpochsTrue {} es := by
  have hmeet : StepsMeet step (fun _ e => ∀ d, e = .work d → d.conn.stratumMode ≠ 3) {} es := by
    refine stepsMeet_of_forall_mem ?_
    rintro e he - d rfl
    exact hseeds d he
  have halong := along_of_stepsMeet
    (P := fun s => s.EpochsTrue ∧ Paired seedHash findEpochNumber s.manager.currentWp)
    (fun s e s' h hQ hs => ⟨(epochsTrue_step_iff h.1 hs).mpr ?_, paired_step hQ h.2 hs⟩)
    es {} ⟨rfl, Or.inl rfl⟩ hmeet
  · exact halong.mono fun s h => h.1
  · cases e with
    | connected => trivial
    | disconnected => trivial
    | work d => exact fun _ => not_misleads_of_paired d h.2

/-! ## A pool that tells its epoch, and then one that tells a seed -/

/-- A seed hash in one byte, for the epochs below 256.  That of epoch 0 is zero. -/
def byteSeed (epoch : ℤ) : H256 := (FixedHash.zero 32).set 0 (BitVec.ofInt 8 epoch)

/-- Reads the byte. -/
def byteEpoch (seed : H256) : ℤ := (seed.get 0).toNat

/-- A job of epoch 7 on a connection in EthereumStratum/2.0.0. -/
def sessionJob : Delivery byteSeed byteEpoch where
  conn := { version := 3, stratumMode := 3 }
  wp :=
    { header := Vector.replicate 32 1
      boundary := Vector.replicate 32 1
      epoch := 7 }
  epoch := 7
  nonneg := by decide
  session _ := rfl
  given := Or.inr rfl
  seed h := absurd rfl h
  block h := absurd h (by decide)
  inverse := by decide

/-- A job of epoch 0 on a connection that tells the seed. -/
def seedJob : Delivery byteSeed byteEpoch where
  conn := { version := 1, stratumMode := 1 }
  wp :=
    { header := Vector.replicate 32 2
      boundary := Vector.replicate 32 1 }
  epoch := 0
  nonneg := le_rfl
  session h := absurd h (by decide)
  given := Or.inl rfl
  seed _ := by decide
  block h := absurd h (by decide)
  inverse := by decide

/-- The first pool mines in epoch 7, the second one in epoch 0: the farm gets the job of
the second pool for epoch 7. -/
theorem epoch_carried_to_next_pool :
    (run step {} [.connected, .work sessionJob, .disconnected, .connected, .work seedJob]).map
      (fun s => (s.manager.farmWork.map WorkPackage.epoch, s.epochs)) =
        some ([7, 7], [7, 0]) := by
  decide +kernel

end Tracking
end Pool
end FpgaEthash
