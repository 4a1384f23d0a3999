import Mathlib.Data.Nat.ModEq
import FpgaEthash.Computation.Runs

/-!
# The hash rate of a miner

`Miner::updateHashRate` runs on the miner's thread and counts groups of hashes.
`Miner::TriggerHashRateUpdate` runs on the farm's strand and asks for a rate, by setting
`m_hashRateUpdate`.  The next `updateHashRate` finds the flag, clears it and stores the rate
since the last answer.  If the flag is still set when the farm asks again, the miner is taken
to be dead and its rate is set to zero.

Nothing locks these two.  Each access to an atomic variable is one step here, and so is each
statement on the variables that only the miner's thread uses; the two threads take their
steps in any order.  `metered` says what holds throughout: no group is lost and none counts
twice, the rates stand for intervals that follow each other without a gap, each rate answers
one question, and the farm sees the rate of the last interval, or zero.

It may see zero although the miner has just answered: between the test of the flag and the
assignment of zero the miner can store its rate, which is then lost.  The rate of the last
interval is certain only as long as the farm has never asked in vain.
-/

namespace FpgaEthash
namespace Ethcore

open Runs

/-- A rate that has been stored: `groups` of `groupSize` hashes each, from `since` to `till`,
in nanoseconds of the steady clock. -/
structure Publication where
  groups : BitVec 64
  groupSize : BitVec 32
  since : ℕ
  till : ℕ
  deriving DecidableEq, Repr

namespace Publication

/-- `m_groupCount * _groupSize`. -/
def hashes (p : Publication) : BitVec 64 := p.groups * p.groupSize.setWidth 64

/-- `duration_cast<microseconds>`. -/
def us (p : Publication) : ℕ := (p.till - p.since) / 1000

/-- `us ? (float(hashes) * 1.0e6f) / us : 0.0f`, where `perSecond` stands for the quotient. -/
def rate {ρ : Type} [Zero ρ] (perSecond : BitVec 64 → ℕ → ρ) (p : Publication) : ρ :=
  if p.us = 0 then 0 else perSecond p.hashes p.us

/-- The intervals follow each other from one time to another. -/
def Consecutive : ℕ → List Publication → ℕ → Prop
  | start, [], stop => start = stop
  | start, p :: ps, stop => p.since = start ∧ p.since ≤ p.till ∧ Consecutive p.till ps stop

theorem Consecutive.concat {ps : List Publication} {start stop : ℕ}
    (h : Consecutive start ps stop) {p : Publication} (hsince : p.since = stop)
    (hle : p.since ≤ p.till) : Consecutive start (ps ++ [p]) p.till := by
  induction ps generalizing start with
  | nil =>
    obtain rfl : start = stop := h
    exact ⟨hsince, hle, rfl⟩
  | cons q ps ih => exact ⟨h.1, h.2.1, ih h.2.2⟩

end Publication

/-- Where the miner's thread is in `updateHashRate`: not in it, after the increment, after
the exchange, after the clock has been read, or after the rate has been stored. -/
inductive Updating where
  | outside
  | counted (groupSize : BitVec 32)
  | answering (groupSize : BitVec 32)
  | timed (groupSize : BitVec 32) (since : ℕ)
  | stored
  deriving DecidableEq, Repr

/-- The members of `Miner` that the two functions use, with the place of the miner's thread;
`late` says that the farm has found the flag set and is to store zero.  The last four fields
record what has happened. -/
structure HashMeter (ρ : Type) where
  hashTime : ℕ
  hashRate : ρ
  groupCount : BitVec 64 := 0
  hashRateUpdate : Bool := false
  updating : Updating := .outside
  late : Bool := false
  counted : ℕ := 0
  triggered : ℕ := 0
  missed : ℕ := 0
  published : List Publication := []

namespace HashMeter

variable {ρ : Type} [Zero ρ]

/-- The steps of `updateHashRate`, up to `reset`, and those of `TriggerHashRateUpdate`. -/
inductive Step where
  | count (groupSize increment : BitVec 32)
  | exchange
  | readClock (elapsed : ℕ)
  | store
  | reset
  | trigger
  | clear
  deriving DecidableEq, Repr

/-- A miner at its construction. -/
def new (now : ℕ) : HashMeter ρ := { hashTime := now, hashRate := 0 }

/-- What `store` publishes. -/
def publication (s : HashMeter ρ) (groupSize : BitVec 32) (since : ℕ) : Publication :=
  ⟨s.groupCount, groupSize, since, s.hashTime⟩

/-- One step; `none` if the thread it belongs to is somewhere else. -/
def step (perSecond : BitVec 64 → ℕ → ρ) (s : HashMeter ρ) : Step → Option (HashMeter ρ)
  | .count groupSize increment =>
    match s.updating with
    | .outside => some
        { s with
          groupCount := s.groupCount + increment.setWidth 64
          updating := .counted groupSize
          counted := s.counted + increment.toNat }
    | _ => none
  | .exchange =>
    match s.updating with
    | .counted groupSize =>
      if s.hashRateUpdate then
        some { s with hashRateUpdate := false, updating := .answering groupSize }
      else some { s with updating := .outside }
    | _ => none
  | .readClock elapsed =>
    match s.updating with
    | .answering groupSize => some
        { s with
          hashTime := s.hashTime + elapsed
          updating := .timed groupSize s.hashTime }
    | _ => none
  | .store =>
    match s.updating with
    | .timed groupSize since => some
        { s with
          hashRate := (s.publication groupSize since).rate perSecond
          updating := .stored
          published := s.published ++ [s.publication groupSize since] }
    | _ => none
  | .reset =>
    match s.updating with
    | .stored => some { s with groupCount := 0, updating := .outside }
    | _ => none
  | .trigger =>
    if s.late then none
    else if s.hashRateUpdate then some { s with late := true, missed := s.missed + 1 }
    else some { s with hashRateUpdate := true, triggered := s.triggered + 1 }
  | .clear => if s.late then some { s with hashRate := 0, late := false } else none

/-! ## What holds throughout -/

/-- The groups that have been counted and not yet published. -/
def unpublished (s : HashMeter ρ) : BitVec 64 :=
  match s.updating with
  | .stored => 0
  | _ => s.groupCount

/-- The end of the last interval. -/
def publishedTill (s : HashMeter ρ) : ℕ :=
  match s.updating with
  | .timed _ since => since
  | _ => s.hashTime

/-- A question has been taken up, and its answer is not yet stored. -/
def owed (s : HashMeter ρ) : ℕ :=
  match s.updating with
  | .answering _ => 1
  | .timed _ _ => 1
  | _ => 0

/-- The rate of the last interval. -/
def lastRate (perSecond : BitVec 64 → ℕ → ρ) (s : HashMeter ρ) : ρ :=
  s.published.getLast?.elim 0 (Publication.rate perSecond)

/-- The bookkeeping of a miner that was constructed at `start`. -/
structure Metered (perSecond : BitVec 64 → ℕ → ρ) (start : ℕ) (s : HashMeter ρ) : Prop where
  groups : (s.published.map fun p => p.groups.toNat).sum + s.unpublished.toNat ≡ s.counted
    [MOD 2 ^ 64]
  consecutive : Publication.Consecutive start s.published s.publishedTill
  clock : s.publishedTill ≤ s.hashTime
  answered : s.triggered = s.published.length + s.owed + s.hashRateUpdate.toNat
  shown : s.hashRate = 0 ∨ s.hashRate = s.lastRate perSecond
  fresh : s.missed = 0 → s.late = false ∧ s.hashRate = s.lastRate perSecond

section Steps

variable {perSecond : BitVec 64 → ℕ → ρ} {start : ℕ} {s t : HashMeter ρ}

theorem lastRate_concat (s : HashMeter ρ) (p : Publication) :
    lastRate perSecond { s with published := s.published ++ [p] } = p.rate perSecond := by
  unfold lastRate
  rw [List.getLast?_concat]
  rfl

/-- The increment: the groups are unpublished. -/
theorem Metered.count (h : Metered perSecond start s) {groupSize increment : BitVec 32}
    (ht : s.step perSecond (.count groupSize increment) = some t) :
    Metered perSecond start t := by
  obtain ⟨hgroups, hconsecutive, hclock, hanswered, hshown, hfresh⟩ := h
  simp only [step] at ht
  split at ht
  · next houtside =>
      obtain rfl := Option.some.inj ht
      simp only [unpublished, publishedTill, owed, houtside]
        at hgroups hconsecutive hclock hanswered
      refine ⟨?_, hconsecutive, hclock, hanswered, hshown, hfresh⟩
      have hadd : (s.groupCount + increment.setWidth 64).toNat ≡
          s.groupCount.toNat + increment.toNat [MOD 2 ^ 64] := by
        rw [BitVec.toNat_add, BitVec.toNat_setWidth]
        exact (Nat.mod_modEq _ _).trans ((Nat.ModEq.refl _).add (Nat.mod_modEq _ _))
      refine ((Nat.ModEq.refl _).add hadd).trans ?_
      rw [← Nat.add_assoc]
      exact hgroups.add_right _
  · cases ht

/-- The exchange on the miner's side: the question is taken up. -/
theorem Metered.exchange (h : Metered perSecond start s)
    (ht : s.step perSecond .exchange = some t) : Metered perSecond start t := by
  obtain ⟨hgroups, hconsecutive, hclock, hanswered, hshown, hfresh⟩ := h
  simp only [step] at ht
  split at ht
  · next groupSize hcounted =>
      simp only [unpublished, publishedTill, owed, hcounted]
        at hgroups hconsecutive hclock hanswered
      split_ifs at ht with hflag
      · obtain rfl := Option.some.inj ht
        rw [hflag] at hanswered
        exact ⟨hgroups, hconsecutive, hclock, hanswered, hshown, hfresh⟩
      · obtain rfl := Option.some.inj ht
        exact ⟨hgroups, hconsecutive, hclock, hanswered, hshown, hfresh⟩
  · cases ht

theorem Metered.readClock (h : Metered perSecond start s) {elapsed : ℕ}
    (ht : s.step perSecond (.readClock elapsed) = some t) : Metered perSecond start t := by
  obtain ⟨hgroups, hconsecutive, hclock, hanswered, hshown, hfresh⟩ := h
  simp only [step] at ht
  split at ht
  · next groupSize hanswering =>
      obtain rfl := Option.some.inj ht
      simp only [unpublished, publishedTill, owed, hanswering] at hgroups hconsecutive hanswered
      exact ⟨hgroups, hconsecutive, Nat.le_add_right _ _, hanswered, hshown, hfresh⟩
  · cases ht

/-- The store: all that was unpublished is published, with the interval up to now. -/
theorem Metered.store (h : Metered perSecond start s) (ht : s.step perSecond .store = some t) :
    Metered perSecond start t := by
  obtain ⟨hgroups, hconsecutive, hclock, hanswered, hshown, hfresh⟩ := h
  simp only [step] at ht
  split at ht
  · next groupSize since htimed =>
      obtain rfl := Option.some.inj ht
      simp only [unpublished, publishedTill, owed, htimed] at hgroups hconsecutive hclock hanswered
      refine ⟨?_, hconsecutive.concat rfl hclock, le_refl _, ?_,
        .inr (lastRate_concat s _).symm, fun hmissed => ⟨(hfresh hmissed).1,
          (lastRate_concat s _).symm⟩⟩
      · rw [List.map_append, List.sum_append]
        exact hgroups
      · rw [List.length_append, hanswered]
        rfl
  · cases ht

theorem Metered.reset (h : Metered perSecond start s) (ht : s.step perSecond .reset = some t) :
    Metered perSecond start t := by
  obtain ⟨hgroups, hconsecutive, hclock, hanswered, hshown, hfresh⟩ := h
  simp only [step] at ht
  split at ht
  · next hstored =>
      obtain rfl := Option.some.inj ht
      simp only [unpublished, publishedTill, owed, hstored] at hgroups hconsecutive hanswered
      exact ⟨hgroups, hconsecutive, le_refl _, hanswered, hshown, hfresh⟩
  · cases ht

/-- The exchange on the farm's side. -/
theorem Metered.trigger (h : Metered perSecond start s)
    (ht : s.step perSecond .trigger = some t) : Metered perSecond start t := by
  obtain ⟨hgroups, hconsecutive, hclock, hanswered, hshown, hfresh⟩ := h
  simp only [step] at ht
  split_ifs at ht with hlate hflag
  · obtain rfl := Option.some.inj ht
    exact ⟨hgroups, hconsecutive, hclock, hanswered, hshown,
      fun hmissed => absurd hmissed (Nat.succ_ne_zero _)⟩
  · obtain rfl := Option.some.inj ht
    rw [Bool.eq_false_iff.mpr hflag] at hanswered
    exact ⟨hgroups, hconsecutive, hclock, congrArg (· + 1) hanswered, hshown, hfresh⟩

theorem Metered.clear (h : Metered perSecond start s) (ht : s.step perSecond .clear = some t) :
    Metered perSecond start t := by
  obtain ⟨hgroups, hconsecutive, hclock, hanswered, -, hfresh⟩ := h
  simp only [step] at ht
  split_ifs at ht with hlate
  obtain rfl := Option.some.inj ht
  refine ⟨hgroups, hconsecutive, hclock, hanswered, .inl rfl, fun hmissed => ?_⟩
  exact nomatch hlate.symm.trans (hfresh hmissed).1

end Steps

/-- **The hash rate adds up.**  Whatever the order in which the miner's thread and the farm
take their steps: the groups of the published rates and those not yet published are the
groups that were counted; the intervals of the published rates follow each other without a
gap from the construction of the miner; every rate answers one question of the farm, and at
most two questions are open, one that the miner has taken up and one that it has not; and the
farm reads the rate of the last interval or zero, and that rate if it has never asked in
vain. -/
theorem metered (perSecond : BitVec 64 → ℕ → ρ) (now : ℕ) (es : List Step) :
    Along (step perSecond) (Metered perSecond now) (new now) es := by
  refine along_of_invariant (fun s e t h ht => ?_) es _
    ⟨.refl _, rfl, le_refl _, rfl, .inl rfl, fun _ => ⟨rfl, rfl⟩⟩
  cases e with
  | count groupSize increment => exact h.count ht
  | exchange => exact h.exchange ht
  | readClock elapsed => exact h.readClock ht
  | store => exact h.store ht
  | reset => exact h.reset ht
  | trigger => exact h.trigger ht
  | clear => exact h.clear ht

/-- The farm asks again while the miner is about to answer, and its zero replaces the rate. -/
example : (run (step fun hashes us => hashes.toNat * 1000000 / us) (new 0)
    [.trigger, .count 128 4, .trigger, .exchange, .readClock 1000000, .store, .clear]).map
      (fun s => (s.hashRate, s.published)) = some (0, [⟨4, 128, 0, 1000000⟩]) := by
  decide

end HashMeter
end Ethcore
end FpgaEthash
