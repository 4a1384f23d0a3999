import FpgaEthash.Computation.Runs
import Mathlib.Algebra.Group.Nat.Defs
import Mathlib.Data.Int.Basic
import Mathlib.Tactic.Common

/-!
# Response pleas of the stratum client

`EthStratumClient` remembers the requests it still waits for in three members: a
counter `m_response_pleas_count`, a queue of time stamps `m_response_plea_times`,
and the cached time stamp `m_response_plea_older` that the watchdog compares with
the clock.  `enqueue_response_plea`, `dequeue_response_plea` and
`clear_response_pleas` are the only functions that touch them.

What the members are for is said by one list, `Tracked.outstanding`: the time
stamps of the requests not answered yet, oldest first.  `InStep` says that the
counter and the cache agree with that list, `RepliesRight` that a reply is charged
the age of the oldest request.

## Where the cache goes stale

`dequeue_response_plea` stores the time stamp it has just *removed* into the cache,
where the next one in the queue belongs.  With one request in flight nobody reads
it.  With two, the cache keeps the time stamp of a request that has been answered.
`inStep_dequeue_iff` finds the exact condition for one step, and
`pleas_inStep_iff` carries it to every run: the members stay in step exactly as
long as no reply arrives while the two oldest requests carry different time
stamps, and the counter, an `int`, is not pushed past `2 ^ 31 - 1`.
-/

namespace FpgaEthash
namespace Stratum

open Runs

/-! ## The members and the functions that change them -/

/-- A `steady_clock` time point, in nanoseconds. -/
abbrev TimePoint := ℤ

/-- `duration_cast<milliseconds>`, which rounds towards zero. -/
def toMilliseconds (d : ℤ) : ℤ := d.tdiv 1000000

/-- The members of `EthStratumClient` that record outstanding requests.  The
counter is a `std::atomic<int>`, whose increments wrap. -/
structure Pleas where
  responsePleasCount : BitVec 32
  responsePleaOlder : TimePoint
  responsePleaTimes : List TimePoint
  deriving DecidableEq, Repr

namespace Pleas

/-- `enqueue_response_plea` at time `now`. -/
def enqueueResponsePlea (p : Pleas) (now : TimePoint) : Pleas where
  responsePleasCount := p.responsePleasCount + 1
  responsePleaOlder := if p.responsePleasCount = 0 then now else p.responsePleaOlder
  responsePleaTimes := p.responsePleaTimes ++ [now]

/-- `m_response_plea_times.pop(response_plea_time)` and the store that follows it:
`pop` hands back the time stamp it removes, and that one goes into the cache. -/
def popPlea (p : Pleas) : Pleas :=
  match p.responsePleaTimes with
  | [] => p
  | t :: ts => { p with responsePleaOlder := t, responsePleaTimes := ts }

/-- `dequeue_response_plea` at time `now`: the delay it returns, and the members
it leaves. -/
def dequeueResponsePlea (p : Pleas) (now : TimePoint) : ℤ × Pleas :=
  if 0 < p.responsePleasCount.toInt then
    (toMilliseconds (now - p.responsePleaOlder),
      { p.popPlea with responsePleasCount := p.responsePleasCount - 1 })
  else
    (0, p.popPlea)

/-- `clear_response_pleas` at time `now`. -/
def clearResponsePleas (_p : Pleas) (now : TimePoint) : Pleas where
  responsePleasCount := 0
  responsePleaOlder := now
  responsePleaTimes := []

end Pleas

/-- The calls that change the members, each with the value of `steady_clock::now()`
it reads. -/
inductive PleaEvent where
  | enqueue (now : TimePoint)
  | dequeue (now : TimePoint)
  | clear (now : TimePoint)
  deriving DecidableEq, Repr

/-! ## The requests that are really outstanding -/

/-- The members beside the list of requests still waiting for a reply, oldest
first. -/
structure Tracked where
  pleas : Pleas
  outstanding : List TimePoint
  deriving DecidableEq, Repr

namespace Tracked

/-- One call.  A reply answers the oldest request; clearing forgets all of them. -/
def step (t : Tracked) : PleaEvent → Tracked
  | .enqueue now => ⟨t.pleas.enqueueResponsePlea now, t.outstanding ++ [now]⟩
  | .dequeue now => ⟨(t.pleas.dequeueResponsePlea now).2, t.outstanding.tail⟩
  | .clear now => ⟨t.pleas.clearResponsePleas now, []⟩

/-- `step` never fails to come back. -/
def step? (t : Tracked) (e : PleaEvent) : Option Tracked := some (t.step e)

/-- A new client: the constructor clears the pleas, so the cache holds the time of
construction. -/
def init (now : TimePoint) : Tracked := ⟨⟨0, now, []⟩, []⟩

/-- The counter is the number of outstanding requests and, while it is positive,
the cache is the time stamp of the oldest of them. -/
def InStep (t : Tracked) : Prop :=
  t.pleas.responsePleasCount.toInt = t.outstanding.length ∧
    (0 < t.pleas.responsePleasCount.toInt →
      t.outstanding.head? = some t.pleas.responsePleaOlder)

/-- A reply that finds a request outstanding is charged the age of the oldest. -/
def RepliesRight (t : Tracked) : PleaEvent → Prop
  | .dequeue now => ∀ p ∈ t.outstanding.head?,
      (t.pleas.dequeueResponsePlea now).1 = toMilliseconds (now - p)
  | _ => True

/-- The calls that keep the members in step.  A reply must find at most one
request, or two oldest ones made at the same instant; a request must leave the
counter below the end of its range. -/
def Keeps (t : Tracked) : PleaEvent → Prop
  | .enqueue _ => t.outstanding.length + 1 < 2 ^ 31
  | .dequeue _ => ∀ p q rest, t.outstanding = p :: q :: rest → p = q
  | .clear _ => True

/-- The queue member holds exactly the outstanding requests. -/
def Mirrors (t : Tracked) : Prop := t.pleas.responsePleaTimes = t.outstanding

end Tracked

open Tracked Pleas

/-! ## One call -/

@[simp] theorem step?_eq_some {t u : Tracked} {e : PleaEvent} :
    t.step? e = some u ↔ t.step e = u := by
  rw [step?, Option.some.injEq]

theorem responsePleaTimes_popPlea (p : Pleas) :
    p.popPlea.responsePleaTimes = p.responsePleaTimes.tail := by
  unfold popPlea
  split
  · next h => rw [h, List.tail_nil]
  · next h => rw [h, List.tail_cons]

theorem popPlea_nil {p : Pleas} (h : p.responsePleaTimes = []) : p.popPlea = p := by
  rw [popPlea, h]

theorem popPlea_cons {p : Pleas} {t : TimePoint} {ts : List TimePoint}
    (h : p.responsePleaTimes = t :: ts) :
    p.popPlea = ⟨p.responsePleasCount, t, ts⟩ := by
  rw [popPlea, h]

/-- **The queue is never out of step**, whatever the order of the calls. -/
theorem mirrors_step {t : Tracked} (h : t.Mirrors) (e : PleaEvent) :
    (t.step e).Mirrors := by
  unfold Mirrors at h ⊢
  cases e with
  | enqueue now => simp only [step, enqueueResponsePlea, h]
  | dequeue now =>
    have hpop : (t.pleas.dequeueResponsePlea now).2.responsePleaTimes =
        t.pleas.responsePleaTimes.tail := by
      rw [dequeueResponsePlea]
      split_ifs
      · exact responsePleaTimes_popPlea t.pleas
      · exact responsePleaTimes_popPlea t.pleas
    rw [step, hpop, h]
  | clear now => rfl

theorem inStep_init (now : TimePoint) : (init now).InStep := by
  refine ⟨rfl, fun h => absurd h ?_⟩
  simp [init]

/-- The counter as a number, one request later. -/
theorem toInt_add_one {c : BitVec 32} {n : ℕ} (h : c.toInt = n) :
    (c + 1).toInt = (n + 1 : ℕ) ↔ n + 1 < 2 ^ 31 := by
  have hn : n < 2 ^ 31 := by
    have := BitVec.toInt_lt (x := c)
    omega
  have hadd := BitVec.toInt_add c 1
  rw [h, show (1 : BitVec 32).toInt = 1 from rfl, Int.bmod_def] at hadd
  split_ifs at hadd <;> omega

/-- The counter as a number, one reply later. -/
theorem toInt_sub_one {c : BitVec 32} {n : ℕ} (h : c.toInt = (n + 1 : ℕ)) :
    (c - 1).toInt = n := by
  have hn : n + 1 < 2 ^ 31 := by
    have := BitVec.toInt_lt (x := c)
    omega
  have hsub := BitVec.toInt_sub (x := c) (y := 1)
  rw [h, show (1 : BitVec 32).toInt = 1 from rfl, Int.bmod_def] at hsub
  split_ifs at hsub <;> omega

theorem eq_zero_iff_of_toInt {c : BitVec 32} {n : ℕ} (h : c.toInt = n) :
    c = 0 ↔ n = 0 := by
  rw [← BitVec.toInt_inj, h]
  simp

/-- A request keeps the members in step unless the counter wraps. -/
theorem inStep_enqueue_iff {t : Tracked} (h : t.InStep) (now : TimePoint) :
    (t.step (.enqueue now)).InStep ↔ t.outstanding.length + 1 < 2 ^ 31 := by
  obtain ⟨hcount, holder⟩ := h
  have hnext := toInt_add_one hcount
  constructor
  · rintro ⟨hc, -⟩
    rw [step, enqueueResponsePlea, List.length_append, List.length_singleton] at hc
    exact hnext.mp hc
  · intro hlt
    refine ⟨?_, fun _ => ?_⟩
    · rw [step, enqueueResponsePlea, List.length_append, List.length_singleton]
      exact hnext.mpr hlt
    · rw [step, enqueueResponsePlea]
      cases hout : t.outstanding with
      | nil =>
        rw [hout] at hcount
        rw [if_pos ((eq_zero_iff_of_toInt hcount).mpr rfl)]
        rfl
      | cons p rest =>
        rw [hout] at hcount holder
        have hpos : 0 < t.pleas.responsePleasCount.toInt := by
          rw [hcount, List.length_cons]
          omega
        have hne : ¬ t.pleas.responsePleasCount = 0 := by
          rw [eq_zero_iff_of_toInt hcount]
          exact Nat.succ_ne_zero _
        rw [if_neg hne]
        exact holder hpos

/-- What a reply leaves when it finds a request: the cache now holds the time
stamp that was removed. -/
theorem step_dequeue_cons {t : Tracked} (hm : t.Mirrors) (h : t.InStep)
    {p : TimePoint} {rest : List TimePoint} (hout : t.outstanding = p :: rest)
    (now : TimePoint) :
    t.step (.dequeue now) =
      ⟨⟨t.pleas.responsePleasCount - 1, p, rest⟩, rest⟩ := by
  have hpos : 0 < t.pleas.responsePleasCount.toInt := by
    rw [h.1, hout, List.length_cons]
    omega
  have htimes : t.pleas.responsePleaTimes = p :: rest := by rw [← hout]; exact hm
  simp only [step, dequeueResponsePlea, popPlea_cons htimes, hout, if_pos hpos,
    List.tail_cons]

theorem step_dequeue_nil {t : Tracked} (hm : t.Mirrors) (h : t.InStep)
    (hout : t.outstanding = []) (now : TimePoint) : t.step (.dequeue now) = t := by
  have hpos : ¬ 0 < t.pleas.responsePleasCount.toInt := by
    rw [h.1, hout]
    decide
  have htimes : t.pleas.responsePleaTimes = [] := by rw [← hout]; exact hm
  obtain ⟨pleas, outstanding⟩ := t
  simp only at hout htimes hpos
  subst hout
  simp only [step, dequeueResponsePlea, popPlea_nil htimes, if_neg hpos, List.tail_nil]

/-- **A reply keeps the members in step exactly when** it finds at most one
request, or the two oldest were made at the same instant. -/
theorem inStep_dequeue_iff {t : Tracked} (hm : t.Mirrors) (h : t.InStep)
    (now : TimePoint) :
    (t.step (.dequeue now)).InStep ↔
      ∀ p q rest, t.outstanding = p :: q :: rest → p = q := by
  cases hout : t.outstanding with
  | nil =>
    rw [step_dequeue_nil hm h hout]
    exact ⟨fun _ p q rest hnil => absurd hnil (by simp), fun _ => h⟩
  | cons p rest =>
    have hcount : (t.pleas.responsePleasCount - 1).toInt = rest.length := by
      apply toInt_sub_one
      rw [h.1, hout, List.length_cons]
    rw [step_dequeue_cons hm h hout]
    constructor
    · rintro ⟨-, holder⟩ p' q' rest' heq
      obtain ⟨rfl, rfl⟩ := List.cons.inj heq
      have hpos : 0 < (t.pleas.responsePleasCount - 1).toInt := by
        rw [hcount, List.length_cons]
        omega
      exact (Option.some.inj (holder hpos)).symm
    · intro heq
      refine ⟨hcount, fun hpos => ?_⟩
      cases rest with
      | nil =>
        rw [hcount] at hpos
        exact absurd hpos (by simp)
      | cons q rest' => rw [List.head?_cons, heq p q rest' rfl]

theorem inStep_clear (t : Tracked) (now : TimePoint) :
    (t.step (.clear now)).InStep := by
  refine ⟨rfl, fun h => absurd h ?_⟩
  simp [step, clearResponsePleas]

/-- One call keeps the members in step exactly when `Keeps` holds before it. -/
theorem inStep_step_iff {t : Tracked} (hm : t.Mirrors) (h : t.InStep)
    (e : PleaEvent) : (t.step e).InStep ↔ t.Keeps e := by
  cases e with
  | enqueue now => exact inStep_enqueue_iff h now
  | dequeue now => exact inStep_dequeue_iff hm h now
  | clear now => exact ⟨fun _ => trivial, fun _ => inStep_clear t now⟩

/-- While the members are in step, replies are charged the right age. -/
theorem repliesRight_of_inStep {t : Tracked} (h : t.InStep) (e : PleaEvent) :
    t.RepliesRight e := by
  cases e with
  | dequeue now =>
    intro p hp
    have hpos : 0 < t.pleas.responsePleasCount.toInt := by
      rw [h.1]
      cases hout : t.outstanding with
      | nil =>
        rw [hout] at hp
        exact absurd hp (by simp)
      | cons q rest =>
        rw [List.length_cons]
        omega
    have hp' : p = t.pleas.responsePleaOlder :=
      Option.some.inj ((Option.mem_def.mp hp).symm.trans (h.2 hpos))
    rw [dequeueResponsePlea, if_pos hpos, hp']
  | enqueue now => trivial
  | clear now => trivial

/-! ## Whole runs -/

/-- **The pleas, over every run.**  From a new client, and for every sequence of
calls: the counter and the cache are in step in every state, and every reply is
charged the age of the oldest request, exactly when every call is one that
`Keeps` admits. -/
theorem pleas_inStep_iff (start : TimePoint) (es : List PleaEvent) :
    (Along step? InStep (init start) es ∧
        StepsMeet step? RepliesRight (init start) es) ↔
      StepsMeet step? Keeps (init start) es := by
  have hexact : Along step? InStep (init start) es ↔
      StepsMeet step? Keeps (init start) es := by
    refine along_iff_stepsMeet (I := Mirrors) ?_ ?_ es (init start) rfl
      (inStep_init start)
    · intro t e u hm hstep
      rw [step?_eq_some] at hstep
      rw [← hstep]
      exact mirrors_step hm e
    · intro t e u hm h hstep
      rw [step?_eq_some] at hstep
      rw [← hstep]
      exact inStep_step_iff hm h e
  rw [← hexact]
  constructor
  · exact And.left
  · intro h
    exact ⟨h, stepsMeet_of_along (fun t e ht => repliesRight_of_inStep ht e) es _ h⟩

/-- Two requests, one second apart, and a reply to the first: the cache still
names the request that was answered. -/
theorem pleas_stale_after_two_requests :
    ¬ Along step? InStep (init 0)
      [.enqueue 1000000000, .enqueue 2000000000, .dequeue 3000000000] := by
  intro h
  have hend := h.of_run (t := ⟨⟨1, 1000000000, [2000000000]⟩, [2000000000]⟩) (by decide)
  have hhead := hend.2 (by decide)
  exact absurd hhead (by decide)

end Stratum
end FpgaEthash
