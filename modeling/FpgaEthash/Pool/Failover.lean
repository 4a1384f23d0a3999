import FpgaEthash.Pool.Connections

/-!
# Failover

Three things about the manager that chooses the connection.

* `failover_order`: connections that all fail are tried in turn, each as often as the
  settings say, round after round; a single one is given up after its attempts.
* `active_index`: whatever the timers, the clients and the API do, the active index is a
  position of the list, and a request to remove a connection removes that one and leaves
  the active one alone.
* `unmarked_iff`: when connections marked as unrecoverable are tried again.

The first part of `rotateConnect` looks at one connection, the active one.  If that one
is unrecoverable, or its attempts are used up, the connection after it is the active one
from then on (`select_spec` says so for both cases at once), and that one is tried
without being looked at.
-/

namespace FpgaEthash
namespace Pool
namespace Connections

open Devcore Ethcore Cursor Runs

variable {κ : Type} {s t : Connections κ} {c : κ}

/-- The active index is a position of the list, or the first one that a list can have. -/
def Within (s : Connections κ) : Prop :=
  s.activeConnectionIdx = 0 ∨ s.activeConnectionIdx < s.connections.length

theorem Within.lt (h : s.Within) (hne : s.connections ≠ []) :
    s.activeConnectionIdx < s.connections.length := by
  rcases h with hzero | hlt
  · rw [hzero]
    exact List.length_pos_iff.mpr hne
  · exact hlt

theorem within_wrap {i : ℕ} (h : s.activeConnectionIdx = wrap s.connections.length i) :
    s.Within := by
  rw [Within, h, wrap]
  split_ifs with hle
  · exact Or.inl rfl
  · exact Or.inr (Nat.lt_of_not_le hle)

/-! ## What `rotateConnect` does -/

theorem active_eq_ok : s.active = .ok c ↔ s.connections[s.activeConnectionIdx]? = some c := by
  unfold active
  cases s.connections[s.activeConnectionIdx]? with
  | none => simp
  | some d => simp

/-- The position that `rotateConnect` looks at. -/
def position (s : Connections κ) : ℕ := wrap s.connections.length s.activeConnectionIdx

theorem position_lt (hne : s.connections ≠ []) : s.position < s.connections.length :=
  wrap_lt (List.length_pos_iff.mpr hne) _

theorem exists_at_position (hne : s.connections ≠ []) :
    ∃ c, s.connections[s.position]? = some c :=
  ⟨_, List.getElem?_eq_getElem (position_lt hne)⟩

/-- The only connection is the one that `rotateConnect` looks at. -/
theorem eraseIdx_position (hone : s.connections.length = 1) :
    s.connections.eraseIdx s.position = [] := by
  have hlt := position_lt (List.ne_nil_of_length_pos (lt_of_lt_of_eq one_pos hone.symm))
  have hzero : s.position = 0 := Nat.lt_one_iff.mp (lt_of_lt_of_eq hlt hone)
  exact List.eraseIdx_eq_nil_iff.mpr (Or.inr ⟨hone, hzero⟩)

/-- The connection is left: it is unrecoverable, or its attempts are used up. -/
def MovesOn (s : Connections κ) (c : κ) : Prop :=
  s.unrecoverable c = true ∨ s.connectionMaxRetries ≤ s.connectionAttempt

instance (s : Connections κ) (c : κ) : Decidable (s.MovesOn c) :=
  inferInstanceAs (Decidable (_ ∨ _))

/-- The connection after the one at `position`, in the order of the list. -/
def following (s : Connections κ) : Option κ :=
  if s.connections.length = 1 then none
  else s.connections[(s.position + 1) % s.connections.length]?

/-- The first part of `rotateConnect`, once the entry it looks at is known. -/
theorem select_eq (hc : s.connections[s.position]? = some c) :
    s.select = .ok
      (if s.unrecoverable c then { s with activeConnectionIdx := s.position }.discardActive
      else if s.connectionMaxRetries ≤ s.connectionAttempt then
        { s with activeConnectionIdx := s.position }.rotate
      else { s with activeConnectionIdx := s.position }) := by
  have hactive : { s with activeConnectionIdx := s.position }.active = .ok c :=
    active_eq_ok.mpr hc
  show ({ s with activeConnectionIdx := s.position }.active >>= _) = _
  rw [hactive]
  show (if s.unrecoverable c = true then _ else _ : Except OutOfRange (Connections κ)) = _
  split_ifs <;> rfl

/-- What `select` leaves: the index is a position of the list, and the connection there
is the one looked at, or the following one if that one is left. -/
structure Selected (s t : Connections κ) (c : κ) : Prop where
  within : t.Within
  active : t.connections[t.activeConnectionIdx]? =
    if s.MovesOn c then s.following else some c
  unrecoverable : t.unrecoverable = s.unrecoverable
  attempts : t.attempts = s.attempts

theorem selected_discardActive (hc : s.connections[s.position]? = some c)
    (hmark : s.unrecoverable c = true) :
    Selected s { s with activeConnectionIdx := s.position }.discardActive c := by
  have hlt : s.position < s.connections.length := (List.getElem?_eq_some_iff.mp hc).1
  have hmoves : s.MovesOn c := Or.inl hmark
  refine ⟨within_wrap rfl, ?_, rfl, rfl⟩
  rw [if_pos hmoves, following]
  split_ifs with hone
  · show (s.connections.eraseIdx s.position)[_]? = none
    rw [eraseIdx_position hone, List.getElem?_nil]
  · have hmany : 1 < s.connections.length := by omega
    exact getElem?_eraseIdx_wrap hlt hmany

theorem selected_rotate (hc : s.connections[s.position]? = some c)
    (hmax : s.connectionMaxRetries ≤ s.connectionAttempt) :
    Selected s { s with activeConnectionIdx := s.position }.rotate c := by
  have hlt : s.position < s.connections.length := (List.getElem?_eq_some_iff.mp hc).1
  have hmoves : s.MovesOn c := Or.inr hmax
  unfold rotate
  split_ifs with hone
  · have hzero : s.position = 0 := Nat.lt_one_iff.mp (lt_of_lt_of_eq hlt hone)
    refine ⟨Or.inl hzero, ?_, rfl, rfl⟩
    rw [if_pos hmoves, following, if_pos hone]
    have hnil : s.connections.eraseIdx s.position = [] := eraseIdx_position hone
    show (s.connections.eraseIdx s.position)[_]? = none
    rw [hnil, List.getElem?_nil]
  · refine ⟨within_wrap rfl, ?_, rfl, rfl⟩
    rw [if_pos hmoves, following, if_neg hone]
    show s.connections[wrap s.connections.length (s.position + 1)]? = _
    rw [wrap_succ hlt]

/-- **Which connection `rotateConnect` goes to.** -/
theorem select_spec (hc : s.connections[s.position]? = some c) :
    ∃ t, s.select = .ok t ∧ Selected s t c := by
  refine ⟨_, select_eq hc, ?_⟩
  split_ifs with hmark hmax
  · exact selected_discardActive hc hmark
  · exact selected_rotate hc hmax
  · have hstays : ¬ s.MovesOn c := fun h => h.elim hmark hmax
    refine ⟨Or.inr (List.getElem?_eq_some_iff.mp hc).1, ?_, rfl, rfl⟩
    rw [if_neg hstays]
    exact hc

variable (address : κ → Address)

/-- The connection that `rotateConnect` tries, if there is one and it is not `exit`. -/
def target (s : Connections κ) (c : κ) : Option κ :=
  (if s.MovesOn c then s.following else some c).filter
    fun d => (address d).host != exitHost

/-- The second part of `rotateConnect`, from a position of the list. -/
theorem connectActive_spec (hwithin : t.Within) :
    ∃ u, t.connectActive address = .ok u ∧ u.Within ∧
      u.attempts = t.attempts ++ ((t.connections[t.activeConnectionIdx]?.filter
        fun d => (address d).host != exitHost).toList.map
          fun d => ⟨d, t.unrecoverable d⟩) := by
  unfold connectActive
  split_ifs with hnil
  · refine ⟨_, rfl, hwithin, ?_⟩
    rw [hnil, List.getElem?_nil]
    simp [giveUp]
  · obtain ⟨c, hat⟩ : ∃ c, t.connections[t.activeConnectionIdx]? = some c :=
      ⟨_, List.getElem?_eq_getElem (hwithin.lt hnil)⟩
    rw [active_eq_ok.mpr hat, hat]
    by_cases hexit : (address c).host = exitHost
    · refine ⟨t.giveUp, ?_, hwithin, ?_⟩
      · exact if_neg (not_not.mpr hexit)
      · simp [giveUp, Option.filter, hexit]
    · refine ⟨t.connect c, ?_, hwithin, ?_⟩
      · exact if_pos hexit
      · simp [connect, Option.filter, hexit]

/-- **What `rotateConnect` does** when it finds no client connected and the list not
empty: it comes back, and it starts at most one attempt. -/
theorem rotateConnect_spec (hlink : s.isConnected = false)
    (hc : s.connections[s.position]? = some c) :
    ∃ t, s.rotateConnect address = .ok t ∧ t.Within ∧
      t.attempts = s.attempts ++ (s.target address c).toList.map
        fun d => ⟨d, s.unrecoverable d⟩ := by
  obtain ⟨t, hselect, hselected⟩ := select_spec hc
  obtain ⟨u, hconnect, hwithin, hattempts⟩ := connectActive_spec address hselected.within
  refine ⟨u, ?_, hwithin, ?_⟩
  · rw [rotateConnect, hlink, if_neg Bool.false_ne_true, hselect]
    exact hconnect
  · rw [hattempts, hselected.attempts, hselected.active, hselected.unrecoverable]
    rfl

theorem rotateConnect_of_isConnected (hlink : s.isConnected = true) :
    s.rotateConnect address = .ok s := by
  rw [rotateConnect, hlink, if_pos rfl]
  rfl

/-- Only an empty list makes `at` throw. -/
theorem exists_rotateConnect (hne : s.connections ≠ []) :
    ∃ t, s.rotateConnect address = .ok t := by
  cases hlink : s.isConnected with
  | true => exact ⟨s, rotateConnect_of_isConnected address hlink⟩
  | false =>
    obtain ⟨c, hc⟩ := exists_at_position hne
    obtain ⟨t, ht, -⟩ := rotateConnect_spec address hlink hc
    exact ⟨t, ht⟩

theorem rotateConnect_of_nil (hlink : s.isConnected = false) (hnil : s.connections = []) :
    s.rotateConnect address = .error .outOfRange := by
  have hselect : s.select = .error .outOfRange := by
    unfold select active
    simp only [hnil, List.getElem?_nil]
    rfl
  rw [rotateConnect, hlink, if_neg Bool.false_ne_true, hselect]
  rfl

/-- **`rotateConnect`, taken apart**: a client is connected and nothing happens, or the
list has an entry at the position it looks at, and what `rotateConnect_spec` says. -/
theorem rotateConnect_cases (h : (s.rotateConnect address).toOption = some t) :
    s.isConnected = true ∧ t = s ∨
      s.isConnected = false ∧ ∃ c, s.connections[s.position]? = some c ∧ t.Within ∧
        t.attempts = s.attempts ++ (s.target address c).toList.map
          fun d => ⟨d, s.unrecoverable d⟩ := by
  cases hlink : s.isConnected with
  | true =>
    rw [rotateConnect_of_isConnected address hlink] at h
    exact Or.inl ⟨rfl, (Option.some.inj h).symm⟩
  | false =>
    refine Or.inr ⟨rfl, ?_⟩
    by_cases hnil : s.connections = []
    · rw [rotateConnect_of_nil address hlink hnil] at h
      cases h
    · obtain ⟨c, hc⟩ := exists_at_position hnil
      obtain ⟨u, hu, hwithin, hattempts⟩ := rotateConnect_spec address hlink hc
      rw [hu] at h
      obtain rfl := Option.some.inj h
      exact ⟨c, hc, hwithin, hattempts⟩

/-! ## Connections that all fail -/

/-- What the manager is like before call `k` of `rotateConnect`, if every attempt so far
has failed and no connection is marked.  The calls go round the list `l`, with `r` calls
for each connection. -/
structure Turned (l : List κ) (r k : ℕ) (s : Connections κ) : Prop where
  connections : s.connections = l
  maxRetries : s.connectionMaxRetries = r
  unmarked : ∀ c, s.unrecoverable c = false
  counters : k = 0 ∧ s.activeConnectionIdx = 0 ∧ s.connectionAttempt = 0 ∨
    ∃ j, k = j + 1 ∧ s.activeConnectionIdx = j / r % l.length ∧
      s.connectionAttempt = j % r + 1
  attempts : s.attempts.map (fun a => some a.conn) =
    (List.range k).map fun j => l[j / r % l.length]?

variable {l : List κ} {r k : ℕ}

theorem Turned.position_eq (h : Turned l r k s) (hl : l ≠ []) :
    s.position = s.activeConnectionIdx := by
  refine wrap_of_lt ?_
  have hpos := List.length_pos_iff.mpr hl
  rw [h.connections]
  rcases h.counters with ⟨-, hidx, -⟩ | ⟨j, -, hidx, -⟩
  · rw [hidx]
    exact hpos
  · rw [hidx]
    exact Nat.mod_lt _ hpos

/-- The first part of call `k`: the connection is that of the round, and its attempts are
counted within the round. -/
theorem Turned.select (h : Turned l r k s) (hl : l ≠ []) (hr : 1 ≤ r)
    (hmany : 2 ≤ l.length ∨ k < r) :
    ∃ t, s.select = .ok t ∧ t.connections = l ∧ t.connectionMaxRetries = r ∧
      (∀ c, t.unrecoverable c = false) ∧ t.activeConnectionIdx = k / r % l.length ∧
      t.connectionAttempt = k % r ∧ t.attempts = s.attempts := by
  have hnonempty : s.connections ≠ [] := by
    rw [h.connections]
    exact hl
  have hposition := h.position_eq hl
  obtain ⟨c, hc⟩ := exists_at_position hnonempty
  have hselect := select_eq hc
  rw [h.unmarked c, if_neg Bool.false_ne_true, h.maxRetries, hposition] at hselect
  rcases h.counters with ⟨rfl, hidx, hattempt⟩ | ⟨j, rfl, hidx, hattempt⟩
  · -- the first call
    rw [if_neg (by omega)] at hselect
    refine ⟨_, hselect, h.connections, rfl, h.unmarked, ?_, ?_, rfl⟩
    · rw [Nat.zero_div, Nat.zero_mod]
      exact hidx
    · rw [Nat.zero_mod]
      exact hattempt
  · have hlt : j % r < r := Nat.mod_lt j (by omega)
    by_cases hround : j % r + 1 = r
    · -- the attempts are used up; a single connection is not tried that often
      obtain ⟨hdiv, hmod⟩ := succ_div_mod_of_eq hround
      have htwo : 2 ≤ l.length := by
        refine hmany.resolve_right fun hk => ?_
        rw [Nat.mod_eq_of_lt (by omega)] at hround
        omega
      rw [if_pos (by omega)] at hselect
      refine ⟨_, hselect, ?_⟩
      have hone : s.connections.length ≠ 1 := by
        rw [h.connections]
        omega
      rw [rotate, if_neg hone]
      refine ⟨h.connections, rfl, h.unmarked, ?_, hmod.symm, rfl⟩
      show wrap s.connections.length (s.activeConnectionIdx + 1) = _
      rw [h.connections, hidx, wrap_succ (Nat.mod_lt _ (by omega)), hdiv, Nat.mod_add_mod]
    · obtain ⟨hdiv, hmod⟩ := succ_div_mod_of_lt (lt_of_le_of_ne hlt hround)
      rw [if_neg (by omega)] at hselect
      refine ⟨_, hselect, h.connections, rfl, h.unmarked, ?_, ?_, rfl⟩
      · rw [hdiv]
        exact hidx
      · rw [hmod]
        exact hattempt

/-- Call `k`: the connection of the round is tried. -/
theorem Turned.rotateConnect (h : Turned l r k s) (hl : l ≠ []) (hr : 1 ≤ r)
    (hmany : 2 ≤ l.length ∨ k < r) (hexit : ∀ c ∈ l, (address c).host ≠ exitHost)
    (hlink : s.isConnected = false) :
    ∃ t, s.rotateConnect address = .ok t ∧ Turned l r (k + 1) t := by
  obtain ⟨t, hselect, hlist, hmax, hmarks, hidx, hattempt, hattempts⟩ := h.select hl hr hmany
  have hlt : k / r % l.length < l.length := Nat.mod_lt _ (List.length_pos_iff.mpr hl)
  have hat : t.connections[t.activeConnectionIdx]? = some (l.get ⟨_, hlt⟩) := by
    rw [hlist, hidx]
    exact List.getElem?_eq_getElem hlt
  have hconnect : t.connectActive address = .ok (t.connect (l.get ⟨_, hlt⟩)) := by
    rw [connectActive, if_neg (by rw [hlist]; exact hl), active_eq_ok.mpr hat]
    exact if_pos (hexit _ (List.get_mem l ⟨_, hlt⟩))
  refine ⟨t.connect (l.get ⟨_, hlt⟩), ?_, hlist, hmax, hmarks, Or.inr ⟨k, rfl, hidx, ?_⟩, ?_⟩
  · rw [Connections.rotateConnect, hlink, if_neg Bool.false_ne_true, hselect]
    exact hconnect
  · show t.connectionAttempt + 1 = _
    rw [hattempt]
  · show (t.attempts ++ [_]).map _ = _
    rw [List.map_append, hattempts, h.attempts, List.range_succ, List.map_append]
    simp [List.getElem?_eq_getElem hlt]

/-- The call after the last attempt at the only connection: nothing is left to try. -/
theorem Turned.rotateConnect_single (h : Turned l r r s) (hone : l.length = 1) (hr : 1 ≤ r)
    (hlink : s.isConnected = false) :
    ∃ t, s.rotateConnect address = .ok t ∧ t.connections = [] ∧ t.farm.isMining = false ∧
      t.running = false ∧ t.sigterm = true ∧ t.attempts = s.attempts := by
  have hl : l ≠ [] := List.ne_nil_of_length_pos (by omega)
  have hattempt : r ≤ s.connectionAttempt := by
    rcases h.counters with ⟨hzero, -, -⟩ | ⟨j, hj, -, hattempt⟩
    · omega
    · rw [hattempt, Nat.mod_eq_of_lt (by omega)]
      omega
  have hlength : s.connections.length = 1 := by
    rw [h.connections, hone]
  obtain ⟨c, hc⟩ := exists_at_position (h.connections ▸ hl : s.connections ≠ [])
  have hselect := select_eq hc
  rw [h.unmarked c, if_neg Bool.false_ne_true, h.maxRetries, if_pos hattempt, rotate,
    if_pos hlength] at hselect
  have hnil := eraseIdx_position hlength
  rw [Connections.rotateConnect, hlink, if_neg Bool.false_ne_true, hselect]
  refine ⟨_, if_pos hnil, hnil, ?_, rfl, rfl, rfl⟩
  show (if s.farm.isMining then s.farm.stop else s.farm).isMining = false
  split_ifs with hmining
  · rw [Farm.stop, if_pos hmining]
  · exact Bool.eq_false_iff.mpr hmining

/-- The events of attempts that fail: a socket may get connected, but no session
starts. -/
inductive Fails : Event κ → Prop where
  | rotateConnect : Fails .rotateConnect
  | linked : Fails .linked
  | disconnected : Fails .disconnected

theorem Turned.setLink (h : Turned l r k s) (isConnected : Bool) :
    Turned l r k (s.setLink isConnected) :=
  ⟨h.connections, h.maxRetries, h.unmarked, h.counters, h.attempts⟩

theorem Turned.onDisconnected (h : Turned l r k s) : Turned l r k s.onDisconnected :=
  ⟨h.connections, h.maxRetries, h.unmarked, h.counters, h.attempts⟩

/-- A run of failing attempts, as far as there is another connection to rotate to or the
attempts last. -/
theorem Turned.run [DecidableEq κ] {es : List (Event κ)} (h : Turned l r k s) (hl : l ≠ [])
    (hr : 1 ≤ r) (hexit : ∀ c ∈ l, (address c).host ≠ exitHost) (hes : ∀ e ∈ es, Fails e)
    (hfailed : StepsMeet (step address)
      (fun s e => e = .rotateConnect → s.isConnected = false) s es)
    (hmany : 2 ≤ l.length ∨ k + es.count .rotateConnect ≤ r) :
    ∃ t, run (step address) s es = some t ∧ Turned l r (k + es.count .rotateConnect) t := by
  induction es generalizing s k with
  | nil => exact ⟨s, rfl, h⟩
  | cons e es ih =>
    have hrest : ∀ e' ∈ es, Fails e' := fun e' he' => hes e' (List.mem_cons_of_mem e he')
    cases hes e List.mem_cons_self with
    | rotateConnect =>
      rw [List.count_cons_self] at hmany ⊢
      by_cases hlink : s.isConnected = false
      · obtain ⟨s', hs', hturned⟩ := h.rotateConnect address hl hr
          (hmany.imp_right fun hk => by omega) hexit hlink
        have hstep : s.step address .rotateConnect = some s' := by
          rw [step, hs']
          rfl
        obtain ⟨t, hrun, ht⟩ := ih hturned hrest (hfailed s' hstep).2
          (hmany.imp_right fun hk => by omega)
        refine ⟨t, (run_cons_eq_some _).mpr ⟨s', hstep, hrun⟩, ?_⟩
        rwa [show k + (es.count .rotateConnect + 1) = k + 1 + es.count .rotateConnect by omega]
      · have hstep : s.step address .rotateConnect = some s := by
          rw [step, rotateConnect_of_isConnected address (Bool.eq_true_of_not_eq_false hlink)]
          rfl
        exact absurd ((hfailed s hstep).1 rfl) hlink
    | linked =>
      rw [List.count_cons_of_ne (by simp)] at hmany ⊢
      obtain ⟨t, hrun, ht⟩ := ih (h.setLink true) hrest (hfailed _ rfl).2 hmany
      exact ⟨t, (run_cons_eq_some _).mpr ⟨_, rfl, hrun⟩, ht⟩
    | disconnected =>
      rw [List.count_cons_of_ne (by simp)] at hmany ⊢
      obtain ⟨t, hrun, ht⟩ := ih (h.setLink false).onDisconnected hrest (hfailed _ rfl).2 hmany
      exact ⟨t, (run_cons_eq_some _).mpr ⟨_, rfl, hrun⟩, ht⟩

theorem turned_new (l : List κ) (r : ℕ) (farm : Farm) : Turned l r 0 (new l r farm).start :=
  ⟨rfl, rfl, fun _ => rfl, Or.inl ⟨rfl, rfl, rfl⟩, rfl⟩

/-- **The failover order.**  Connections that all fail are tried `r` times each, one
after the other and then from the first one again.  A single connection is tried `r`
times; the next call empties the list and stops the farm. -/
theorem failover_order [DecidableEq κ] (l : List κ) (r : ℕ) (farm : Farm)
    (es : List (Event κ)) (hl : l ≠ []) (hr : 1 ≤ r)
    (hexit : ∀ c ∈ l, (address c).host ≠ exitHost) (hes : ∀ e ∈ es, Fails e)
    (hfailed : StepsMeet (step address)
      (fun s e => e = .rotateConnect → s.isConnected = false) (new l r farm).start es) :
    (2 ≤ l.length → ∃ t, run (step address) (new l r farm).start es = some t ∧
      t.attempts.map (fun a => some a.conn) =
        (List.range (es.count .rotateConnect)).map fun k => l[k / r % l.length]?) ∧
    (l.length = 1 → es.count .rotateConnect ≤ r →
      ∃ t, run (step address) (new l r farm).start es = some t ∧
        t.attempts.map (fun a => some a.conn) =
          List.replicate (es.count .rotateConnect) l.head? ∧
        (es.count .rotateConnect = r → t.isConnected = false →
          ∃ u, t.rotateConnect address = .ok u ∧ u.connections = [] ∧
            u.farm.isMining = false ∧ u.running = false ∧ u.sigterm = true ∧
            u.attempts = t.attempts)) := by
  constructor
  · intro hmany
    obtain ⟨t, hrun, ht⟩ := (turned_new l r farm).run address hl hr hexit hes hfailed
      (Or.inl hmany)
    refine ⟨t, hrun, ?_⟩
    rw [ht.attempts, Nat.zero_add]
  · intro hone hcalls
    obtain ⟨t, hrun, ht⟩ := (turned_new l r farm).run address hl hr hexit hes hfailed
      (Or.inr (by omega))
    rw [Nat.zero_add] at ht
    refine ⟨t, hrun, ?_, ?_⟩
    · rw [ht.attempts, hone]
      simp only [Nat.mod_one, List.map_const', List.length_range, List.head?_eq_getElem?]
    · intro hlast hlink
      rw [hlast] at ht
      exact ht.rotateConnect_single address hone hr hlink

/-- Two connections, with two attempts each: the third call goes to the second one. -/
theorem failover_order_twoConnections :
    ∃ t, run (step fun _ => ⟨[], []⟩) (new ['A', 'B'] 2 {}).start
        [.rotateConnect, .disconnected, .rotateConnect, .linked, .disconnected,
          .rotateConnect] = some t ∧
      t.attempts.map (fun a => some a.conn) = [some 'A', some 'A', some 'B'] :=
  (failover_order (fun _ => ⟨[], []⟩) ['A', 'B'] 2 {} _ (by decide) (by decide)
    (fun _ _ => (List.cons_ne_nil _ _).symm)
    (by
      intro e he
      simp only [List.mem_cons, List.not_mem_nil, or_false] at he
      rcases he with rfl | rfl | rfl | rfl | rfl | rfl <;> constructor)
    (by decide +kernel)).1 (by decide)

/-! ## The active index -/

/-- **A request to remove a connection** that is granted: the entry is there, it is not
the active one, it is erased, and the index is at the same connection as before. -/
theorem removeConnection_spec {idx : ℕ} (h : s.removeConnection idx = .ok t) :
    idx < s.connections.length ∧ idx ≠ s.activeConnectionIdx ∧
      t.connections = s.connections.eraseIdx idx ∧
      t.activeConnectionIdx =
        (if idx < s.activeConnectionIdx then s.activeConnectionIdx - 1
        else s.activeConnectionIdx) ∧
      t.attempts = s.attempts := by
  unfold removeConnection at h
  split_ifs at h with hpending hbound hactive hbefore
  · obtain rfl := Except.ok.inj h
    exact ⟨Nat.lt_of_not_le hbound, hactive, rfl, (if_pos hbefore).symm, rfl⟩
  · obtain rfl := Except.ok.inj h
    exact ⟨Nat.lt_of_not_le hbound, hactive, rfl, (if_neg hbefore).symm, rfl⟩

/-- The active connection is the same object after a removal. -/
theorem active_removeConnection {idx : ℕ} (h : s.removeConnection idx = .ok t) :
    t.connections[t.activeConnectionIdx]? = s.connections[s.activeConnectionIdx]? := by
  obtain ⟨-, hne, hlist, hindex, -⟩ := removeConnection_spec h
  rw [hlist, hindex]
  exact getElem?_eraseIdx_pred hne

theorem within_removeConnection {idx : ℕ} (hs : s.Within)
    (h : s.removeConnection idx = .ok t) : t.Within := by
  obtain ⟨hlt, hne, hlist, hindex, -⟩ := removeConnection_spec h
  have hnonempty : s.connections ≠ [] := List.ne_nil_of_length_pos (Nat.zero_lt_of_lt hlt)
  refine Or.inr ?_
  rw [hlist, hindex]
  exact pred_lt_length_eraseIdx (hs.lt hnonempty) hlt hne

/-- What a request to change the active connection can do. -/
theorem setActiveConnectionCommon_spec {idx : ℕ}
    (h : s.setActiveConnectionCommon idx = .ok (some t)) :
    t = s ∨ t.connections = s.connections ∧ t.activeConnectionIdx = idx ∧
      t.attempts = s.attempts := by
  unfold setActiveConnectionCommon disconnect at h
  split_ifs at h with hpending hother
  · obtain ⟨-, -, rfl⟩ := Option.map_eq_some_iff.mp (Except.ok.inj h)
    exact Or.inr ⟨rfl, rfl, rfl⟩
  · exact Or.inl (Option.some.inj (Except.ok.inj h)).symm

theorem failovertimerElapsed_spec {ec : Bool} (h : s.failovertimerElapsed ec = some t) :
    t = s ∨ t.connections = s.connections ∧ t.activeConnectionIdx = 0 ∧
      t.attempts = s.attempts := by
  unfold failovertimerElapsed disconnect at h
  split_ifs at h with hgo
  · obtain ⟨-, -, rfl⟩ := Option.map_eq_some_iff.mp h
    exact Or.inr ⟨rfl, rfl, rfl⟩
  · exact Or.inl (Option.some.inj h).symm

variable [DecidableEq κ]

omit [DecidableEq κ] in
theorem request_eq_some {r : Except Refusal (Option (Connections κ))}
    (h : s.request r = some t) : t = s ∨ r = .ok (some t) := by
  cases r with
  | error refusal => exact Or.inl (Option.some.inj h).symm
  | ok u => exact Or.inr (congrArg Except.ok h)

/-- What every step other than `rotateConnect` keeps: it starts no attempt, and the index
stays within the list. -/
def Keeps (s t : Connections κ) : Prop := t.attempts = s.attempts ∧ (s.Within → t.Within)

omit [DecidableEq κ] in
theorem Keeps.refl (s : Connections κ) : Keeps s s := ⟨rfl, fun h => h⟩

omit [DecidableEq κ] in
theorem keeps_setActiveConnectionCommon {idx : ℕ} (hidx : idx < s.connections.length)
    (h : s.request (s.setActiveConnectionCommon idx) = some t) : Keeps s t := by
  rcases request_eq_some h with rfl | hok
  · exact Keeps.refl t
  · rcases setActiveConnectionCommon_spec hok with rfl | ⟨hlist, hindex, hattempts⟩
    · exact Keeps.refl t
    · refine ⟨hattempts, fun _ => Or.inr ?_⟩
      rw [hlist, hindex]
      exact hidx

theorem keeps_step {e : Event κ} (he : e ≠ .rotateConnect) (h : s.step address e = some t) :
    Keeps s t := by
  cases e with
  | rotateConnect => exact absurd rfl he
  | addConnection c =>
    obtain rfl := Option.some.inj h
    refine ⟨rfl, fun hs => hs.imp_right fun hlt => ?_⟩
    show s.activeConnectionIdx < (s.connections ++ [c]).length
    rw [List.length_append]
    exact Nat.lt_add_right _ hlt
  | removeConnection idx =>
    rcases request_eq_some h with rfl | hok
    · exact Keeps.refl t
    · cases hremove : s.removeConnection idx with
      | error refusal =>
        rw [hremove] at hok
        cases hok
      | ok u =>
        rw [hremove] at hok
        obtain rfl := Option.some.inj (Except.ok.inj hok)
        exact ⟨(removeConnection_spec hremove).2.2.2.2,
          fun hs => within_removeConnection hs hremove⟩
  | setActiveConnection idx =>
    rw [step, setActiveConnection] at h
    split_ifs at h with hbound
    · obtain rfl := Option.some.inj h
      exact Keeps.refl s
    · exact keeps_setActiveConnectionCommon (Nat.lt_of_not_le hbound) h
  | setActiveConnectionString connstring =>
    rw [step, setActiveConnectionString] at h
    cases hfind : s.connections.findIdx? fun c => iequals (address c).str connstring with
    | none =>
      rw [hfind] at h
      obtain rfl := Option.some.inj h
      exact Keeps.refl s
    | some idx =>
      rw [hfind] at h
      obtain ⟨hidx, -⟩ := List.findIdx?_eq_some_iff_getElem.mp hfind
      exact keeps_setActiveConnectionCommon hidx h
  | failovertimerElapsed ec =>
    rcases failovertimerElapsed_spec h with rfl | ⟨-, hindex, hattempts⟩
    · exact Keeps.refl t
    · exact ⟨hattempts, fun _ => Or.inl hindex⟩
  | markUnrecoverable c | linked | connected draw | disconnected =>
    obtain rfl := Option.some.inj h
    exact ⟨rfl, fun hs => hs⟩

/-- **Every step keeps the index within the list.** -/
theorem within_step {e : Event κ} (hs : s.Within) (h : s.step address e = some t) :
    t.Within := by
  by_cases he : e = .rotateConnect
  · rw [he] at h
    rcases rotateConnect_cases address h with ⟨-, rfl⟩ | ⟨-, c, -, hwithin, -⟩
    · exact hs
    · exact hwithin
  · exact (keeps_step address he h).2 hs

/-- What holds of the active index between two steps. -/
structure IndexSound (s : Connections κ) : Prop where
  bound : s.connections = [] ∨ s.activeConnectionIdx < s.connections.length
  returns : s.connections ≠ [] → ∃ t, s.rotateConnect address = .ok t
  removes : ∀ idx t, s.removeConnection idx = .ok t →
    idx < s.connections.length ∧ t.connections = s.connections.eraseIdx idx ∧
      ∃ c, s.connections[s.activeConnectionIdx]? = some c ∧
        t.connections[t.activeConnectionIdx]? = some c

omit [DecidableEq κ] in
theorem indexSound_of_within (h : s.Within) : s.IndexSound address where
  bound := by
    by_cases hne : s.connections = []
    · exact Or.inl hne
    · exact Or.inr (h.lt hne)
  returns := exists_rotateConnect address
  removes idx t ht := by
    obtain ⟨hidx, -, hlist, -, -⟩ := removeConnection_spec ht
    have hlt := h.lt (List.ne_nil_of_length_pos (Nat.zero_lt_of_lt hidx))
    refine ⟨hidx, hlist, s.connections.get ⟨s.activeConnectionIdx, hlt⟩, ?_, ?_⟩
    · exact List.getElem?_eq_getElem hlt
    · rw [active_removeConnection ht]
      exact List.getElem?_eq_getElem hlt

/-- **The active index is sound** in every state that is reached from a list with an
active connection, whatever happens in whatever order. -/
theorem active_index (s : Connections κ) (hs : s.activeConnectionIdx < s.connections.length)
    (es : List (Event κ)) : Along (step address) (IndexSound address) s es := by
  have hwithin : Along (step address) Within s es :=
    along_of_invariant (fun _ _ _ hs h => within_step address hs h) es s (Or.inr hs)
  exact hwithin.mono fun _ h => indexSound_of_within address h

/-- Two connections, of which the second is made active and the first removed. -/
theorem active_index_twoConnections :
    Along (step fun _ => ⟨[], []⟩) (IndexSound fun _ => ⟨[], []⟩)
      (new [true, false] 3 {}).start
      [.rotateConnect, .connected 0, .setActiveConnection 1, .connected 0, .removeConnection 0] :=
  active_index (fun _ => ⟨[], []⟩) (new [true, false] 3 {}).start (by decide) _

/-! ## Connections marked as unrecoverable -/

/-- No attempt went to a connection that was marked at that moment. -/
def Unmarked (s : Connections κ) : Prop := ∀ a ∈ s.attempts, a.marked = false

/-- The steps that try no marked connection.  If `rotateConnect` leaves the connection it
looks at, then the following one is not marked, or it is `exit`. -/
def LooksAhead (s : Connections κ) : Event κ → Prop
  | .rotateConnect => s.isConnected = true ∨
      ∀ c d, s.connections[s.position]? = some c → s.MovesOn c → s.following = some d →
        s.unrecoverable d = false ∨ (address d).host = exitHost
  | _ => True

omit [DecidableEq κ] in
/-- The connection that is tried is not marked: the one looked at never is. -/
theorem target_unmarked_iff :
    (∀ d, s.target address c = some d → s.unrecoverable d = false) ↔
      (s.MovesOn c → ∀ d, s.following = some d →
        s.unrecoverable d = false ∨ (address d).host = exitHost) := by
  unfold target
  split_ifs with hmoves
  · simp only [Option.filter_eq_some_iff, bne_iff_ne, ne_eq, and_imp, hmoves, true_imp_iff]
    refine forall₂_congr fun d _ => ?_
    constructor
    · intro h
      by_cases hexit : (address d).host = exitHost
      · exact Or.inr hexit
      · exact Or.inl (h hexit)
    · rintro (hmark | hexit) hother
      · exact hmark
      · exact absurd hexit hother
  · refine iff_of_true ?_ fun h => absurd h hmoves
    intro d hd
    obtain ⟨hdc, -⟩ := Option.filter_eq_some_iff.mp hd
    obtain rfl := Option.some.inj hdc
    exact Bool.eq_false_iff.mpr fun hmark => hmoves (Or.inl hmark)

/-- **One step tries no marked connection** exactly when it looks ahead. -/
theorem unmarked_step_iff {e : Event κ} (hs : s.Unmarked) (h : s.step address e = some t) :
    t.Unmarked ↔ s.LooksAhead address e := by
  by_cases he : e = .rotateConnect
  · rw [he] at h ⊢
    rcases rotateConnect_cases address h with ⟨hlink, rfl⟩ | ⟨hlink, c, hc, -, hattempts⟩
    · exact iff_of_true hs (Or.inl hlink)
    · have hnew : t.Unmarked ↔ ∀ d, s.target address c = some d → s.unrecoverable d = false := by
        unfold Unmarked at hs ⊢
        rw [hattempts, List.forall_mem_append]
        simp only [List.mem_map, Option.mem_toList]
        constructor
        · rintro ⟨-, h⟩ d hd
          exact h _ ⟨d, hd, rfl⟩
        · intro h
          refine ⟨hs, ?_⟩
          rintro - ⟨d, hd, rfl⟩
          exact h d hd
      rw [hnew, target_unmarked_iff]
      constructor
      · intro hd
        refine Or.inr fun c' d hc' => ?_
        obtain rfl := Option.some.inj (hc.symm.trans hc')
        exact fun hmoves => hd hmoves d
      · rintro (hconn | hd)
        · rw [hlink] at hconn
          cases hconn
        · exact fun hmoves d => hd c d hc hmoves
  · refine iff_of_true ?_ ?_
    · unfold Unmarked
      rw [(keeps_step address he h).1]
      exact hs
    · cases e with
      | rotateConnect => exact absurd rfl he
      | _ => trivial

/-- **No connection is tried while it is marked as unrecoverable**, in a run of the
manager, exactly when each `rotateConnect` that leaves the active connection finds the
following one unmarked (or `exit`). -/
theorem unmarked_iff (connections : List κ) (connectionMaxRetries : ℕ) (farm : Farm)
    (es : List (Event κ)) :
    Along (step address) Unmarked (new connections connectionMaxRetries farm).start es ↔
      StepsMeet (step address) (LooksAhead address)
        (new connections connectionMaxRetries farm).start es :=
  along_iff_stepsMeet (fun _ _ _ _ _ => trivial)
    (fun _ _ _ _ hs h => unmarked_step_iff address hs h) es _ trivial
    fun _ ha => absurd ha List.not_mem_nil

/-- Two pools, one attempt each.  The first one is reached and then rejects the miner,
which marks it; before its disconnection is handled the API makes the second pool active.
When that one has failed, the first pool is tried again. -/
theorem marked_pool_retried :
    (run (step fun _ => ⟨[], []⟩) (new ['A', 'B'] 1 {}).start
      [.rotateConnect, .linked, .connected 0, .markUnrecoverable 'A', .setActiveConnection 1,
        .disconnected, .rotateConnect, .disconnected, .rotateConnect]).map attempts =
      some [⟨'A', false⟩, ⟨'B', false⟩, ⟨'A', true⟩] := by
  decide +kernel

end Connections
end Pool
end FpgaEthash
