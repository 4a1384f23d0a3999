import FpgaEthash.Text.Replace
import Mathlib.Logic.Function.Basic

/-!
# Regular expressions that backtrack

Patterns as the ECMAScript grammar has them, with groups and with `^` and `$` for the two ends of
the subject.  A pattern is run at a position with a continuation (`exec`); the alternatives are
tried in order, and the first one with which the continuation succeeds is taken.  A repetition is
greedy: it first tries to go on.

Most patterns are repetitions of one character class between separators.  What such a repetition
does depends on the continuation alone: the longest stretch with which the rest matches
(`exec_group_star_eq_some`), and none if the rest matches with no stretch
(`exec_group_star_eq_none`).
-/

namespace FpgaEthash
namespace Regex

variable {α β : Type*}

/-- A pattern over the characters `α`. -/
inductive Pattern (α : Type*) where
  | empty
  | one (p : α → Bool)
  | seq (r t : Pattern α)
  | alt (r t : Pattern α)
  | star (r : Pattern α)
  | group (i : ℕ) (r : Pattern α)
  | start
  | finish

/-- A position in the subject: whether it is the beginning, what lies ahead, and what the groups
have matched so far; a group that has not taken part is empty. -/
structure Position (α : Type*) where
  fresh : Bool
  ahead : List α
  groups : ℕ → List α

namespace Position

/-- The position at which a subject begins. -/
def init (l : List α) : Position α := ⟨true, l, fun _ => []⟩

/-- Group `i` has matched what lies between the position `s` and this one. -/
def capture (s' : Position α) (i : ℕ) (s : Position α) : Position α :=
  let taken := s.ahead.take (s.ahead.length - s'.ahead.length)
  { s' with groups := Function.update s'.groups i taken }

end Position

/-- A greedy repetition of a body.  A turn that takes nothing is not counted, so that the number of
turns is bounded by what lies ahead. -/
def repeatGreedy (body : (Position α → Option β) → Position α → Option β) :
    ℕ → (Position α → Option β) → Position α → Option β
  | 0, k, s => k s
  | n + 1, k, s =>
    (body (fun s' => if s'.ahead.length < s.ahead.length then repeatGreedy body n k s' else none)
      s).or (k s)

/-- Runs a pattern at a position, and the continuation behind it. -/
def exec : Pattern α → (Position α → Option β) → Position α → Option β
  | .empty, k, s => k s
  | .one p, k, s =>
    match s.ahead with
    | [] => none
    | a :: l => if p a then k { s with fresh := false, ahead := l } else none
  | .seq r t, k, s => exec r (exec t k) s
  | .alt r t, k, s => (exec r k s).or (exec t k s)
  | .star r, k, s => repeatGreedy (exec r) s.ahead.length k s
  | .group i r, k, s => exec r (fun s' => k (s'.capture i s)) s
  | .start, k, s => if s.fresh then k s else none
  | .finish, k, s => if s.ahead = [] then k s else none

/-- The first match of a pattern from a position on, the starting points tried from left to
right: the position behind the match. -/
def searchFrom (r : Pattern α) : Bool → List α → Option (Position α)
  | fresh, [] => exec r some ⟨fresh, [], fun _ => []⟩
  | fresh, a :: l => (exec r some ⟨fresh, a :: l, fun _ => []⟩).or (searchFrom r false l)

/-- `regex_search`. -/
def search (r : Pattern α) (l : List α) : Option (Position α) := searchFrom r true l

/-- `regex_match`: the pattern matches the subject as a whole. -/
def isMatch (r : Pattern α) (l : List α) : Bool :=
  (exec (.seq r .finish) some (Position.init l)).isSome

/-- The matches that a `regex_iterator` finds, each search beginning where the match before it has
ended, for a pattern that never matches nothing. -/
def matchesFrom (r : Pattern α) : ℕ → Bool → List α → List (ℕ → List α)
  | 0, _, _ => []
  | n + 1, fresh, l =>
    match searchFrom r fresh l with
    | none => []
    | some s => s.groups :: matchesFrom r n false s.ahead

/-- All matches, of which there are no more than characters. -/
def allMatches (r : Pattern α) (l : List α) : List (ℕ → List α) := matchesFrom r l.length true l

/-! ## One step of a pattern -/

variable {k : Position α → Option β} {s : Position α} {p : α → Bool} {fresh : Bool} {a : α}
  {l : List α} {g : ℕ → List α} {i : ℕ}

theorem exec_seq (r t : Pattern α) (k : Position α → Option β) :
    exec (.seq r t) k = exec r (exec t k) := rfl

theorem exec_one_cons :
    exec (.one p) k ⟨fresh, a :: l, g⟩ = if p a then k ⟨false, l, g⟩ else none := rfl

theorem exec_finish : exec .finish k ⟨fresh, l, g⟩ = if l = [] then k ⟨fresh, l, g⟩ else none := rfl

theorem exec_star_one_nil : exec (.star (.one p)) k ⟨fresh, [], g⟩ = k ⟨fresh, [], g⟩ := rfl

/-- A repetition of one class goes on as long as it can, and comes back to this place if that
does not help. -/
theorem exec_star_one_cons :
    exec (.star (.one p)) k ⟨fresh, a :: l, g⟩ =
      (if p a then exec (.star (.one p)) k ⟨false, l, g⟩ else none).or (k ⟨fresh, a :: l, g⟩) := by
  cases hp : p a with
  | false => simp [exec, repeatGreedy, hp]
  | true => simp [exec, repeatGreedy, hp]

/-! ## Repetitions of one class -/

theorem exec_star_one_eq_none
    (h : ∀ x b, l = x ++ b → (∀ y ∈ x, p y = true) → k ⟨fresh && x.isEmpty, b, g⟩ = none) :
    exec (.star (.one p)) k ⟨fresh, l, g⟩ = none := by
  induction l generalizing fresh with
  | nil =>
    have hhere := h [] [] rfl (by simp)
    rw [exec_star_one_nil]
    simpa using hhere
  | cons c l ih =>
    have hhere : k ⟨fresh, c :: l, g⟩ = none := by
      have hnil := h [] (c :: l) rfl (by simp)
      simpa using hnil
    rw [exec_star_one_cons, hhere, Option.or_none]
    split
    · next hc =>
        refine ih fun x b hl hx => ?_
        have hlonger := h (c :: x) b (by rw [hl, List.cons_append]) (by simpa [hc] using hx)
        simpa using hlonger
    · rfl

theorem exec_star_one_eq_some {r : β} {x b : List α} (hx : ∀ y ∈ x, p y = true)
    (hk : k ⟨fresh && x.isEmpty, b, g⟩ = some r)
    (hlonger : ∀ y b', b = y ++ b' → y ≠ [] → (∀ z ∈ y, p z = true) → k ⟨false, b', g⟩ = none) :
    exec (.star (.one p)) k ⟨fresh, x ++ b, g⟩ = some r := by
  induction x generalizing fresh with
  | nil =>
    have hhere : k ⟨fresh, b, g⟩ = some r := by simpa using hk
    cases b with
    | nil => exact hhere
    | cons c b =>
      -- Going on leads nowhere, so the repetition comes back to this place.
      rw [List.nil_append, exec_star_one_cons, hhere]
      split
      · next hc =>
          rw [exec_star_one_eq_none, Option.none_or]
          intro y b' hb hy
          have hnone := hlonger (c :: y) b' (by rw [hb, List.cons_append])
            (List.cons_ne_nil c y) (by simpa [hc] using hy)
          simpa using hnone
      · rfl
  | cons c x ih =>
    have hc : p c = true := hx c List.mem_cons_self
    have hon : exec (.star (.one p)) k ⟨false, x ++ b, g⟩ = some r :=
      ih (fun y hy => hx y (List.mem_cons_of_mem c hy)) (by simpa using hk)
    rw [List.cons_append, exec_star_one_cons, if_pos hc, hon, Option.some_or]

theorem capture_append (x b : List α) (g : ℕ → List α) (fresh' : Bool) :
    (Position.mk fresh' b g).capture i ⟨fresh, x ++ b, g⟩ = ⟨fresh', b, Function.update g i x⟩ := by
  have htaken : (x ++ b).take ((x ++ b).length - b.length) = x := by simp
  simp only [Position.capture]
  rw [htaken]

/-- A group that repeats a class **fails if no stretch lets the rest match**. -/
theorem exec_group_star_eq_none
    (h : ∀ x b, l = x ++ b → (∀ y ∈ x, p y = true) →
      k ⟨fresh && x.isEmpty, b, Function.update g i x⟩ = none) :
    exec (.group i (.star (.one p))) k ⟨fresh, l, g⟩ = none := by
  refine exec_star_one_eq_none fun x b hl hx => ?_
  subst hl
  rw [capture_append]
  exact h x b rfl hx

/-- A group that repeats a class takes **the longest stretch that lets the rest match**. -/
theorem exec_group_star_eq_some {r : β} {x b : List α} (hx : ∀ y ∈ x, p y = true)
    (hk : k ⟨fresh && x.isEmpty, b, Function.update g i x⟩ = some r)
    (hlonger : ∀ y b', b = y ++ b' → y ≠ [] → (∀ z ∈ y, p z = true) →
      k ⟨false, b', Function.update g i (x ++ y)⟩ = none) :
    exec (.group i (.star (.one p))) k ⟨fresh, x ++ b, g⟩ = some r := by
  refine exec_star_one_eq_some hx (by rw [capture_append]; exact hk) fun y b' hb hy hpy => ?_
  subst hb
  rw [← List.append_assoc, capture_append]
  exact hlonger y b' rfl hy hpy

theorem exec_group_plus_cons :
    exec (.group i (.seq (.one p) (.star (.one p)))) k ⟨fresh, a :: l, g⟩ =
      if p a then
        exec (.star (.one p)) (fun s' => k (s'.capture i ⟨fresh, a :: l, g⟩)) ⟨false, l, g⟩
      else none := rfl

/-- The same for a repetition that has to take something. -/
theorem exec_group_plus_eq_none
    (h : ∀ x b, l = x ++ b → x ≠ [] → (∀ y ∈ x, p y = true) →
      k ⟨false, b, Function.update g i x⟩ = none) :
    exec (.group i (.seq (.one p) (.star (.one p)))) k ⟨fresh, l, g⟩ = none := by
  cases l with
  | nil => rfl
  | cons c l =>
    rw [exec_group_plus_cons]
    split
    · next hc =>
        refine exec_star_one_eq_none fun x b hl hx => ?_
        subst hl
        rw [← List.cons_append, capture_append]
        exact h (c :: x) b rfl (List.cons_ne_nil c x) (by simpa [hc] using hx)
    · rfl

theorem exec_group_plus_eq_some {r : β} {x b : List α} (hne : x ≠ []) (hx : ∀ y ∈ x, p y = true)
    (hk : k ⟨false, b, Function.update g i x⟩ = some r)
    (hlonger : ∀ y b', b = y ++ b' → y ≠ [] → (∀ z ∈ y, p z = true) →
      k ⟨false, b', Function.update g i (x ++ y)⟩ = none) :
    exec (.group i (.seq (.one p) (.star (.one p)))) k ⟨fresh, x ++ b, g⟩ = some r := by
  obtain ⟨c, x, rfl⟩ := List.exists_cons_of_ne_nil hne
  rw [List.cons_append, exec_group_plus_cons, if_pos (hx c List.mem_cons_self)]
  refine exec_star_one_eq_some (fun y hy => hx y (List.mem_cons_of_mem c hy)) ?_ ?_
  · rw [← List.cons_append, capture_append]
    exact hk
  · intro y b' hb hy hpy
    subst hb
    rw [← List.append_assoc, ← List.cons_append, capture_append]
    exact hlonger y b' rfl hy hpy

/-- A group up to the end takes all that lies ahead. -/
theorem exec_toEnd (hl : ∀ y ∈ l, p y = true) :
    exec (.group i (.star (.one p))) (exec .finish k) ⟨fresh, l, g⟩ =
      k ⟨fresh && l.isEmpty, [], Function.update g i l⟩ := by
  cases hk : k ⟨fresh && l.isEmpty, [], Function.update g i l⟩ with
  | none =>
    refine exec_group_star_eq_none fun x b hxb _ => ?_
    rw [exec_finish]
    split
    · next hb =>
        rw [hb, List.append_nil] at hxb
        rw [hb, ← hxb]
        exact hk
    · rfl
  | some r =>
    have hsome : exec .finish k ⟨fresh && l.isEmpty, [], Function.update g i l⟩ = some r := hk
    have hall := exec_group_star_eq_some (b := []) hl hsome fun y b' hb hy _ =>
      absurd (List.append_eq_nil_iff.mp hb.symm).1 hy
    rwa [List.append_nil] at hall

/-- A group up to the end fails if something ahead is not in the class. -/
theorem exec_toEnd_eq_none {y : α} (hy : y ∈ l) (hpy : p y = false) :
    exec (.group i (.star (.one p))) (exec .finish k) ⟨fresh, l, g⟩ = none := by
  refine exec_group_star_eq_none fun x b hxb hx => ?_
  rw [exec_finish, if_neg]
  rintro rfl
  rw [List.append_nil] at hxb
  have hyp : p y = true := hx y (by rw [← hxb]; exact hy)
  rw [hpy] at hyp
  exact Bool.false_ne_true hyp

/-! ## Separators -/

section Separators

variable [DecidableEq α] {c d : α} {x b : List α}

/-- One given character. -/
def Pattern.char (c : α) : Pattern α := .one fun y => decide (y = c)

theorem exec_char_cons :
    exec (.char c) k ⟨fresh, a :: l, g⟩ = if a = c then k ⟨false, l, g⟩ else none := by
  rw [Pattern.char, exec_one_cons]
  simp only [decide_eq_true_eq]

theorem exec_char_self : exec (.char c) k ⟨fresh, c :: l, g⟩ = k ⟨false, l, g⟩ := by
  rw [exec_char_cons, if_pos rfl]

theorem exec_char_eq_none (h : ∀ b, l = c :: b → k ⟨false, b, g⟩ = none) :
    exec (.char c) k ⟨fresh, l, g⟩ = none := by
  cases l with
  | nil => rfl
  | cons e l =>
    rw [exec_char_cons]
    split
    · next he => exact h l (by rw [he])
    · rfl

/-- A group up to a separator fails if the rest matches behind none of them. -/
theorem exec_upTo_eq_none
    (h : ∀ x b, l = x ++ c :: b → (∀ y ∈ x, p y = true) →
      k ⟨false, b, Function.update g i x⟩ = none) :
    exec (.group i (.star (.one p))) (exec (.char c) k) ⟨fresh, l, g⟩ = none := by
  refine exec_group_star_eq_none fun x b hl hx => exec_char_eq_none fun b' hb => ?_
  subst hb
  exact h x b' hl hx

/-- A group up to a separator ends at **the last separator behind which the rest matches**. -/
theorem exec_upTo_eq_some {r : β} (hx : ∀ y ∈ x, p y = true)
    (hk : k ⟨false, b, Function.update g i x⟩ = some r)
    (hlast : ∀ y b', b = y ++ c :: b' → k ⟨false, b', Function.update g i (x ++ c :: y)⟩ = none) :
    exec (.group i (.star (.one p))) (exec (.char c) k) ⟨fresh, x ++ c :: b, g⟩ = some r := by
  refine exec_group_star_eq_some hx (by rw [exec_char_self]; exact hk) fun y b' hb hy _ => ?_
  refine exec_char_eq_none fun b'' hb' => ?_
  subst hb'
  -- The stretch is longer than up to the separator, so it begins with it.
  obtain ⟨e, y, rfl⟩ := List.exists_cons_of_ne_nil hy
  rw [List.cons_append, List.cons.injEq] at hb
  obtain ⟨rfl, hb⟩ := hb
  exact hlast y b'' hb

end Separators

/-! ## Searching -/

theorem searchFrom_start_false (r : Pattern α) (l : List α) :
    searchFrom (.seq .start r) false l = none := by
  induction l with
  | nil => rfl
  | cons a l ih =>
    rw [searchFrom, ih, Option.or_none]
    rfl

/-- A pattern that begins with `^` is tried at the beginning only. -/
theorem search_start (r : Pattern α) (l : List α) :
    search (.seq .start r) l = exec r some (Position.init l) := by
  cases l with
  | nil => rfl
  | cons a l =>
    rw [search, searchFrom, searchFrom_start_false, Option.or_none]
    rfl

/-! ## Enclosed texts -/

section Enclosed

variable [DecidableEq α] {d : α} {x q : List α} {segs : List (List α)}

/-- A text between two delimiters, without delimiters in it, as group 1. -/
def Pattern.enclosed (d : α) : Pattern α :=
  .seq (.char d) (.seq (.group 1 (.star (.one fun y => decide (y ≠ d)))) (.char d))

/-- The texts between two delimiters, from left to right. -/
def enclosedTexts (d : α) (l : List α) : List (List α) :=
  (allMatches (.enclosed d) l).map fun groups => groups 1

/-- Of the segments behind the first one, those that are enclosed: a delimiter closes only one. -/
def enclosedSegments : List (List α) → List (List α)
  | s :: _ :: segs => s :: enclosedSegments segs
  | _ => []

theorem exec_enclosed (hx : d ∉ x) :
    exec (.enclosed d) some ⟨fresh, d :: (x ++ d :: l), g⟩ =
      some ⟨false, l, Function.update g 1 x⟩ := by
  have hclass : ∀ y ∈ x, decide (y ≠ d) = true := fun y hy =>
    decide_eq_true fun h => hx (h ▸ hy)
  rw [Pattern.enclosed, exec_seq, exec_char_self, exec_seq]
  refine exec_group_star_eq_some hclass (by rw [exec_char_self]) fun y b' hb hy hpy => ?_
  obtain ⟨e, y, rfl⟩ := List.exists_cons_of_ne_nil hy
  rw [List.cons_append, List.cons.injEq] at hb
  exact absurd hb.1.symm (of_decide_eq_true (hpy e List.mem_cons_self))

theorem exec_enclosed_of_ne {y : α} (hy : y ≠ d) :
    exec (.enclosed d) k ⟨fresh, y :: l, g⟩ = none := by
  rw [Pattern.enclosed, exec_seq, exec_char_cons, if_neg hy]

/-- A delimiter that is not closed encloses nothing. -/
theorem exec_enclosed_of_notMem (hx : d ∉ x) :
    exec (.enclosed d) k ⟨fresh, d :: x, g⟩ = none := by
  rw [Pattern.enclosed, exec_seq, exec_char_self, exec_seq]
  refine exec_upTo_eq_none fun y b hyb _ => absurd ?_ hx
  rw [hyb]
  exact List.mem_append_right y List.mem_cons_self

theorem searchFrom_enclosed_append (hq : d ∉ q) (l : List α) :
    searchFrom (.enclosed d) fresh (q ++ l) = searchFrom (.enclosed d) (fresh && q.isEmpty) l := by
  induction q generalizing fresh with
  | nil => simp
  | cons y q ih =>
    have hy : y ≠ d := (List.ne_of_not_mem_cons hq).symm
    rw [List.cons_append, searchFrom, exec_enclosed_of_ne hy, Option.none_or,
      ih (List.not_mem_of_not_mem_cons hq)]
    simp

theorem searchFrom_enclosed_of_notMem (hq : d ∉ q) :
    searchFrom (.enclosed d) fresh q = none := by
  rw [← List.append_nil q, searchFrom_enclosed_append hq]
  rfl

theorem searchFrom_enclosed_single (hq : d ∉ q) (hx : d ∉ x) :
    searchFrom (.enclosed d) fresh (q ++ d :: x) = none := by
  rw [searchFrom_enclosed_append hq, searchFrom, exec_enclosed_of_notMem hx, Option.none_or]
  exact searchFrom_enclosed_of_notMem hx

theorem searchFrom_enclosed (hq : d ∉ q) (hx : d ∉ x) :
    searchFrom (.enclosed d) fresh (q ++ d :: (x ++ d :: l)) =
      some ⟨false, l, Function.update (fun _ => []) 1 x⟩ := by
  rw [searchFrom_enclosed_append hq, searchFrom, exec_enclosed hx, Option.some_or]

/-- The iterator finds the enclosed segments, if it may go on often enough. -/
theorem matchesFrom_enclosed {n : ℕ} (hn : segs.length ≤ n) (hq : d ∉ q)
    (hsegs : ∀ s ∈ segs, d ∉ s) :
    (matchesFrom (.enclosed d) n fresh ([d].intercalate (q :: segs))).map (fun groups => groups 1) =
      enclosedSegments segs := by
  induction segs using enclosedSegments.induct generalizing n fresh q with
  | case1 s t segs ih =>
    obtain ⟨n, rfl⟩ : ∃ m, n = m + 1 := ⟨n - 1, by simp at hn; omega⟩
    have hlater : (matchesFrom (.enclosed d) n false ([d].intercalate (t :: segs))).map
        (fun groups => groups 1) = enclosedSegments segs :=
      ih (by simp at hn; omega) (hsegs t (by simp)) fun s hs => hsegs s (by simp [hs])
    rw [Text.intercalate_cons₃, matchesFrom, searchFrom_enclosed hq (hsegs s (by simp))]
    simp only [List.map_cons, Function.update_self, enclosedSegments]
    rw [hlater]
  | case2 segs hshort =>
    have hnone : searchFrom (.enclosed d) fresh ([d].intercalate (q :: segs)) = none := by
      cases segs with
      | nil =>
        rw [List.intercalate_singleton]
        exact searchFrom_enclosed_of_notMem hq
      | cons s segs =>
        cases segs with
        | nil =>
          rw [List.intercalate_cons_cons, List.intercalate_singleton, List.append_assoc,
            List.singleton_append]
          exact searchFrom_enclosed_single hq (hsegs s (by simp))
        | cons t segs => exact absurd rfl (hshort s t segs)
    rw [enclosedSegments]
    · cases n with
      | zero => rfl
      | succ n => simp [matchesFrom, hnone]
    · exact hshort

/-- **The enclosed texts of a text** are the enclosed ones of its segments. -/
theorem enclosedTexts_intercalate (hq : d ∉ q) (hsegs : ∀ s ∈ segs, d ∉ s) :
    enclosedTexts d ([d].intercalate (q :: segs)) = enclosedSegments segs :=
  matchesFrom_enclosed (Text.length_le_length_intercalate q segs) hq hsegs

theorem exists_eq_intercalate (d : α) (l : List α) :
    ∃ q segs, l = [d].intercalate (q :: segs) ∧ d ∉ q ∧ ∀ s ∈ segs, d ∉ s := by
  induction l with
  | nil => exact ⟨[], [], rfl, by simp, by simp⟩
  | cons a l ih =>
    obtain ⟨q, segs, rfl, hq, hsegs⟩ := ih
    by_cases ha : a = d
    · subst ha
      refine ⟨[], q :: segs, ?_, by simp, by simpa using ⟨hq, hsegs⟩⟩
      rw [List.intercalate_cons_cons]
      rfl
    · exact ⟨a :: q, segs, (Text.intercalate_append_cons [a] q segs).symm,
        by simp [Ne.symm ha, hq], hsegs⟩

omit [DecidableEq α] in
theorem mem_of_mem_enclosedSegments {s : List α} (h : s ∈ enclosedSegments segs) : s ∈ segs := by
  induction segs using enclosedSegments.induct with
  | case1 t u segs ih =>
    rw [enclosedSegments, List.mem_cons] at h
    rcases h with rfl | h
    · exact List.mem_cons_self
    · exact List.mem_cons_of_mem _ (List.mem_cons_of_mem _ (ih h))
  | case2 segs hshort =>
    rw [enclosedSegments] at h
    · simp at h
    · exact hshort

theorem notMem_of_mem_enclosedTexts (h : x ∈ enclosedTexts d l) : d ∉ x := by
  obtain ⟨q, segs, rfl, hq, hsegs⟩ := exists_eq_intercalate d l
  rw [enclosedTexts_intercalate hq hsegs] at h
  exact hsegs x (mem_of_mem_enclosedSegments h)

/-- What stands before the first delimiter does not matter. -/
theorem enclosedTexts_append (hx : d ∉ x) (l : List α) :
    enclosedTexts d (x ++ l) = enclosedTexts d l := by
  obtain ⟨q, segs, rfl, hq, hsegs⟩ := exists_eq_intercalate d l
  have hxq : d ∉ x ++ q := by simp [hx, hq]
  rw [← Text.intercalate_append_cons, enclosedTexts_intercalate hxq hsegs,
    enclosedTexts_intercalate hq hsegs]

theorem enclosedTexts_enclosed (hx : d ∉ x) (l : List α) :
    enclosedTexts d (d :: (x ++ d :: l)) = x :: enclosedTexts d l := by
  obtain ⟨q, segs, rfl, hq, hsegs⟩ := exists_eq_intercalate d l
  have htext : d :: (x ++ d :: [d].intercalate (q :: segs)) =
      [d].intercalate ([] :: x :: q :: segs) := (Text.intercalate_cons₃ [] x q segs).symm
  rw [htext, enclosedTexts_intercalate (by simp) (by simpa using ⟨hx, hq, hsegs⟩),
    enclosedTexts_intercalate hq hsegs, enclosedSegments]

end Enclosed

end Regex
end FpgaEthash
