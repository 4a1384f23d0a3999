import Mathlib.Data.List.Basic
import Mathlib.Data.List.Infix

/-!
# Replacing texts between delimiters

`replaceAll` replaces the occurrences of a text from left to right; what has been put in is not
looked at again.

A text is cut by a delimiter into segments.  If the text looked for is enclosed in delimiters, the
occurrences are whole segments, and replacing them is a walk over the segments (`substitute`,
`resolve`).  An occurrence uses up both of its delimiters: the segment behind it has lost the
delimiter before it, so that it is passed over (`replaceAll_enclosed`, `replaceAll_resolve`).
-/

namespace FpgaEthash
namespace Text

variable {α : Type*} {d : α} {s f a l c t p x : List α} {segs : List (List α)}

/-! ## Enclosed texts -/

/-- An enclosed text occurs at a delimiter if it is the whole segment there. -/
theorem enclosed_occurs_iff (hc : d ∉ c) (hx : d ∉ x) (l : List α) :
    d :: (c ++ [d]) <+: d :: (x ++ d :: l) ↔ c = x := by
  rw [List.cons_prefix_cons, and_iff_right rfl]
  induction c generalizing x with
  | nil =>
    cases x with
    | nil => simp
    | cons b x =>
      have hne : d ≠ b := List.ne_of_not_mem_cons hx
      simp [hne]
  | cons b c ih =>
    have hb : b ≠ d := (List.ne_of_not_mem_cons hc).symm
    cases x with
    | nil => simp [hb]
    | cons e x =>
      have hiff := ih (List.not_mem_of_not_mem_cons hc) (List.not_mem_of_not_mem_cons hx)
      rw [List.cons_append, List.cons_append, List.cons_prefix_cons, hiff, List.cons.injEq]

/-- With one delimiter only, nothing enclosed occurs. -/
theorem enclosed_not_occurs (hx : d ∉ x) : ¬ d :: (c ++ [d]) <+: d :: x := by
  rw [List.cons_prefix_cons]
  rintro ⟨-, hp⟩
  exact hx (hp.subset (List.mem_append_right c (List.mem_singleton_self d)))

theorem intercalate_append_cons (a p : List α) (segs : List (List α)) :
    [d].intercalate ((a ++ p) :: segs) = a ++ [d].intercalate (p :: segs) := by
  cases segs with
  | nil => rw [List.intercalate_singleton, List.intercalate_singleton]
  | cons s segs =>
    rw [List.intercalate_cons_cons, List.intercalate_cons_cons]
    simp only [List.append_assoc]

theorem intercalate_cons₃ (p s g : List α) (segs : List (List α)) :
    [d].intercalate (p :: s :: g :: segs) =
      p ++ (d :: (s ++ d :: [d].intercalate (g :: segs))) := by
  rw [List.intercalate_cons_cons, List.intercalate_cons_cons]
  simp

/-- A text cut at a segment that is a single element. -/
theorem intercalate_append_singleton_cons (c : α) (front back : List (List α)) :
    [d].intercalate (front ++ [c] :: back) =
      [d].intercalate (front ++ [[]]) ++ c :: [d].intercalate ([] :: back) := by
  induction front with
  | nil => exact intercalate_append_cons [c] [] back
  | cons s front ih =>
    cases front with
    | nil =>
      rw [List.nil_append] at ih
      rw [List.cons_append, List.nil_append, List.intercalate_cons_cons, ih]
      simp [List.intercalate_cons_cons]
    | cons s' front =>
      rw [List.cons_append, List.cons_append, List.intercalate_cons_cons, List.cons_append,
        List.cons_append, List.intercalate_cons_cons]
      rw [List.cons_append, List.cons_append] at ih
      rw [ih]
      simp

theorem length_le_length_intercalate (q : List α) (segs : List (List α)) :
    segs.length ≤ ([d].intercalate (q :: segs)).length := by
  induction segs generalizing q with
  | nil => simp
  | cons s segs ih =>
    have hlater := ih s
    rw [List.intercalate_cons_cons]
    simp only [List.length_append, List.length_cons, List.length_nil]
    omega

/-! ## The occurrences of a text -/

variable [DecidableEq α]

/-- The walk of `replaceAll`; `skip` elements belong to an occurrence that has been replaced. -/
def replaceFrom (search format : List α) : ℕ → List α → List α
  | _, [] => []
  | skip + 1, _ :: l => replaceFrom search format skip l
  | 0, a :: l =>
    if search <+: a :: l then
      format ++ replaceFrom search format (search.length - 1) l
    else a :: replaceFrom search format 0 l

/-- Replaces every occurrence of `search` by `format`; an empty text occurs nowhere. -/
def replaceAll (search format l : List α) : List α :=
  if search = [] then l else replaceFrom search format 0 l

theorem replaceAll_cons_eq (l : List α) : replaceAll (d :: s) f l = replaceFrom (d :: s) f 0 l :=
  if_neg (List.cons_ne_nil d s)

@[simp] theorem replaceAll_nil (search format : List α) : replaceAll search format [] = [] := by
  unfold replaceAll
  split <;> rfl

theorem replaceFrom_append (search format a l : List α) :
    replaceFrom search format a.length (a ++ l) = replaceFrom search format 0 l := by
  induction a with
  | nil => rfl
  | cons b a ih => exact ih

theorem replaceAll_self_append (l : List α) :
    replaceAll (d :: s) f (d :: s ++ l) = f ++ replaceAll (d :: s) f l := by
  have hocc : d :: s <+: d :: (s ++ l) := List.prefix_append (d :: s) l
  rw [replaceAll_cons_eq, replaceAll_cons_eq, List.cons_append, replaceFrom, if_pos hocc]
  exact congrArg (f ++ ·) (replaceFrom_append (d :: s) f s l)

theorem replaceAll_cons_of_not_occurs {b : α} (h : ¬ d :: s <+: b :: l) :
    replaceAll (d :: s) f (b :: l) = b :: replaceAll (d :: s) f l := by
  rw [replaceAll_cons_eq, replaceAll_cons_eq, replaceFrom, if_neg h]

/-- Where the first element of the text does not stand, the text does not occur. -/
theorem replaceAll_append (h : d ∉ a) (l : List α) :
    replaceAll (d :: s) f (a ++ l) = a ++ replaceAll (d :: s) f l := by
  induction a with
  | nil => rfl
  | cons b a ih =>
    have hne : ¬ d :: s <+: b :: (a ++ l) := fun hp =>
      List.ne_of_not_mem_cons h (List.cons_prefix_cons.mp hp).1
    rw [List.cons_append, replaceAll_cons_of_not_occurs hne, ih (List.not_mem_of_not_mem_cons h),
      List.cons_append]

theorem replaceAll_of_notMem (h : d ∉ l) : replaceAll (d :: s) f l = l := by
  have happ := replaceAll_append (s := s) (f := f) h []
  rwa [List.append_nil, replaceAll_nil, List.append_nil] at happ

/-- Replacing a single element by nothing. -/
theorem replaceAll_singleton_nil (l : List α) : replaceAll [d] [] l = l.filter (· ≠ d) := by
  induction l with
  | nil => rw [replaceAll_nil, List.filter_nil]
  | cons b l ih =>
    by_cases hb : b = d
    · subst hb
      have hself := replaceAll_self_append (d := b) (s := []) (f := []) l
      rw [List.filter_cons_of_neg (by simp), ← ih]
      exact hself
    · have hne : ¬ [d] <+: b :: l := fun hp => hb (List.cons_prefix_cons.mp hp).1.symm
      rw [replaceAll_cons_of_not_occurs hne, ih, List.filter_cons_of_pos (by simpa using hb)]

/-! ## Replacing segments -/

/-- The segments behind the first one, each that is `c` replaced by `t`, except that the segment
behind a replaced one is passed over, and that the last one has no delimiter behind it. -/
def substitute (c t : List α) : List (List α) → List (List α)
  | s :: g :: segs =>
    if s = c then t :: g :: substitute c t segs else s :: substitute c t (g :: segs)
  | segs => segs

/-- With at most two segments nothing is enclosed. -/
theorem replaceAll_of_short (hp : d ∉ p) (hsegs : ∀ s ∈ segs, d ∉ s)
    (hshort : ∀ s g segs', segs = s :: g :: segs' → False) :
    replaceAll (d :: (c ++ [d])) f ([d].intercalate (p :: segs)) = [d].intercalate (p :: segs) := by
  cases segs with
  | nil =>
    rw [List.intercalate_singleton]
    exact replaceAll_of_notMem hp
  | cons s segs =>
    cases segs with
    | nil =>
      have hs : d ∉ s := hsegs s (by simp)
      rw [List.intercalate_cons_cons, List.intercalate_singleton, List.append_assoc,
        replaceAll_append hp, List.singleton_append,
        replaceAll_cons_of_not_occurs (enclosed_not_occurs hs), replaceAll_of_notMem hs]
    | cons g segs => exact absurd rfl (hshort s g segs)

/-- **Replacing an enclosed text by an enclosed text** goes over the segments. -/
theorem replaceAll_enclosed (hc : d ∉ c) (hp : d ∉ p) (hsegs : ∀ s ∈ segs, d ∉ s) :
    replaceAll (d :: (c ++ [d])) (d :: (t ++ [d])) ([d].intercalate (p :: segs)) =
      [d].intercalate (p :: substitute c t segs) := by
  induction segs using substitute.induct c generalizing p with
  | case1 g segs ih =>
    have hg : d ∉ g := hsegs g (by simp)
    have htail := ih hg fun s hs => hsegs s (by simp [hs])
    rw [substitute, if_pos rfl, intercalate_cons₃, intercalate_cons₃, replaceAll_append hp,
      ← htail]
    have hself := replaceAll_self_append (d := d) (s := c ++ [d]) (f := d :: (t ++ [d]))
      ([d].intercalate (g :: segs))
    simpa using hself
  | case2 s g segs hne ih =>
    have hs : d ∉ s := hsegs s (by simp)
    have htail := ih hs fun s hs => hsegs s (List.mem_cons_of_mem _ hs)
    have hocc : ¬ d :: (c ++ [d]) <+: d :: (s ++ d :: [d].intercalate (g :: segs)) := fun h =>
      hne ((enclosed_occurs_iff hc hs _).mp h).symm
    rw [substitute, if_neg hne, intercalate_cons₃, replaceAll_append hp,
      replaceAll_cons_of_not_occurs hocc, List.intercalate_cons_cons, ← htail,
      List.intercalate_cons_cons]
    simp
  | case3 segs hshort =>
    rw [substitute]
    · exact replaceAll_of_short hp hsegs hshort
    · exact hshort

/-- The segments after `t` in delimiters has been replaced by `c` without them: what stands around
it becomes one segment, and is not looked at again. -/
def resolve (t c : List α) : List α → List (List α) → List (List α)
  | p, s :: g :: segs =>
    if s = t then resolve t c (p ++ c ++ g) segs else p :: resolve t c s (g :: segs)
  | p, segs => p :: segs

theorem resolve_ne_nil (t c p : List α) (segs : List (List α)) : resolve t c p segs ≠ [] := by
  induction p, segs using resolve.induct t c with
  | case1 p g segs ih =>
    rw [resolve, if_pos rfl]
    exact ih
  | case2 p s g segs hne ih =>
    rw [resolve, if_neg hne]
    exact List.cons_ne_nil _ _
  | case3 p segs hshort =>
    rw [resolve]
    · exact List.cons_ne_nil _ _
    · exact hshort

/-- **Replacing an enclosed text by a plain one** merges the segments around it. -/
theorem replaceAll_resolve (ht : d ∉ t) (hc : d ∉ c) (hp : d ∉ p) (hsegs : ∀ s ∈ segs, d ∉ s) :
    replaceAll (d :: (t ++ [d])) c ([d].intercalate (p :: segs)) =
      [d].intercalate (resolve t c p segs) := by
  induction p, segs using resolve.induct t c with
  | case1 p g segs ih =>
    have hg : d ∉ g := hsegs g (by simp)
    have hmerged : d ∉ p ++ c ++ g := by simp [hp, hc, hg]
    have htail := ih hmerged fun s hs => hsegs s (by simp [hs])
    have hpc : d ∉ p ++ c := by simp [hp, hc]
    rw [resolve, if_pos rfl, ← htail, intercalate_append_cons, replaceAll_append hpc,
      intercalate_cons₃, replaceAll_append hp]
    have hself := replaceAll_self_append (d := d) (s := t ++ [d]) (f := c)
      ([d].intercalate (g :: segs))
    simpa using hself
  | case2 p s g segs hne ih =>
    have hs : d ∉ s := hsegs s (by simp)
    have htail := ih hs fun s hs => hsegs s (List.mem_cons_of_mem _ hs)
    have hocc : ¬ d :: (t ++ [d]) <+: d :: (s ++ d :: [d].intercalate (g :: segs)) := fun h =>
      hne ((enclosed_occurs_iff ht hs _).mp h).symm
    have hcons : resolve t c s (g :: segs) ≠ [] := resolve_ne_nil t c s (g :: segs)
    obtain ⟨q, segs', hsplit⟩ := List.exists_cons_of_ne_nil hcons
    rw [resolve, if_neg hne, intercalate_cons₃, replaceAll_append hp,
      replaceAll_cons_of_not_occurs hocc, hsplit, List.intercalate_cons_cons, ← hsplit, ← htail,
      List.intercalate_cons_cons]
    simp
  | case3 p segs hshort =>
    rw [resolve]
    · exact replaceAll_of_short hp hsegs hshort
    · exact hshort

end Text
end FpgaEthash
