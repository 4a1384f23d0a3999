import FpgaEthash.Pool.Credentials

/-!
# Separators in backticks

A part in backticks may be the text that stands between two other parts in backticks.  The pass for
its block then also hits what stands between them, and the segment behind that is passed over.

Without texts in backticks behind the `'@'` there are two or three blocks, and what the passes leave
can be told segment by segment (`tokenize_intercalate`, `readBack_intercalate`).  With two blocks
the second part is lost.  With three blocks, the segments depend on which of the texts are equal to
each other, to a separator or to a token; in every case some part comes back wrong, except for one
choice of the three texts (`readLogin_three_eq_iff`).

`recovered_iff` puts this together with the case of safe separators.
-/

namespace FpgaEthash
namespace Pool

open Devcore Regex Text

/-! ## Segment by segment -/

/-- The segments behind the first one, after all passes. -/
def tokenSegments (blocks : List (StdString × StdString)) (segs : List StdString) :
    List StdString :=
  blocks.foldl (fun segs b => substitute b.2 b.1 segs) segs

/-- One token replaced, in a text given by its segments. -/
def resolveBlock (segs : List StdString) (b : StdString × StdString) : List StdString :=
  match segs with
  | [] => []
  | p :: segs => resolve b.1 b.2 p segs

theorem mem_substitute {c t s : StdString} {segs : List StdString} (h : s ∈ substitute c t segs) :
    s = t ∨ s ∈ segs := by
  induction segs using substitute.induct c with
  | case1 g segs ih =>
    rw [substitute, if_pos rfl, List.mem_cons, List.mem_cons] at h
    rcases h with rfl | rfl | h
    · exact .inl rfl
    · exact .inr (by simp)
    · exact (ih h).imp_right fun h => by simp [h]
  | case2 s' g segs hne ih =>
    rw [substitute, if_neg hne, List.mem_cons] at h
    rcases h with rfl | h
    · exact .inr (by simp)
    · exact (ih h).imp_right fun h => List.mem_cons_of_mem _ h
  | case3 segs hshort =>
    rw [substitute] at h
    · exact .inr h
    · exact hshort

theorem tokenize_intercalate {blocks : List (StdString × StdString)} {p : StdString}
    {segs : List StdString} (hblocks : Unquoted blocks) (hp : '`' ∉ p)
    (hsegs : ∀ s ∈ segs, '`' ∉ s) :
    tokenize blocks (['`'].intercalate (p :: segs)) =
      ['`'].intercalate (p :: tokenSegments blocks segs) := by
  induction blocks generalizing segs with
  | nil => rfl
  | cons b blocks ih =>
    have hb := hblocks b List.mem_cons_self
    have hrest : Unquoted blocks := fun b' hb' => hblocks b' (List.mem_cons_of_mem _ hb')
    have hpass : ∀ s ∈ substitute b.2 b.1 segs, '`' ∉ s := by
      intro s hs
      rcases mem_substitute hs with rfl | hs
      · exact hb.1
      · exact hsegs s hs
    have hstep : tokenize (b :: blocks) (['`'].intercalate (p :: segs)) =
        tokenize blocks
          (replaceAll (quote b.2) (quote b.1) (['`'].intercalate (p :: segs))) := rfl
    rw [hstep, quote, quote, replaceAll_enclosed hb.2 hp hsegs]
    exact ih hrest hpass

theorem Inert.append {s s' : StdString} (h : Inert s) (h' : Inert s') : Inert (s ++ s') :=
  ⟨by simp [h.backtick, h'.backtick], by simp [h.percent, h'.percent], by simp [h.plus, h'.plus]⟩

theorem inert_resolve {t c p : StdString} {segs : List StdString} (hc : Inert c) (hp : Inert p)
    (hsegs : ∀ s ∈ segs, Inert s) : ∀ s ∈ resolve t c p segs, Inert s := by
  induction p, segs using resolve.induct t c with
  | case1 p g segs ih =>
    rw [resolve, if_pos rfl]
    exact ih ((hp.append hc).append (hsegs g (by simp))) fun s hs => hsegs s (by simp [hs])
  | case2 p s g segs hne ih =>
    rw [resolve, if_neg hne]
    intro s' hs'
    rcases List.mem_cons.mp hs' with rfl | hs'
    · exact hp
    · exact ih (hsegs s (by simp)) (fun s hs => hsegs s (List.mem_cons_of_mem _ hs)) s' hs'
  | case3 p segs hshort =>
    rw [resolve]
    · intro s hs
      rcases List.mem_cons.mp hs with rfl | hs
      · exact hp
      · exact hsegs s hs
    · exact hshort

theorem inert_resolveBlock {b : StdString × StdString} {segs : List StdString} (hb : Inert b.2)
    (hsegs : ∀ s ∈ segs, Inert s) : ∀ s ∈ resolveBlock segs b, Inert s := by
  cases segs with
  | nil => simp [resolveBlock]
  | cons p segs =>
    exact inert_resolve hb (hsegs p List.mem_cons_self) fun s hs =>
      hsegs s (List.mem_cons_of_mem _ hs)

theorem replaceAll_resolveBlock {b : StdString × StdString} {segs : List StdString}
    (hb : Inert b.1 ∧ Inert b.2) (hsegs : ∀ s ∈ segs, Inert s) :
    replaceAll (quote b.1) b.2 (['`'].intercalate segs) =
      ['`'].intercalate (resolveBlock segs b) := by
  cases segs with
  | nil => exact replaceAll_nil _ _
  | cons p segs =>
    exact replaceAll_resolve hb.1.backtick hb.2.backtick (hsegs p List.mem_cons_self).backtick
      fun s hs => (hsegs s (List.mem_cons_of_mem _ hs)).backtick

theorem untokenize_intercalate {blocks : List (StdString × StdString)} {segs : List StdString}
    (hblocks : ∀ b ∈ blocks, Inert b.1 ∧ Inert b.2) (hsegs : ∀ s ∈ segs, Inert s) :
    untokenize blocks (['`'].intercalate segs) =
        ['`'].intercalate (blocks.foldl resolveBlock segs) ∧
      ∀ s ∈ blocks.foldl resolveBlock segs, Inert s := by
  induction blocks generalizing segs with
  | nil => exact ⟨rfl, hsegs⟩
  | cons b blocks ih =>
    have hb := hblocks b List.mem_cons_self
    have hstep : untokenize (b :: blocks) (['`'].intercalate segs) =
        untokenize blocks (replaceAll (quote b.1) b.2 (['`'].intercalate segs)) := rfl
    rw [hstep, replaceAll_resolveBlock hb hsegs]
    exact ih (fun b' hb' => hblocks b' (List.mem_cons_of_mem _ hb'))
      (inert_resolveBlock hb.2 hsegs)

theorem filter_intercalate {segs : List StdString} (h : ∀ s ∈ segs, '`' ∉ s) :
    (['`'].intercalate segs).filter (· ≠ '`') = segs.flatten := by
  induction segs with
  | nil => rfl
  | cons s segs ih =>
    have hs : s.filter (· ≠ '`') = s :=
      List.filter_eq_self.mpr fun y hy => decide_eq_true fun heq =>
        h s List.mem_cons_self (heq ▸ hy)
    have hrest := ih fun s' hs' => h s' (List.mem_cons_of_mem _ hs')
    cases segs with
    | nil => rw [List.intercalate_singleton, hs, List.flatten_singleton]
    | cons s' segs =>
      rw [List.intercalate_cons_cons, List.filter_append, List.filter_append, hs, hrest,
        List.flatten_cons]
      simp

/-- **What becomes of a part**, segment by segment. -/
theorem readBack_intercalate {blocks : List (StdString × StdString)} {segs : List StdString}
    (hblocks : ∀ b ∈ blocks, Inert b.1 ∧ Inert b.2) (hsegs : ∀ s ∈ segs, Inert s) :
    readBack blocks (['`'].intercalate segs) = (blocks.foldl resolveBlock segs).flatten := by
  obtain ⟨htext, hinert⟩ := untokenize_intercalate hblocks hsegs
  have hflat : ∀ y ∈ (blocks.foldl resolveBlock segs).flatten, y ≠ '%' ∧ y ≠ '+' := by
    intro y hy
    obtain ⟨s, hs, hys⟩ := List.mem_flatten.mp hy
    exact ⟨fun h => (hinert s hs).percent (h ▸ hys), fun h => (hinert s hs).plus (h ▸ hys)⟩
  rw [readBack, htext, replaceAll_singleton_nil,
    filter_intercalate fun s hs => (hinert s hs).backtick]
  exact decodeInPlace_of_notMem (fun h => (hflat _ h).1 rfl) fun h => (hflat _ h).2 rfl

/-! ## Two parts in backticks -/

/-- What is left of the first part when the separator behind it has been taken for the second. -/
def spoiltFront : StdString := "`_0`_1`".toList

theorem uncut_spoiltFront : Uncut spoiltFront :=
  ⟨by decide, by decide, List.all_eq_true.mp (by decide)⟩

theorem inert_btickBlocks {texts : List StdString} (h : ∀ x ∈ texts, Inert x) :
    ∀ b ∈ btickBlocks texts, Inert b.1 ∧ Inert b.2 := by
  intro b hb
  obtain ⟨j, hj, hkey⟩ := mem_btickBlocks.mp hb
  rw [hkey]
  exact ⟨inert_token j, h b.2 (List.mem_of_getElem? hj)⟩

theorem btickBlocks_two (c₀ c₁ : StdString) :
    btickBlocks [c₀, c₁] = [(token 0, c₀), (token 1, c₁)] := by
  have h₁ : ¬ token 1 < token 0 ∧ token 1 ≠ token 0 := by decide
  simp [btickBlocks, mapAssign, h₁]

theorem btickBlocks_three (c₀ c₁ c₂ : StdString) :
    btickBlocks [c₀, c₁, c₂] = [(token 0, c₀), (token 1, c₁), (token 2, c₂)] := by
  have h₁ : ¬ token 1 < token 0 ∧ token 1 ≠ token 0 := by decide
  have h₂ : ¬ token 2 < token 0 ∧ token 2 ≠ token 0 := by decide
  have h₃ : ¬ token 2 < token 1 ∧ token 2 ≠ token 1 := by decide
  simp [btickBlocks, mapAssign, h₁, h₂, h₃]

theorem readBack_tick {blocks : List (StdString × StdString)}
    (hblocks : ∀ b ∈ blocks, Inert b.1 ∧ Inert b.2) : readBack blocks ['`'] = [] := by
  have hnil : Inert [] := ⟨by simp, by simp, by simp⟩
  have hkept : ∀ blocks : List (StdString × StdString),
      blocks.foldl resolveBlock [[], []] = [[], []] := by
    intro blocks
    induction blocks with
    | nil => rfl
    | cons b blocks ih => exact ih
  have htick : ['`'] = ['`'].intercalate [[], []] := rfl
  rw [htick, readBack_intercalate hblocks (by simpa using hnil), hkept]
  rfl

/-- The separator between two parts in backticks is also the second text: it is replaced by the
token of the second, and the second text is passed over. -/
theorem readLogin_two {p₀ c₀ g tail : StdString} {ps : List (StdString × Bool)}
    (hwrite : writePieces ps = ['`'].intercalate [p₀, c₀, g, g, tail]) (hp : '`' ∉ p₀)
    (hc : '`' ∉ c₀) (hg : '`' ∉ g) (htail : '`' ∉ tail) (hne : g ≠ token 0) :
    readLogin [c₀, g] ps =
      (splitLogin (p₀ ++ (spoiltFront ++ ((if c₀ = g then token 0 else g) ++ '`' :: tail)))).map
        (readBack (btickBlocks [c₀, g])) := by
  have hblocks : btickBlocks [c₀, g] = [(token 0, c₀), (token 1, g)] := btickBlocks_two c₀ g
  have hunquoted : Unquoted (btickBlocks [c₀, g]) := unquoted_btickBlocks (by simpa using ⟨hc, hg⟩)
  have hsegments : tokenSegments (btickBlocks [c₀, g]) [c₀, g, g, tail] =
      [token 0, token 1, if c₀ = g then token 0 else g, tail] := by
    rw [hblocks]
    by_cases hcg : c₀ = g
    · simp [tokenSegments, substitute, hcg, hne.symm]
    · simp [tokenSegments, substitute, hcg, Ne.symm hcg, hne.symm]
  rw [readLogin, hwrite, tokenize_intercalate hunquoted hp (by simpa using ⟨hc, hg, htail⟩),
    hsegments]
  have htext : ['`'].intercalate
      [p₀, token 0, token 1, if c₀ = g then token 0 else g, tail] =
      p₀ ++ (spoiltFront ++ ((if c₀ = g then token 0 else g) ++ '`' :: tail)) := by
    have hfront : spoiltFront = '`' :: (token 0 ++ '`' :: (token 1 ++ ['`'])) := by decide
    rw [intercalate_cons₃, intercalate_cons₃, List.intercalate_singleton, hfront]
    simp
  rw [htext]

theorem uncut_tick : Uncut ['`'] := ⟨by decide, by decide, List.all_eq_true.mp (by decide)⟩

theorem uncut_token_tick : Uncut (token 0 ++ ['`']) :=
  ⟨by decide, by decide, List.all_eq_true.mp (by decide)⟩

theorem inert_nil : Inert [] := ⟨by simp, by simp, by simp⟩

theorem inert_default : Inert ['X'] := ⟨by decide, by decide, by decide⟩

section Two

variable {c₀ : StdString} (hc : Inert c₀)

include hc

theorem inert_twoBlocks {g : StdString} (hg : Inert g) :
    ∀ b ∈ btickBlocks [c₀, g], Inert b.1 ∧ Inert b.2 :=
  inert_btickBlocks (by simpa using ⟨hc, hg⟩)

/-- `user.worker`, both in backticks, with a dot for the worker: no worker is read. -/
theorem worker_lost :
    (readLogin [c₀, ['.']] [(c₀, true), (['.'], false), (['.'], true)]).worker = [] := by
  have hdot : Inert ['.'] := ⟨by decide, by decide, by decide⟩
  have hwrite : writePieces [(c₀, true), (['.'], false), (['.'], true)] =
      ['`'].intercalate [[], c₀, ['.'], ['.'], []] := writePieces_eq _
  have huncut := uncut_spoiltFront.append uncut_token_tick
  have hcut := splitLogin_worker (u := spoiltFront) (w := ['`']) uncut_spoiltFront.line
    uncut_tick.line (by decide) (by decide)
  rw [readLogin_two hwrite (by simp) hc.backtick hdot.backtick (by simp) (by decide),
    List.nil_append]
  split
  · rw [splitLogin_user huncut.noDot huncut.noColon]
    exact readBack_of_inert _ inert_nil
  · rw [List.singleton_append, hcut]
    exact readBack_tick (inert_twoBlocks hc hdot)

/-- The same with a plain password. -/
theorem worker_lost_before_password {p : StdString} (hp : Inert p) (huncut : Uncut p) :
    (readLogin [c₀, ['.']]
      [(c₀, true), (['.'], false), (['.'], true), ([':'], false), (p, false)]).worker = [] := by
  have hdot : Inert ['.'] := ⟨by decide, by decide, by decide⟩
  have hwrite : writePieces
      [(c₀, true), (['.'], false), (['.'], true), ([':'], false), (p, false)] =
      ['`'].intercalate [[], c₀, ['.'], ['.'], ':' :: p] := by
    simpa [layout, segments] using writePieces_eq
      [(c₀, true), (['.'], false), (['.'], true), ([':'], false), (p, false)]
  have hfront := uncut_spoiltFront.append uncut_token_tick
  have hnone := splitLogin_password (u := spoiltFront ++ (token 0 ++ ['`'])) hfront.line
    huncut.line (hfront.noDot_password huncut) huncut.noColon
  have hcut := splitLogin_both (u := spoiltFront) (w := ['`']) uncut_spoiltFront.line
    uncut_tick.line huncut.line uncut_tick.noDot huncut.noColon
  rw [readLogin_two hwrite (by simp) hc.backtick hdot.backtick (by simp [hp.backtick]) (by decide),
    List.nil_append]
  split
  · simp only [List.append_assoc, List.singleton_append] at hnone
    rw [hnone]
    exact readBack_of_inert _ inert_nil
  · rw [List.singleton_append] at hcut
    rw [List.singleton_append, hcut]
    exact readBack_tick (inert_twoBlocks hc hdot)

/-- `user:password`, both in backticks, with a colon for the password. -/
theorem password_lost :
    (readLogin [c₀, [':']] [(c₀, true), ([':'], false), ([':'], true)]).password ∈ [['X'], []] := by
  have hcolon : Inert [':'] := ⟨by decide, by decide, by decide⟩
  have hwrite : writePieces [(c₀, true), ([':'], false), ([':'], true)] =
      ['`'].intercalate [[], c₀, [':'], [':'], []] := writePieces_eq _
  have huncut := uncut_spoiltFront.append uncut_token_tick
  have hcut := splitLogin_password (u := spoiltFront) (p := ['`']) uncut_spoiltFront.line
    uncut_tick.line (by decide) (by decide)
  rw [readLogin_two hwrite (by simp) hc.backtick hcolon.backtick (by simp) (by decide),
    List.nil_append]
  split
  · rw [splitLogin_user huncut.noDot huncut.noColon]
    exact List.mem_cons.mpr (.inl (readBack_of_inert _ inert_default))
  · rw [List.singleton_append, hcut]
    exact List.mem_cons_of_mem _
      (List.mem_singleton.mpr (readBack_tick (inert_twoBlocks hc hcolon)))

/-- The same behind a plain worker, with all of what stands between the two for the password. -/
theorem password_lost_behind_worker {w g : StdString} (hw : Inert w) (huncut : Uncut w)
    (hg : g = '.' :: (w ++ [':'])) :
    (readLogin [c₀, g]
      [(c₀, true), (['.'], false), (w, false), ([':'], false), (g, true)]).password ∈
        [['X'], []] := by
  have hinert : Inert g := by
    rw [hg]
    exact ⟨by simp [hw.backtick], by simp [hw.percent], by simp [hw.plus]⟩
  have hwrite : writePieces
      [(c₀, true), (['.'], false), (w, false), ([':'], false), (g, true)] =
      ['`'].intercalate [[], c₀, g, g, []] := by
    simpa [layout, segments, ← hg] using writePieces_eq
      [(c₀, true), (['.'], false), (w, false), ([':'], false), (g, true)]
  have hne : g ≠ token 0 := fun h =>
    notMem_token (c := '.') (by decide) (by decide) 0 (by rw [← h, hg]; simp)
  have hfront := uncut_spoiltFront.append uncut_token_tick
  have hcut := splitLogin_both (u := spoiltFront) (w := w) (p := ['`']) uncut_spoiltFront.line
    huncut.line uncut_tick.line huncut.noDot uncut_tick.noColon
  rw [readLogin_two hwrite (by simp) hc.backtick hinert.backtick (by simp) hne, List.nil_append]
  split
  · rw [splitLogin_user hfront.noDot hfront.noColon]
    exact List.mem_cons.mpr (.inl (readBack_of_inert _ inert_default))
  · have htext : g ++ ['`'] = '.' :: (w ++ ':' :: ['`']) := by simp [hg]
    rw [htext, hcut]
    exact List.mem_cons_of_mem _
      (List.mem_singleton.mpr (readBack_tick (inert_twoBlocks hc hinert)))

/-- The same behind a plain user, the worker in backticks. -/
theorem password_lost_behind_user {u : StdString} (hu : Inert u) (huncut : Uncut u) :
    (readLogin [c₀, [':']]
      [(u, false), (['.'], false), (c₀, true), ([':'], false), ([':'], true)]).password ∈
        [['X'], []] := by
  have hcolon : Inert [':'] := ⟨by decide, by decide, by decide⟩
  have hwrite : writePieces
      [(u, false), (['.'], false), (c₀, true), ([':'], false), ([':'], true)] =
      ['`'].intercalate [u ++ ['.'], c₀, [':'], [':'], []] := by
    simpa [layout, segments] using writePieces_eq
      [(u, false), (['.'], false), (c₀, true), ([':'], false), ([':'], true)]
  have hback := uncut_spoiltFront.append uncut_token_tick
  have hnone := splitLogin_worker huncut.line hback.line (huncut.noColon_worker hback) hback.noDot
  have hcut := splitLogin_both (w := spoiltFront) (p := ['`']) huncut.line uncut_spoiltFront.line
    uncut_tick.line uncut_spoiltFront.noDot uncut_tick.noColon
  rw [readLogin_two hwrite (by simp [hu.backtick]) hc.backtick hcolon.backtick (by simp)
      (by decide), List.append_assoc, List.singleton_append]
  split
  · rw [hnone]
    exact List.mem_cons.mpr (.inl (readBack_of_inert _ inert_default))
  · rw [List.singleton_append, hcut]
    exact List.mem_cons_of_mem _
      (List.mem_singleton.mpr (readBack_tick (inert_twoBlocks hc hcolon)))

end Two

/-! ## Three parts in backticks: the passes -/

/-- The tokens of three blocks. -/
def tokens : List StdString := [['_', '0'], ['_', '1'], ['_', '2']]

/-- What the passes make of three texts with their separators. -/
def threeSegments (c₀ c₁ c₂ : StdString) : List StdString :=
  substitute c₂ ['_', '2'] <| substitute c₁ ['_', '1'] <| substitute c₀ ['_', '0']
    [c₀, ['.'], c₁, [':'], c₂, []]

/-- A colon for the password: the second separator has become a token. -/
theorem threeSegments_colon (c₀ : StdString) {c₁ : StdString} (hdot : c₁ ≠ ['.']) :
    ∃ s₁ ∈ tokens, ∃ s₃ ∈ tokens, ∃ s₄ ∈ tokens, ∃ s₅ ∈ [':'] :: tokens,
      threeSegments c₀ c₁ [':'] = [s₁, ['.'], s₃, s₄, s₅, []] := by
  have hdot' := hdot.symm
  by_cases hcolon : c₁ = [':']
  · subst hcolon
    by_cases h₀ : c₀ = [':']
    · simp [threeSegments, substitute, tokens, h₀]
    · have h₀' := Ne.symm h₀
      simp [threeSegments, substitute, tokens, *]
  have hcolon' := Ne.symm hcolon
  by_cases htoken : c₁ = ['_', '0']
  · subst htoken
    by_cases h₀ : c₀ = [':']
    · simp [threeSegments, substitute, tokens, h₀]
    have h₀' := Ne.symm h₀
    by_cases hsame : c₀ = ['_', '0']
    · simp [threeSegments, substitute, tokens, hsame]
    · have hsame' := Ne.symm hsame
      simp [threeSegments, substitute, tokens, *]
  have htoken' := Ne.symm htoken
  by_cases h₀ : c₀ = [':']
  · subst h₀
    simp [threeSegments, substitute, tokens, *]
  have h₀' := Ne.symm h₀
  by_cases hsame : c₁ = c₀
  · subst hsame
    simp [threeSegments, substitute, tokens, *]
  · simp [threeSegments, substitute, tokens, *]

/-- A dot for the password: no dot is left. -/
theorem threeSegments_dot {c₀ c₁ : StdString} (hdot : c₁ ≠ ['.']) :
    ∀ s ∈ threeSegments c₀ c₁ ['.'], '.' ∉ s := by
  have hdot' := hdot.symm
  by_cases htoken : c₁ = ['_', '0']
  · subst htoken
    by_cases hsame : c₀ = ['_', '0']
    · simp [threeSegments, substitute, hsame]
    have hsame' := Ne.symm hsame
    by_cases h₀ : c₀ = [':']
    · simp [threeSegments, substitute, h₀]
    have h₀' := Ne.symm h₀
    by_cases h₀d : c₀ = ['.']
    · simp [threeSegments, substitute, h₀d]
    · have h₀d' := Ne.symm h₀d
      simp [threeSegments, substitute, *]
  have htoken' := Ne.symm htoken
  by_cases hsame : c₁ = c₀
  · subst hsame
    by_cases hcolon : c₁ = [':']
    · simp [threeSegments, substitute, hcolon]
    · have hcolon' := Ne.symm hcolon
      simp [threeSegments, substitute, *]
  by_cases h₀ : c₀ = [':']
  · subst h₀
    simp [threeSegments, substitute, *]
  have h₀' := Ne.symm h₀
  by_cases h₀d : c₀ = ['.']
  · subst h₀d
    by_cases hcolon : c₁ = [':']
    · simp [threeSegments, substitute, hcolon]
    · have hcolon' := Ne.symm hcolon
      simp [threeSegments, substitute, *]
  have h₀d' := Ne.symm h₀d
  by_cases hcolon : c₁ = [':']
  · subst hcolon
    simp [threeSegments, substitute, *]
  · have hcolon' := Ne.symm hcolon
    simp [threeSegments, substitute, *]

/-- A colon for the user: no colon is left. -/
theorem threeSegments_colon_user {c₁ c₂ : StdString} (hdot : c₁ ≠ ['.']) (hdot₂ : c₂ ≠ ['.'])
    (hcolon₂ : c₂ ≠ [':']) : ∀ s ∈ threeSegments [':'] c₁ c₂, ':' ∉ s := by
  have hdot' := hdot.symm
  have hdot₂' := hdot₂.symm
  have hcolon₂' := hcolon₂.symm
  by_cases hzero : c₂ = ['_', '0']
  · subst hzero
    by_cases hcolon : c₁ = [':']
    · simp [threeSegments, substitute, hcolon]
    by_cases hsame : c₁ = ['_', '0']
    · simp [threeSegments, substitute, hsame]
    · have hsame' := Ne.symm hsame
      simp [threeSegments, substitute, *]
  have hzero' := Ne.symm hzero
  by_cases hone : c₂ = ['_', '1']
  · subst hone
    by_cases hcolon : c₁ = [':']
    · simp [threeSegments, substitute, hcolon]
    by_cases htoken : c₁ = ['_', '0']
    · simp [threeSegments, substitute, htoken]
    have htoken' := Ne.symm htoken
    by_cases hsame : c₁ = ['_', '1']
    · simp [threeSegments, substitute, hsame]
    · have hsame' := Ne.symm hsame
      simp [threeSegments, substitute, *]
  have hone' := Ne.symm hone
  by_cases hcolon : c₁ = [':']
  · subst hcolon
    simp [threeSegments, substitute, *]
  by_cases htoken : c₁ = ['_', '0']
  · subst htoken
    simp [threeSegments, substitute, *]
  have htoken' := Ne.symm htoken
  by_cases hsame : c₂ = c₁
  · subst hsame
    simp [threeSegments, substitute, *]
  · simp [threeSegments, substitute, *]

/-- A dot for the worker: the first separator has become a token.  If a dot is left, it is the
worker's own. -/
theorem threeSegments_dot_worker (c₀ c₂ : StdString) :
    (∀ s ∈ threeSegments c₀ ['.'] c₂, '.' ∉ s) ∨
      (∃ s₁ ∈ tokens, ∃ s₂ ∈ tokens, ∃ s₅ ∈ tokens,
        threeSegments c₀ ['.'] c₂ = [s₁, s₂, ['.'], [':'], s₅, []]) ∨
      (c₂ = [':'] ∧ ∃ s₁ ∈ tokens, ∃ s₂ ∈ tokens,
        threeSegments c₀ ['.'] c₂ = [s₁, s₂, ['.'], ['_', '2'], [':'], []]) ∨
      (c₀ = [':'] ∧ ∃ s₁ ∈ tokens, ∃ s₂ ∈ tokens,
        threeSegments c₀ ['.'] c₂ = [s₁, s₂, ['.'], ['_', '0'], ['_', '2'], []]) ∨
      (c₀ = [':'] ∧ ∃ s₁ ∈ tokens, ∃ s₂ ∈ tokens,
        threeSegments c₀ ['.'] c₂ = [s₁, s₂, ['.'], ['_', '2'], ['_', '0'], []]) := by
  by_cases hdot : c₂ = ['.']
  · subst hdot
    by_cases h₀ : c₀ = ['.']
    · simp [threeSegments, substitute, h₀]
    have h₀' := Ne.symm h₀
    by_cases hcolon : c₀ = [':']
    · simp [threeSegments, substitute, hcolon]
    · have hcolon' := Ne.symm hcolon
      simp [threeSegments, substitute, *]
  have hdot' := Ne.symm hdot
  by_cases hcolon₂ : c₂ = [':']
  · subst hcolon₂
    by_cases h₀ : c₀ = ['.']
    · simp [threeSegments, substitute, h₀]
    have h₀' := Ne.symm h₀
    by_cases hcolon : c₀ = [':']
    · simp [threeSegments, substitute, tokens, hcolon]
    · have hcolon' := Ne.symm hcolon
      simp [threeSegments, substitute, tokens, *]
  have hcolon₂' := Ne.symm hcolon₂
  by_cases hzero : c₂ = ['_', '0']
  · subst hzero
    by_cases h₀ : c₀ = ['.']
    · simp [threeSegments, substitute, h₀]
    have h₀' := Ne.symm h₀
    by_cases hcolon : c₀ = [':']
    · simp [threeSegments, substitute, tokens, hcolon]
    have hcolon' := Ne.symm hcolon
    by_cases hsame : c₀ = ['_', '0']
    · simp [threeSegments, substitute, tokens, hsame]
    · have hsame' := Ne.symm hsame
      simp [threeSegments, substitute, tokens, *]
  have hzero' := Ne.symm hzero
  by_cases hone : c₂ = ['_', '1']
  · subst hone
    by_cases h₀ : c₀ = ['.']
    · simp [threeSegments, substitute, h₀]
    have h₀' := Ne.symm h₀
    by_cases hcolon : c₀ = [':']
    · simp [threeSegments, substitute, tokens, hcolon]
    have hcolon' := Ne.symm hcolon
    by_cases hsame : c₀ = ['_', '1']
    · simp [threeSegments, substitute, tokens, hsame]
    · have hsame' := Ne.symm hsame
      simp [threeSegments, substitute, tokens, *]
  have hone' := Ne.symm hone
  by_cases h₀ : c₀ = ['.']
  · subst h₀
    simp [threeSegments, substitute, *]
  have h₀' := Ne.symm h₀
  by_cases hcolon : c₀ = [':']
  · subst hcolon
    simp [threeSegments, substitute, tokens, *]
  have hcolon' := Ne.symm hcolon
  by_cases hsame : c₂ = c₀
  · subst hsame
    simp [threeSegments, substitute, tokens, *]
  · simp [threeSegments, substitute, tokens, *]

/-! ## Three parts in backticks: what is read -/

/-- `user.worker:password`, all in backticks. -/
def threeQuoted (c₀ c₁ c₂ : StdString) : List (StdString × Bool) :=
  [(c₀, true), (['.'], false), (c₁, true), ([':'], false), (c₂, true)]

theorem splitLogin_worker_eq_nil {l : StdString} (h : '.' ∉ l) : (splitLogin l).worker = [] := by
  rw [splitLogin, search_userWorkerPassword_eq_none (.inl h)]
  dsimp only
  split
  · rfl
  · rw [userWorker, search_twoParts_eq_none h]

theorem splitLogin_password_eq_default {l : StdString} (h : ':' ∉ l) :
    (splitLogin l).password = ['X'] := by
  rw [splitLogin, search_userWorkerPassword_eq_none (.inr h), userPassword,
    search_twoParts_eq_none h]
  dsimp only
  split
  · rfl
  · rfl

theorem notMem_intercalate {y : Char} {segs : List StdString} (hy : y ≠ '`')
    (h : ∀ s ∈ segs, y ∉ s) : y ∉ ['`'].intercalate segs := by
  induction segs with
  | nil => simp
  | cons s segs ih =>
    have hs : y ∉ s := h s List.mem_cons_self
    have hrest := ih fun s' hs' => h s' (List.mem_cons_of_mem _ hs')
    cases segs with
    | nil => rwa [List.intercalate_singleton]
    | cons s' segs =>
      rw [List.intercalate_cons_cons]
      simp [hs, hy, hrest]

theorem uncut_intercalate {segs : List StdString} (h : ∀ s ∈ segs, Uncut s) :
    Uncut (['`'].intercalate segs) := by
  induction segs with
  | nil => exact ⟨by simp, by simp, by simp⟩
  | cons s segs ih =>
    have hs : Uncut s := h s List.mem_cons_self
    have hrest := ih fun s' hs' => h s' (List.mem_cons_of_mem _ hs')
    cases segs with
    | nil => rwa [List.intercalate_singleton]
    | cons s' segs =>
      rw [List.intercalate_cons_cons]
      exact (hs.append uncut_tick).append hrest

section Three

variable {c₀ c₁ c₂ : StdString}

/-- The blocks of three texts. -/
def threeBlocks (c₀ c₁ c₂ : StdString) : List (StdString × StdString) :=
  [(['_', '0'], c₀), (['_', '1'], c₁), (['_', '2'], c₂)]

theorem btickBlocks_eq_threeBlocks : btickBlocks [c₀, c₁, c₂] = threeBlocks c₀ c₁ c₂ :=
  btickBlocks_three c₀ c₁ c₂

variable (h₀ : Inert c₀) (h₁ : Inert c₁) (h₂ : Inert c₂)

include h₀ h₁ h₂

theorem inert_threeBlocks : ∀ b ∈ threeBlocks c₀ c₁ c₂, Inert b.1 ∧ Inert b.2 := by
  rw [← btickBlocks_eq_threeBlocks]
  exact inert_btickBlocks (by simpa using ⟨h₀, h₁, h₂⟩)

theorem readLogin_three :
    readLogin [c₀, c₁, c₂] (threeQuoted c₀ c₁ c₂) =
      (splitLogin (['`'].intercalate ([] :: threeSegments c₀ c₁ c₂))).map
        (readBack (threeBlocks c₀ c₁ c₂)) := by
  have hblocks : Unquoted (threeBlocks c₀ c₁ c₂) := fun b hb =>
    ⟨(inert_threeBlocks h₀ h₁ h₂ b hb).1.backtick, (inert_threeBlocks h₀ h₁ h₂ b hb).2.backtick⟩
  have hwrite : writePieces (threeQuoted c₀ c₁ c₂) =
      ['`'].intercalate [[], c₀, ['.'], c₁, [':'], c₂, []] := writePieces_eq _
  have hsegs : ∀ s ∈ [c₀, ['.'], c₁, [':'], c₂, []], '`' ∉ s := by
    simp [h₀.backtick, h₁.backtick, h₂.backtick]
  rw [readLogin, btickBlocks_eq_threeBlocks, hwrite, tokenize_intercalate hblocks (by simp) hsegs]
  rfl

theorem readBack_three {segs : List StdString} (hsegs : ∀ s ∈ segs, s ∈ [] :: tokens) :
    readBack (threeBlocks c₀ c₁ c₂) (['`'].intercalate segs) =
      ((threeBlocks c₀ c₁ c₂).foldl resolveBlock segs).flatten := by
  have hinert : ∀ s ∈ [] :: tokens, '`' ∉ s ∧ '%' ∉ s ∧ '+' ∉ s := by decide
  refine readBack_intercalate (inert_threeBlocks h₀ h₁ h₂) fun s hs => ?_
  obtain ⟨htick, hpercent, hplus⟩ := hinert s (hsegs s hs)
  exact ⟨htick, hpercent, hplus⟩

omit h₀ h₁ h₂ in
theorem uncut_three (segs : List StdString) (hsegs : ∀ s ∈ segs, s ∈ [] :: tokens) :
    Uncut (['`'].intercalate segs) := by
  have huncut : ∀ s ∈ [] :: tokens, '.' ∉ s ∧ ':' ∉ s ∧ s.all dot = true := by decide
  refine uncut_intercalate fun s hs => ?_
  obtain ⟨hdot, hcolon, hline⟩ := huncut s (hsegs s hs)
  exact ⟨hdot, hcolon, List.all_eq_true.mp hline⟩

/-- A dot for the worker never comes back. -/
theorem worker_ne_of_dot (hdot : c₁ = ['.']) :
    (readLogin [c₀, c₁, c₂] (threeQuoted c₀ c₁ c₂)).worker ≠ c₁ := by
  have hblocks := inert_threeBlocks h₀ h₁ h₂
  rw [readLogin_three h₀ h₁ h₂, Login.worker_map]
  subst hdot
  -- A worker that is read begins behind the dot that is left, with the backtick there.
  have hcut : ∀ s₁ s₂ s₄ s₅ : StdString,
      ['`'].intercalate [[], s₁, s₂, ['.'], s₄, s₅, []] =
        ['`'].intercalate [[], s₁, s₂, []] ++ '.' :: ['`'].intercalate [[], s₄, s₅, []] :=
    fun s₁ s₂ s₄ s₅ => intercalate_append_singleton_cons '.' [[], s₁, s₂] [s₄, s₅, []]
  rcases threeSegments_dot_worker c₀ c₂ with hfree | ⟨s₁, hs₁, s₂, hs₂, s₅, hs₅, hsegs⟩ |
    ⟨rfl, s₁, hs₁, s₂, hs₂, hsegs⟩ | ⟨rfl, s₁, hs₁, s₂, hs₂, hsegs⟩ | ⟨rfl, s₁, hs₁, s₂, hs₂, hsegs⟩
  · rw [splitLogin_worker_eq_nil (notMem_intercalate (by decide) (by simpa using hfree)),
      readBack_of_inert _ inert_nil]
    decide
  · have hcolon : ['`'].intercalate [[], [':'], s₅, []] =
        ['`'] ++ ':' :: ['`'].intercalate [[], s₅, []] :=
      intercalate_append_singleton_cons ':' [[]] [s₅, []]
    have hu := uncut_three [[], s₁, s₂, []] (by simp [hs₁, hs₂])
    have hp := uncut_three [[], s₅, []] (by simp [hs₅])
    rw [hsegs, hcut, hcolon, splitLogin_both hu.line uncut_tick.line hp.line uncut_tick.noDot
      hp.noColon, readBack_tick hblocks]
    decide
  · have hcolon : ['`'].intercalate [[], ['_', '2'], [':'], []] =
        ['`'].intercalate [[], ['_', '2'], []] ++ ':' :: ['`'] :=
      intercalate_append_singleton_cons ':' [[], ['_', '2']] [[]]
    have hu := uncut_three [[], s₁, s₂, []] (by simp [hs₁, hs₂])
    have hw := uncut_three [[], ['_', '2'], []] (by decide)
    rw [hsegs, hcut, hcolon, splitLogin_both hu.line hw.line uncut_tick.line hw.noDot
      uncut_tick.noColon, readBack_three h₀ h₁ h₂ (by decide)]
    simp [threeBlocks, resolveBlock, resolve]
  · have hu := uncut_three [[], s₁, s₂, []] (by simp [hs₁, hs₂])
    have hw := uncut_three [[], ['_', '0'], ['_', '2'], []] (by decide)
    rw [hsegs, hcut, splitLogin_worker hu.line hw.line (hu.noColon_worker hw) hw.noDot,
      readBack_three h₀ h₁ h₂ (by decide)]
    simp [threeBlocks, resolveBlock, resolve]
  · have hu := uncut_three [[], s₁, s₂, []] (by simp [hs₁, hs₂])
    have hw := uncut_three [[], ['_', '2'], ['_', '0'], []] (by decide)
    rw [hsegs, hcut, splitLogin_worker hu.line hw.line (hu.noColon_worker hw) hw.noDot,
      readBack_three h₀ h₁ h₂ (by decide)]
    simp [threeBlocks, resolveBlock, resolve]

/-- A colon for the password never comes back. -/
theorem password_ne_of_colon (hdot : c₁ ≠ ['.']) (hcolon : c₂ = [':']) :
    (readLogin [c₀, c₁, c₂] (threeQuoted c₀ c₁ c₂)).password ≠ c₂ := by
  rw [readLogin_three h₀ h₁ h₂, Login.password_map]
  subst hcolon
  obtain ⟨s₁, hs₁, s₃, hs₃, s₄, hs₄, s₅, hs₅, hsegs⟩ := threeSegments_colon c₀ hdot
  have hcut : ['`'].intercalate [[], s₁, ['.'], s₃, s₄, s₅, []] =
      ['`'].intercalate [[], s₁, []] ++ '.' :: ['`'].intercalate [[], s₃, s₄, s₅, []] :=
    intercalate_append_singleton_cons '.' [[], s₁] [s₃, s₄, s₅, []]
  have hu := uncut_three [[], s₁, []] (by simp [hs₁])
  rw [hsegs, hcut]
  rcases List.mem_cons.mp hs₅ with rfl | hs₅
  · have hpassword : ['`'].intercalate [[], s₃, s₄, [':'], []] =
        ['`'].intercalate [[], s₃, s₄, []] ++ ':' :: ['`'] :=
      intercalate_append_singleton_cons ':' [[], s₃, s₄] [[]]
    have hw := uncut_three [[], s₃, s₄, []] (by simp [hs₃, hs₄])
    rw [hpassword, splitLogin_both hu.line hw.line uncut_tick.line hw.noDot uncut_tick.noColon,
      readBack_tick (inert_threeBlocks h₀ h₁ h₂)]
    decide
  · have hw := uncut_three [[], s₃, s₄, s₅, []] (by simp [hs₃, hs₄, hs₅])
    rw [splitLogin_password_eq_default (hu.noColon_worker hw), readBack_of_inert _ inert_default]
    decide

/-- Without a dot all before the colon is the user. -/
theorem user_of_segments {s₁ s₂ s₃ s₅ : StdString} (hs₁ : s₁ ∈ tokens) (hs₂ : s₂ ∈ tokens)
    (hs₃ : s₃ ∈ tokens) (hs₅ : s₅ ∈ tokens)
    (hsegs : threeSegments c₀ c₁ c₂ = [s₁, s₂, s₃, [':'], s₅, []]) :
    (readLogin [c₀, c₁, c₂] (threeQuoted c₀ c₁ c₂)).user =
      ((threeBlocks c₀ c₁ c₂).foldl resolveBlock [[], s₁, s₂, s₃, []]).flatten := by
  have hcut : ['`'].intercalate [[], s₁, s₂, s₃, [':'], s₅, []] =
      ['`'].intercalate [[], s₁, s₂, s₃, []] ++ ':' :: ['`'].intercalate [[], s₅, []] :=
    intercalate_append_singleton_cons ':' [[], s₁, s₂, s₃] [s₅, []]
  have hsub : ∀ s ∈ [[], s₁, s₂, s₃, []], s ∈ [] :: tokens := by simp [hs₁, hs₂, hs₃]
  have hu := uncut_three [[], s₁, s₂, s₃, []] hsub
  have hp := uncut_three [[], s₅, []] (by simp [hs₅])
  rw [readLogin_three h₀ h₁ h₂, hsegs, hcut,
    splitLogin_password hu.line hp.line (hu.noDot_password hp) hp.noColon]
  exact readBack_three h₀ h₁ h₂ hsub

/-- With a dot for the password the worker is lost, and what was the separator becomes part of the
user. -/
theorem login_ne_of_dot (hdot : c₁ ≠ ['.']) (hdot₂ : c₂ = ['.']) :
    readLogin [c₀, c₁, c₂] (threeQuoted c₀ c₁ c₂) ≠ ⟨c₀, c₁, c₂⟩ := by
  subst hdot₂
  intro hlogin
  have hfree : '.' ∉ ['`'].intercalate ([] :: threeSegments c₀ c₁ ['.']) :=
    notMem_intercalate (by decide) (by simpa using threeSegments_dot hdot)
  have hworker : c₁ = [] := by
    have h := congrArg Login.worker hlogin
    rw [readLogin_three h₀ h₁ h₂, Login.map, splitLogin_worker_eq_nil hfree,
      readBack_of_inert _ inert_nil] at h
    exact h.symm
  subst hworker
  have hlength := congrArg (fun l => l.user.length) hlogin
  by_cases hcolon : c₀ = [':']
  · subst hcolon
    have hsegs : threeSegments [':'] [] ['.'] =
        [['_', '0'], ['_', '2'], ['_', '1'], ['_', '0'], ['_', '2'], []] := by decide
    have h := congrArg Login.password hlogin
    rw [readLogin_three h₀ h₁ h₂, hsegs, Login.map, splitLogin_password_eq_default (by decide),
      readBack_of_inert _ inert_default] at h
    exact absurd h (by decide)
  have hcolon' := Ne.symm hcolon
  by_cases hnil : c₀ = []
  · have hsegs : threeSegments c₀ [] ['.'] =
        [['_', '0'], ['_', '2'], ['_', '0'], [':'], ['_', '2'], []] := by
      simp [threeSegments, substitute, hnil]
    simp only [user_of_segments h₀ h₁ h₂ (by decide) (by decide) (by decide) (by decide) hsegs]
      at hlength
    simp [threeBlocks, resolveBlock, resolve, hnil] at hlength
  have hnil' := Ne.symm hnil
  obtain ⟨s₅, hs₅, hsegs⟩ : ∃ s₅ ∈ tokens, threeSegments c₀ [] ['.'] =
      [['_', '0'], ['_', '2'], ['_', '1'], [':'], s₅, []] := by
    by_cases hdot₀ : c₀ = ['.']
    · simp [threeSegments, substitute, tokens, hdot₀]
    · have hdot₀' := Ne.symm hdot₀
      simp [threeSegments, substitute, tokens, *]
  simp only [user_of_segments h₀ h₁ h₂ (by decide) (by decide) (by decide) hs₅ hsegs] at hlength
  simp [threeBlocks, resolveBlock, resolve] at hlength

/-- Without a colon all behind the first dot is the worker. -/
theorem login_of_segments {s₁ s₃ s₄ s₅ : StdString} (hs₁ : s₁ ∈ tokens) (hs₃ : s₃ ∈ tokens)
    (hs₄ : s₄ ∈ tokens) (hs₅ : s₅ ∈ tokens)
    (hsegs : threeSegments c₀ c₁ c₂ = [s₁, ['.'], s₃, s₄, s₅, []]) :
    readLogin [c₀, c₁, c₂] (threeQuoted c₀ c₁ c₂) =
      { user := ((threeBlocks c₀ c₁ c₂).foldl resolveBlock [[], s₁, []]).flatten
        worker := ((threeBlocks c₀ c₁ c₂).foldl resolveBlock [[], s₃, s₄, s₅, []]).flatten } := by
  have hcut : ['`'].intercalate [[], s₁, ['.'], s₃, s₄, s₅, []] =
      ['`'].intercalate [[], s₁, []] ++ '.' :: ['`'].intercalate [[], s₃, s₄, s₅, []] :=
    intercalate_append_singleton_cons '.' [[], s₁] [s₃, s₄, s₅, []]
  have hsub₁ : ∀ s ∈ [[], s₁, []], s ∈ [] :: tokens := by simp [hs₁]
  have hsub₂ : ∀ s ∈ [[], s₃, s₄, s₅, []], s ∈ [] :: tokens := by simp [hs₃, hs₄, hs₅]
  have hu := uncut_three _ hsub₁
  have hw := uncut_three _ hsub₂
  rw [readLogin_three h₀ h₁ h₂, hsegs, hcut,
    splitLogin_worker hu.line hw.line (hu.noColon_worker hw) hw.noDot, Login.map,
    readBack_three h₀ h₁ h₂ hsub₁, readBack_three h₀ h₁ h₂ hsub₂,
    readBack_of_inert _ inert_default]

/-- With a colon for the user the password is lost.  The default password hides that, and then the
worker is wrong, except for one text. -/
theorem login_eq_iff_of_colon (hdot : c₁ ≠ ['.']) (hcolon : c₀ = [':']) (hdot₂ : c₂ ≠ ['.'])
    (hcolon₂ : c₂ ≠ [':']) :
    readLogin [c₀, c₁, c₂] (threeQuoted c₀ c₁ c₂) = ⟨c₀, c₁, c₂⟩ ↔
      c₁ = "_1:_2".toList ∧ c₂ = ['X'] := by
  subst hcolon
  have hfree : ':' ∉ ['`'].intercalate ([] :: threeSegments [':'] c₁ c₂) :=
    notMem_intercalate (by decide) (by simpa using threeSegments_colon_user hdot hdot₂ hcolon₂)
  by_cases hdefault : c₂ = ['X']
  swap
  · refine iff_of_false (fun hlogin => ?_) fun h => hdefault h.2
    have h := congrArg Login.password hlogin
    rw [readLogin_three h₀ h₁ h₂, Login.map, splitLogin_password_eq_default hfree,
      readBack_of_inert _ inert_default] at h
    exact hdefault h.symm
  subst hdefault
  have hdot' := hdot.symm
  rw [and_iff_left rfl]
  by_cases hcolon : c₁ = [':']
  · subst hcolon
    have hsegs : threeSegments [':'] [':'] ['X'] =
        [['_', '0'], ['.'], ['_', '0'], ['_', '1'], ['_', '2'], []] := by decide
    rw [login_of_segments h₀ h₁ h₂ (by decide) (by decide) (by decide) (by decide) hsegs]
    decide
  have hcolon' := Ne.symm hcolon
  by_cases htoken : c₁ = ['_', '0']
  · subst htoken
    have hsegs : threeSegments [':'] ['_', '0'] ['X'] =
        [['_', '1'], ['.'], ['_', '1'], ['_', '0'], ['_', '2'], []] := by decide
    rw [login_of_segments h₀ h₁ h₂ (by decide) (by decide) (by decide) (by decide) hsegs]
    decide
  have htoken' := Ne.symm htoken
  by_cases hsame : c₁ = ['X']
  · subst hsame
    have hsegs : threeSegments [':'] ['X'] ['X'] =
        [['_', '0'], ['.'], ['_', '1'], ['_', '0'], ['_', '1'], []] := by decide
    rw [login_of_segments h₀ h₁ h₂ (by decide) (by decide) (by decide) (by decide) hsegs]
    decide
  have hsame' := Ne.symm hsame
  -- What comes back for the worker does not depend on the worker.
  have hsegs : threeSegments [':'] c₁ ['X'] =
      [['_', '0'], ['.'], ['_', '1'], ['_', '0'], ['_', '2'], []] := by
    simp [threeSegments, substitute, *]
  have huser : ((threeBlocks [':'] c₁ ['X']).foldl resolveBlock [[], ['_', '0'], []]).flatten =
      [':'] := by
    simp [threeBlocks, resolveBlock, resolve]
  have hworker : ((threeBlocks [':'] c₁ ['X']).foldl resolveBlock
      [[], ['_', '1'], ['_', '0'], ['_', '2'], []]).flatten = "_1:_2".toList := by
    simp [threeBlocks, resolveBlock, resolve]
  rw [login_of_segments h₀ h₁ h₂ (by decide) (by decide) (by decide) (by decide) hsegs, huser,
    hworker, Login.mk.injEq]
  exact ⟨fun h => h.2.1.symm, fun h => ⟨rfl, h.symm, rfl⟩⟩

end Three

/-- **Three parts in backticks, one of them a separator of the others.** -/
theorem readLogin_three_eq_iff {c₀ c₁ c₂ : StdString} (h₀ : Inert c₀) (h₁ : Inert c₁)
    (h₂ : Inert c₂) (hclash : c₁ = ['.'] ∨ c₂ = ['.'] ∨ c₀ = [':'] ∨ c₂ = [':']) :
    readLogin [c₀, c₁, c₂] (threeQuoted c₀ c₁ c₂) = ⟨c₀, c₁, c₂⟩ ↔
      c₀ = [':'] ∧ c₁ = "_1:_2".toList ∧ c₂ = ['X'] := by
  by_cases hdot : c₁ = ['.']
  · refine iff_of_false (fun h => worker_ne_of_dot h₀ h₁ h₂ hdot (congrArg Login.worker h)) ?_
    rintro ⟨-, h, -⟩
    exact absurd (hdot.symm.trans h) (by decide)
  by_cases hdot₂ : c₂ = ['.']
  · refine iff_of_false (login_ne_of_dot h₀ h₁ h₂ hdot hdot₂) ?_
    rintro ⟨-, -, h⟩
    exact absurd (hdot₂.symm.trans h) (by decide)
  by_cases hcolon₂ : c₂ = [':']
  · refine iff_of_false
      (fun h => password_ne_of_colon h₀ h₁ h₂ hdot hcolon₂ (congrArg Login.password h)) ?_
    rintro ⟨-, -, h⟩
    exact absurd (hcolon₂.symm.trans h) (by decide)
  have hcolon : c₀ = [':'] := by simpa [hdot, hdot₂, hcolon₂] using hclash
  rw [login_eq_iff_of_colon h₀ h₁ h₂ hdot hcolon hdot₂ hcolon₂, and_iff_right hcolon]

/-! ## Credentials with a quoted separator -/

theorem undisturbed_nil (texts : List StdString) : Undisturbed [] texts := by
  intro i j g hg
  simp at hg

theorem eq_of_not_undisturbed_two {g c₀ c₁ : StdString} (h : ¬ Undisturbed [g] [c₀, c₁]) :
    c₁ = g := by
  by_contra hne
  refine h fun i j g' hg' hj => ?_
  obtain ⟨rfl, rfl⟩ : i = 0 ∧ g = g' := by
    cases i with
    | zero => exact ⟨rfl, by simpa using hg'⟩
    | succ i => simp at hg'
  match j with
  | 0 => rfl
  | 1 => exact absurd (by simpa using hj) hne
  | j + 2 => simp at hj

theorem eq_of_not_undisturbed_three {g g' c₀ c₁ c₂ : StdString}
    (h : ¬ Undisturbed [g, g'] [c₀, c₁, c₂]) : c₁ = g ∨ c₂ = g ∨ c₀ = g' ∨ c₂ = g' := by
  by_contra hne
  obtain ⟨h₁, h₂, h₃, h₄⟩ : c₁ ≠ g ∧ c₂ ≠ g ∧ c₀ ≠ g' ∧ c₂ ≠ g' := by
    simpa [not_or] using hne
  refine h fun i j x hi hj => ?_
  match i, j with
  | 0, 0 => rfl
  | 0, 1 => exact absurd (by simp_all) h₁
  | 0, 2 => exact absurd (by simp_all) h₂
  | 1, 0 => exact absurd (by simp_all) h₃
  | 1, 1 => rfl
  | 1, 2 => exact absurd (by simp_all) h₄
  | i + 2, _ => simp at hi
  | _, j + 3 => simp at hj

section Disturbed

variable {u w p : Part}

theorem Credentials.pieces_user : pieces ⟨u, none, none⟩ = [(u.text, u.quoted)] := rfl

theorem Credentials.pieces_password :
    pieces ⟨u, none, some p⟩ = [(u.text, u.quoted), ([':'], false), (p.text, p.quoted)] := rfl

theorem Credentials.pieces_worker :
    pieces ⟨u, some w, none⟩ = [(u.text, u.quoted), (['.'], false), (w.text, w.quoted)] := rfl

theorem Credentials.pieces_both :
    pieces ⟨u, some w, some p⟩ =
      [(u.text, u.quoted), (['.'], false), (w.text, w.quoted), ([':'], false),
        (p.text, p.quoted)] := rfl

/-- `user:password`. -/
theorem login_ne_of_disturbed_password
    (h : ¬ Undisturbed (gaps (Credentials.pieces ⟨u, none, some p⟩))
      (quotedTexts (Credentials.pieces ⟨u, none, some p⟩))) :
    (readLogin (quotedTexts (Credentials.pieces ⟨u, none, some p⟩))
      (Credentials.pieces ⟨u, none, some p⟩)).password ≠ p.text := by
  rw [Credentials.pieces_password] at h ⊢
  cases huq : u.quoted <;> cases hpq : p.quoted <;> rw [huq, hpq] at h
  · exact absurd (undisturbed_nil _) h
  · exact absurd (undisturbed_nil _) h
  · exact absurd (undisturbed_nil _) h
  · have hclash : p.text = [':'] := eq_of_not_undisturbed_two h
    have hlost := password_lost u.inert
    rw [hclash]
    intro hback
    exact absurd (hback ▸ hlost) (by decide)

/-- `user.worker`. -/
theorem login_ne_of_disturbed_worker
    (h : ¬ Undisturbed (gaps (Credentials.pieces ⟨u, some w, none⟩))
      (quotedTexts (Credentials.pieces ⟨u, some w, none⟩))) :
    (readLogin (quotedTexts (Credentials.pieces ⟨u, some w, none⟩))
      (Credentials.pieces ⟨u, some w, none⟩)).worker ≠ w.text := by
  rw [Credentials.pieces_worker] at h ⊢
  cases huq : u.quoted <;> cases hwq : w.quoted <;> rw [huq, hwq] at h
  · exact absurd (undisturbed_nil _) h
  · exact absurd (undisturbed_nil _) h
  · exact absurd (undisturbed_nil _) h
  · have hclash : w.text = ['.'] := eq_of_not_undisturbed_two h
    have hlost := worker_lost u.inert
    rw [hclash]
    intro hback
    exact absurd (hback.symm.trans hlost) (by decide)

/-- `user.worker:password`. -/
theorem login_eq_iff_of_disturbed_both
    (hline : ∀ q ∈ Credentials.parts ⟨u, some w, some p⟩, ∀ y ∈ q.text, dot y = true)
    (h : ¬ Undisturbed (gaps (Credentials.pieces ⟨u, some w, some p⟩))
      (quotedTexts (Credentials.pieces ⟨u, some w, some p⟩))) :
    readLogin (quotedTexts (Credentials.pieces ⟨u, some w, some p⟩))
        (Credentials.pieces ⟨u, some w, some p⟩) = ⟨u.text, w.text, p.text⟩ ↔
      Credentials.pieces ⟨u, some w, some p⟩ = threeQuoted [':'] "_1:_2".toList ['X'] := by
  have hplain : ∀ q ∈ Credentials.parts ⟨u, some w, some p⟩, q.quoted = false → Uncut q.text :=
    fun q hq hquoted => ⟨fun h => q.plain hquoted _ h (by simp),
      fun h => q.plain hquoted _ h (by simp), hline q hq⟩
  rw [Credentials.pieces_both] at h ⊢
  cases huq : u.quoted <;> cases hwq : w.quoted <;> cases hpq : p.quoted <;>
    rw [huq, hwq, hpq] at h
  · exact absurd (undisturbed_nil _) h
  · exact absurd (undisturbed_nil _) h
  · exact absurd (undisturbed_nil _) h
  · -- The worker and the password are in backticks.
    have hclash : p.text = [':'] := eq_of_not_undisturbed_two h
    have hlost := password_lost_behind_user w.inert u.inert
      (hplain u (by simp [Credentials.parts]) huq)
    refine iff_of_false (fun hlogin => ?_) (by simp [threeQuoted])
    have hback : _ = p.text := congrArg Login.password hlogin
    rw [hclash] at hback
    exact absurd (hback ▸ hlost) (by decide)
  · exact absurd (undisturbed_nil _) h
  · -- The user and the password.
    have hclash : p.text = '.' :: (w.text ++ [':']) := by
      have hgap := eq_of_not_undisturbed_two h
      simpa [layout] using hgap
    have hlost := password_lost_behind_worker u.inert w.inert
      (hplain w (by simp [Credentials.parts]) hwq) hclash
    refine iff_of_false (fun hlogin => ?_) (by simp [threeQuoted])
    have hback : (readLogin [u.text, p.text] _).password = p.text :=
      congrArg Login.password hlogin
    rw [hback, hclash] at hlost
    simp at hlost
  · -- The user and the worker.
    have hclash : w.text = ['.'] := eq_of_not_undisturbed_two h
    have hlost := worker_lost_before_password u.inert p.inert
      (hplain p (by simp [Credentials.parts]) hpq)
    refine iff_of_false (fun hlogin => ?_) (by simp [threeQuoted])
    have hback : _ = w.text := congrArg Login.worker hlogin
    rw [hclash] at hback
    exact absurd (hback.symm.trans hlost) (by decide)
  · -- All three.
    have hclash : w.text = ['.'] ∨ p.text = ['.'] ∨ u.text = [':'] ∨ p.text = [':'] :=
      eq_of_not_undisturbed_three h
    have hpieces :
        [(u.text, true), (['.'], false), (w.text, true), ([':'], false), (p.text, true)] =
          threeQuoted [':'] "_1:_2".toList ['X'] ↔
        u.text = [':'] ∧ w.text = "_1:_2".toList ∧ p.text = ['X'] := by
      simp [threeQuoted]
    have hlogin : readLogin [u.text, w.text, p.text] (threeQuoted u.text w.text p.text) =
        ⟨u.text, w.text, p.text⟩ ↔
        u.text = [':'] ∧ w.text = "_1:_2".toList ∧ p.text = ['X'] :=
      readLogin_three_eq_iff u.inert w.inert p.inert hclash
    exact hlogin.trans hpieces.symm

end Disturbed

/-- **With a quoted separator** the credentials do not come back, one case apart. -/
theorem readLogin_eq_iff_of_disturbed {c : Credentials}
    (hline : ∀ p ∈ c.parts, ∀ y ∈ p.text, dot y = true)
    (h : ¬ Undisturbed (gaps c.pieces) (quotedTexts c.pieces)) :
    readLogin (quotedTexts c.pieces) c.pieces = c.login ↔
      c.pieces = threeQuoted [':'] "_1:_2".toList ['X'] := by
  obtain ⟨user, worker, password⟩ := c
  cases worker with
  | none =>
    cases password with
    | none =>
      refine absurd ?_ h
      rw [Credentials.pieces_user]
      cases user.quoted <;> exact undisturbed_nil _
    | some p =>
      refine iff_of_false (fun hlogin => ?_)
        (by simp [Credentials.pieces_password, threeQuoted])
      exact login_ne_of_disturbed_password h (congrArg Login.password hlogin)
  | some w =>
    cases password with
    | none =>
      refine iff_of_false (fun hlogin => ?_) (by simp [Credentials.pieces_worker, threeQuoted])
      exact login_ne_of_disturbed_worker h (congrArg Login.worker hlogin)
    | some p => exact login_eq_iff_of_disturbed_both hline h

/-! ## Quoted tokens -/

/-- No text is taken for the token of an earlier one, for at most three texts: the second text is
not the first token, and the third is neither the first nor the second, unless the text that is
behind the token is the same. -/
def TokenSafe : List StdString → Prop
  | [c₀, c₁] => c₁ = ['_', '0'] → c₀ = ['_', '0']
  | [c₀, c₁, c₂] =>
    (c₁ = ['_', '0'] → c₀ = ['_', '0']) ∧ (c₂ = ['_', '0'] → c₀ = ['_', '0']) ∧
      (c₂ = ['_', '1'] → c₁ = ['_', '1'] ∨ c₁ = c₀ ∧ c₀ ≠ ['_', '0'])
  | _ => True

theorem forall_unmistaken_iff {texts : List StdString} (hlen : texts.length ≤ 3) :
    (∀ x ∈ texts, Unmistaken texts x) ↔ TokenSafe texts := by
  match texts with
  | [] => simp [TokenSafe]
  | [c₀] =>
    have hblocks : btickBlocks [c₀] = [(token 0, c₀)] := rfl
    simp [TokenSafe, Unmistaken, hblocks, renamed]
  | [c₀, c₁] =>
    have hblocks : btickBlocks [c₀, c₁] = [(['_', '0'], c₀), (['_', '1'], c₁)] :=
      btickBlocks_two c₀ c₁
    rw [List.forall_mem_cons, List.forall_mem_singleton]
    simp only [Unmistaken, renamed, hblocks, TokenSafe, List.foldl_cons, List.foldl_nil,
      List.mem_cons, Prod.mk.injEq, List.not_mem_nil]
    grind
  | [c₀, c₁, c₂] =>
    rw [List.forall_mem_cons, List.forall_mem_cons, List.forall_mem_singleton]
    simp only [Unmistaken, renamed, btickBlocks_eq_threeBlocks, threeBlocks, TokenSafe,
      List.foldl_cons, List.foldl_nil, List.mem_cons, Prod.mk.injEq, List.not_mem_nil]
    grind
  | _ :: _ :: _ :: _ :: _ =>
    simp only [List.length_cons] at hlen
    omega

/-! ## Which credentials come back -/

/-- The parts in backticks are neither separators nor tokens of each other; or they are the three
for which two mistakes cancel out. -/
def Credentials.Safe (c : Credentials) : Prop :=
  (Undisturbed (gaps c.pieces) (quotedTexts c.pieces) ∧ TokenSafe (quotedTexts c.pieces)) ∨
    c.pieces = threeQuoted [':'] "_1:_2".toList ['X']

/-- Credentials in one line, for a place without texts in backticks. -/
theorem readLogin_eq_iff_safe {c : Credentials}
    (hline : ∀ p ∈ c.parts, ∀ y ∈ p.text, dot y = true) :
    readLogin (quotedTexts c.pieces) c.pieces = c.login ↔ c.Safe := by
  by_cases hsafe : Undisturbed (gaps c.pieces) (quotedTexts c.pieces)
  · have hother : c.pieces ≠ threeQuoted [':'] "_1:_2".toList ['X'] := by
      intro heq
      rw [heq] at hsafe
      exact absurd (hsafe 1 0 [':'] rfl rfl) (by decide)
    have hiff := readLogin_eq_iff [] (by simp) hline (by rwa [List.append_nil])
    rw [List.append_nil, c.forall_quoted_iff, forall_unmistaken_iff c.length_quotedTexts_le] at hiff
    rw [hiff, Credentials.Safe, or_iff_left hother, and_iff_right hsafe]
  · rw [readLogin_eq_iff_of_disturbed hline hsafe, Credentials.Safe,
      or_iff_right fun h => hsafe h.1]

/-- **Credentials in an address.**

* With a line break in the address, nothing is read: only what is there by default comes back.
* For a place without texts in backticks, the credentials come back exactly if the place is accepted
  and the parts in backticks are safe.
* For any place, if no text in backticks is what stands between two parts, they come back exactly if
  the place is accepted and no part ends up with the token of another text. -/
theorem recovered_iff (fromString : StdString → Option IpAddress) (c : Credentials)
    (d : Destination) :
    ((¬ ∀ y ∈ authorityOf c d, dot y = true) → (Recovered fromString c d ↔ c.login = {})) ∧
    ((∀ y ∈ authorityOf c d, dot y = true) → enclosedTexts '`' d.place = [] →
      (Recovered fromString c d ↔ d.Accepted ∧ c.Safe)) ∧
    ((∀ y ∈ authorityOf c d, dot y = true) → Undisturbed (gaps c.pieces) (allTexts c d) →
      (Recovered fromString c d ↔
        d.Accepted ∧ ∀ p ∈ c.parts, p.quoted = true → Unmistaken (allTexts c d) p.text)) := by
  refine ⟨recovered_of_lineBreak, fun hline hplace => ?_, fun hline hsafe => ?_⟩
  · have htexts : allTexts c d = quotedTexts c.pieces := by
      rw [allTexts, hplace, List.append_nil]
    rw [recovered_iff_of_line hline, htexts,
      readLogin_eq_iff_safe (Credentials.line_of_authority hline)]
  · rw [recovered_iff_of_line hline, allTexts,
      readLogin_eq_iff _ (fun x hx => notMem_of_mem_enclosedTexts hx)
        (Credentials.line_of_authority hline) hsafe]

/-- A user and a password, both in backticks; the password looks like a token. -/
def quotedToken : Credentials where
  user := ⟨['a'], true, List.forall_mem_singleton.mpr (by decide), nofun⟩
  worker := none
  password := some ⟨['_', '0'], true,
    List.forall_mem_cons.mpr ⟨by decide, List.forall_mem_singleton.mpr (by decide)⟩, nofun⟩

/-- A user and a password, both in backticks; the password is what stands between them. -/
def quotedColon : Credentials where
  user := ⟨['a'], true, List.forall_mem_singleton.mpr (by decide), nofun⟩
  worker := none
  password := some ⟨[':'], true, List.forall_mem_singleton.mpr (by decide), nofun⟩

/-- A pool. -/
def somePool : Destination where
  scheme := "stratum".toList
  sim := false
  host := ['h']
  port := ['1']
  known := by decide
  simulation := by decide
  noAt_host := by decide
  noAt_port := by decide

theorem not_recovered_of_login {fromString : StdString → Option IpAddress} {c : Credentials}
    {d : Destination} {l : Login}
    (h : (construct fromString (uriOf c d) d.sim).map UriFields.login = .ok l)
    (hne : l ≠ c.login) : ¬ Recovered fromString c d := by
  rintro ⟨u, hu, hlogin⟩
  rw [hu] at h
  exact hne ((Except.ok.inj h).symm.trans hlogin)

/-- The password `_0` replaces the user, and the password `:` is lost. -/
theorem credentials_not_recovered :
    uriOf quotedToken somePool = "stratum://`a`:`_0`@h:1".toList ∧
      (construct (fun _ => none) (uriOf quotedToken somePool) false).map UriFields.login =
        .ok { user := ['_', '0'], password := ['_', '0'] } ∧
      ¬ Recovered (fun _ => none) quotedToken somePool ∧
      uriOf quotedColon somePool = "stratum://`a`:`:`@h:1".toList ∧
      (construct (fun _ => none) (uriOf quotedColon somePool) false).map UriFields.login =
        .ok { user := "a_1".toList, password := [] } ∧
      ¬ Recovered (fun _ => none) quotedColon somePool := by
  have htoken : (construct (fun _ => none) (uriOf quotedToken somePool) somePool.sim).map
      UriFields.login = .ok { user := ['_', '0'], password := ['_', '0'] } := by decide +kernel
  have hcolon : (construct (fun _ => none) (uriOf quotedColon somePool) somePool.sim).map
      UriFields.login = .ok { user := "a_1".toList, password := [] } := by decide +kernel
  exact ⟨by decide, htoken, not_recovered_of_login htoken (by decide), by decide, hcolon,
    not_recovered_of_login hcolon (by decide)⟩

end Pool
end FpgaEthash
