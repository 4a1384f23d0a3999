import FpgaEthash.Pool.UriConstruct
import Mathlib.Data.List.Nodup

/-!
# Texts in backticks

The constructor of `URI` replaces the texts in backticks by tokens, cuts what is left at its
separators, and puts the texts back.  Both replacements go block by block, in the order of the keys
of a map, over the whole text.

* `btickBlocks_perm`: the map holds the `j`-th text under the `j`-th token.
* `tokenize_writePieces`: as long as no text in backticks is what stands between two of them, a pass
  only touches the texts in backticks (`renamed`).
* `untokenize_quote`: a token that stands alone is replaced by its text.
* `splitLogin_user` and those that follow: what is cut where the parts have no separators.
-/

namespace FpgaEthash
namespace Pool

open Devcore Regex Text

/-! ## The map of blocks -/

theorem mapAssign_perm {key value : StdString} {m : List (StdString × StdString)}
    (h : key ∉ m.map Prod.fst) : (mapAssign key value m).Perm ((key, value) :: m) := by
  induction m with
  | nil => exact List.Perm.refl _
  | cons b m ih =>
    obtain ⟨k, v⟩ := b
    rw [List.map_cons, List.mem_cons, not_or] at h
    rw [mapAssign]
    split_ifs with hlt heq
    · exact List.Perm.refl _
    · exact absurd heq h.1
    · exact ((ih h.2).cons (k, v)).trans (List.Perm.swap (key, value) (k, v) m)

theorem mem_token {i : ℕ} {c : Char} (h : c ∈ token i) : c = '_' ∨ c.isDigit = true := by
  rw [token, List.mem_cons] at h
  exact h.imp_right fun hc => Nat.isDigit_of_mem_toDigits (by omega) (by omega) hc

theorem notMem_token {c : Char} (hne : c ≠ '_') (hdigit : c.isDigit = false) (i : ℕ) :
    c ∉ token i := fun h =>
  (mem_token h).elim hne fun hc => Bool.false_ne_true (hdigit.symm.trans hc)

/-- The digits of a number stand for it. -/
theorem decimal_toDigits (n : ℕ) : decimal (Nat.toDigits 10 n) = n := by
  induction n using Nat.strongRecOn with
  | ind n ih =>
    by_cases hn : n < 10
    · have hone : decimal [n.digitChar] = n.digitChar.toNat - 48 := Nat.zero_add _
      rw [Nat.toDigits_of_lt_base hn, hone, Nat.toNat_digitChar_of_lt_ten hn]
      omega
    · have hlast : n % 10 < 10 := Nat.mod_lt n (by omega)
      have hsplit : Nat.toDigits 10 (n / 10) ++ Nat.toDigits 10 (n % 10) = Nat.toDigits 10 n := by
        rw [Nat.toDigits_append_toDigits (by omega) (by omega) hlast, Nat.div_add_mod]
      have hinit : decimal (Nat.toDigits 10 (n / 10)) = n / 10 := ih (n / 10) (by omega)
      rw [decimal] at hinit
      rw [← hsplit, Nat.toDigits_of_lt_base hlast, decimal, List.foldl_append, hinit,
        List.foldl_cons, List.foldl_nil, Nat.toNat_digitChar_of_lt_ten hlast]
      omega

theorem token_inj {i j : ℕ} (h : token i = token j) : i = j := by
  rw [← decimal_toDigits i, (List.cons.inj h).2, decimal_toDigits]

/-- The blocks, each with its token. -/
def numbered (texts : List StdString) : List (StdString × StdString) :=
  texts.zipIdx.map fun text => (token text.2, text.1)

theorem mem_numbered {texts : List StdString} {b : StdString × StdString} :
    b ∈ numbered texts ↔ ∃ j, texts[j]? = some b.2 ∧ b.1 = token j := by
  rw [numbered, List.mem_map]
  constructor
  · rintro ⟨⟨text, j⟩, hmem, rfl⟩
    exact ⟨j, List.mem_zipIdx_iff_getElem?.mp hmem, rfl⟩
  · rintro ⟨j, hj, hb⟩
    exact ⟨(b.2, j), List.mem_zipIdx_iff_getElem?.mpr hj, by rw [← hb]⟩

theorem nodup_numbered (texts : List StdString) : ((numbered texts).map Prod.fst).Nodup := by
  have hkeys : (numbered texts).map Prod.fst = (texts.zipIdx.map Prod.snd).map token := by
    rw [numbered, List.map_map, List.map_map]
    rfl
  rw [hkeys, List.zipIdx_map_snd]
  exact List.Nodup.map (fun i j h => token_inj h) List.nodup_range'

/-- Assigning values to keys that are all different. -/
theorem foldl_mapAssign_perm {l m : List (StdString × StdString)}
    (h : ((l ++ m).map Prod.fst).Nodup) :
    (l.foldl (fun m b => mapAssign b.1 b.2 m) m).Perm (l ++ m) := by
  induction l generalizing m with
  | nil => exact List.Perm.refl _
  | cons b l ih =>
    rw [List.cons_append, List.map_cons, List.nodup_cons, List.map_append, List.mem_append,
      not_or] at h
    have hassign : (mapAssign b.1 b.2 m).Perm (b :: m) := mapAssign_perm h.1.2
    have hfront : (l ++ mapAssign b.1 b.2 m).Perm (b :: (l ++ m)) :=
      (hassign.append_left l).trans List.perm_middle
    have hnodup : ((l ++ mapAssign b.1 b.2 m).map Prod.fst).Nodup := by
      rw [(hfront.map Prod.fst).nodup_iff, List.map_cons, List.nodup_cons, List.map_append,
        List.mem_append, not_or]
      exact h
    exact (ih hnodup).trans hfront

/-- **The map holds each text under its token.** -/
theorem btickBlocks_perm (texts : List StdString) :
    (btickBlocks texts).Perm (numbered texts) := by
  have hassign := foldl_mapAssign_perm (l := numbered texts) (m := [])
    (by rw [List.append_nil]; exact nodup_numbered texts)
  rw [List.append_nil, numbered, List.foldl_map] at hassign
  exact hassign

theorem mem_btickBlocks {texts : List StdString} {b : StdString × StdString} :
    b ∈ btickBlocks texts ↔ ∃ j, texts[j]? = some b.2 ∧ b.1 = token j :=
  (btickBlocks_perm texts).mem_iff.trans mem_numbered

theorem nodup_btickBlocks (texts : List StdString) : ((btickBlocks texts).map Prod.fst).Nodup :=
  ((btickBlocks_perm texts).map Prod.fst).nodup_iff.mpr (nodup_numbered texts)

/-! ## Pieces -/

/-- A text written piece by piece; the pieces that are marked are in backticks. -/
def writePieces (ps : List (StdString × Bool)) : StdString :=
  ps.flatMap fun p => if p.2 then quote p.1 else p.1

/-- What stands before the first text in backticks, and each of these texts with what stands
behind it. -/
def layout : List (StdString × Bool) → StdString × List (StdString × StdString)
  | [] => ([], [])
  | (s, false) :: ps => (s ++ (layout ps).1, (layout ps).2)
  | (s, true) :: ps => ([], (s, (layout ps).1) :: (layout ps).2)

/-- The texts in backticks, and what stands behind them, as one list. -/
def segments (items : List (StdString × StdString)) : List StdString :=
  items.flatMap fun i => [i.1, i.2]

theorem writePieces_eq (ps : List (StdString × Bool)) :
    writePieces ps = ['`'].intercalate ((layout ps).1 :: segments (layout ps).2) := by
  induction ps with
  | nil => rfl
  | cons p ps ih =>
    obtain ⟨s, quoted⟩ := p
    cases quoted with
    | false =>
      have hwrite : writePieces ((s, false) :: ps) = s ++ writePieces ps := rfl
      rw [hwrite, ih, layout, intercalate_append_cons]
    | true =>
      have hwrite : writePieces ((s, true) :: ps) = quote s ++ writePieces ps := rfl
      have hsegments : segments ((s, (layout ps).1) :: (layout ps).2) =
          s :: (layout ps).1 :: segments (layout ps).2 := rfl
      rw [hwrite, ih, layout, hsegments, intercalate_cons₃]
      simp [quote]

/-- Other texts in the backticks. -/
def retext (f : StdString → StdString) (ps : List (StdString × Bool)) : List (StdString × Bool) :=
  ps.map fun p => (if p.2 then f p.1 else p.1, p.2)

theorem layout_retext (f : StdString → StdString) (ps : List (StdString × Bool)) :
    layout (retext f ps) = ((layout ps).1, (layout ps).2.map fun i => (f i.1, i.2)) := by
  induction ps with
  | nil => rfl
  | cons p ps ih =>
    obtain ⟨s, quoted⟩ := p
    have hcons : retext f ((s, quoted) :: ps) =
        (if quoted then f s else s, quoted) :: retext f ps := rfl
    cases quoted with
    | false => rw [hcons, layout, layout, ih]; rfl
    | true => rw [hcons, layout, layout, ih]; rfl

theorem retext_retext (f g : StdString → StdString) (ps : List (StdString × Bool)) :
    retext f (retext g ps) = retext (fun x => f (g x)) ps := by
  rw [retext, retext, retext, List.map_map]
  refine List.map_congr_left fun p _ => ?_
  cases hp : p.2 <;> simp [hp]

theorem retext_id (ps : List (StdString × Bool)) : retext (fun x => x) ps = ps := by
  rw [retext]
  have hid : (fun p : StdString × Bool => (if p.2 then p.1 else p.1, p.2)) = id := by
    funext p
    rw [ite_self]
    rfl
  rw [hid, List.map_id]

/-- No piece contains a backtick. -/
def NoBacktick (ps : List (StdString × Bool)) : Prop := ∀ p ∈ ps, '`' ∉ p.1

theorem notMem_layout {ps : List (StdString × Bool)} (h : NoBacktick ps) :
    '`' ∉ (layout ps).1 ∧ ∀ s ∈ segments (layout ps).2, '`' ∉ s := by
  induction ps with
  | nil => exact ⟨by simp [layout], by simp [layout, segments]⟩
  | cons p ps ih =>
    obtain ⟨s, quoted⟩ := p
    have hs : '`' ∉ s := h (s, quoted) List.mem_cons_self
    obtain ⟨hhead, hsegments⟩ := ih fun p hp => h p (List.mem_cons_of_mem _ hp)
    cases quoted with
    | false => exact ⟨by simp [layout, hs, hhead], hsegments⟩
    | true =>
      refine ⟨by simp [layout], fun x hx => ?_⟩
      have hx' : x = s ∨ x = (layout ps).1 ∨ x ∈ segments (layout ps).2 := by
        simpa [layout, segments] using hx
      rcases hx' with rfl | rfl | hx'
      · exact hs
      · exact hhead
      · exact hsegments x hx'

/-! ## One pass -/

/-- A pass that finds its text nowhere but in backticks only changes what is in backticks.  Behind a
text that it replaces it does not look. -/
theorem substitute_segments {c t : StdString} {items : List (StdString × StdString)}
    (h : ∀ i ∈ items.dropLast, i.1 = c ∨ i.2 ≠ c) :
    substitute c t (segments items) =
      segments (items.map fun i => (if i.1 = c then t else i.1, i.2)) := by
  induction items with
  | nil => rfl
  | cons i items ih =>
    obtain ⟨x, g⟩ := i
    have hsegments : segments ((x, g) :: items) = x :: g :: segments items := rfl
    cases items with
    | nil =>
      by_cases hx : x = c
      · simp [segments, substitute, hx]
      · simp [segments, substitute, hx]
    | cons j items =>
      rw [List.dropLast_cons_cons] at h
      have hrest := ih fun i hi => h i (List.mem_cons_of_mem _ hi)
      rw [List.map_cons, hsegments, substitute]
      by_cases hx : x = c
      · simp only [hx, if_true]
        rw [hrest]
        rfl
      · have hg : g ≠ c := (h (x, g) List.mem_cons_self).resolve_left hx
        have hgap : substitute c t (g :: segments (j :: items)) =
            g :: substitute c t (segments (j :: items)) := by
          have hj : segments (j :: items) = j.1 :: j.2 :: segments items := rfl
          rw [hj, substitute, if_neg hg]
        simp only [hx, if_false]
        rw [hgap, hrest]
        rfl

theorem replaceAll_writePieces {c t : StdString} {ps : List (StdString × Bool)}
    (hps : NoBacktick ps) (hc : '`' ∉ c)
    (h : ∀ i ∈ (layout ps).2.dropLast, i.1 = c ∨ i.2 ≠ c) :
    replaceAll (quote c) (quote t) (writePieces ps) =
      writePieces (retext (fun x => if x = c then t else x) ps) := by
  obtain ⟨hhead, hsegments⟩ := notMem_layout hps
  rw [writePieces_eq, quote, quote, replaceAll_enclosed hc hhead hsegments,
    substitute_segments h, writePieces_eq, layout_retext]

/-! ## All passes -/

/-- What a text in backticks has become when all blocks have been gone through. -/
def renamed (blocks : List (StdString × StdString)) (x : StdString) : StdString :=
  blocks.foldl (fun x b => if x = b.2 then b.1 else x) x

theorem renamed_append_singleton (blocks : List (StdString × StdString)) (b : StdString × StdString)
    (x : StdString) : renamed (blocks ++ [b]) x =
      if renamed blocks x = b.2 then b.1 else renamed blocks x := by
  rw [renamed, List.foldl_append]
  rfl

theorem renamed_of_notMem {blocks : List (StdString × StdString)} {x : StdString}
    (h : ∀ b ∈ blocks, b.2 ≠ x) : renamed blocks x = x := by
  induction blocks using List.reverseRecOn with
  | nil => rfl
  | append_singleton blocks b ih =>
    have hblocks := ih fun b' hb' => h b' (List.mem_append_left [b] hb')
    have hb : b.2 ≠ x := h b (List.mem_append_right blocks (List.mem_singleton_self b))
    rw [renamed_append_singleton, hblocks, if_neg hb.symm]

/-- **What a text in backticks becomes** is the token of a block that holds the text, or that holds
a token. -/
theorem exists_renamed_eq {blocks : List (StdString × StdString)} {x : StdString}
    (h : ∃ b ∈ blocks, b.2 = x) :
    ∃ b ∈ blocks, renamed blocks x = b.1 ∧ (b.2 = x ∨ ∃ b' ∈ blocks, b.2 = b'.1) := by
  induction blocks using List.reverseRecOn with
  | nil => simp at h
  | append_singleton blocks b ih =>
    have hlast : b ∈ blocks ++ [b] := List.mem_append_right blocks (List.mem_singleton_self b)
    rw [renamed_append_singleton]
    by_cases hearlier : ∃ b ∈ blocks, b.2 = x
    · obtain ⟨b₁, hb₁, hname, htext⟩ := ih hearlier
      split
      · next hhit =>
          -- The block holds the token that the text has become before.
          exact ⟨b, hlast, rfl, .inr ⟨b₁, List.mem_append_left _ hb₁, by rw [← hhit, hname]⟩⟩
      · refine ⟨b₁, List.mem_append_left _ hb₁, hname, htext.imp_right ?_⟩
        rintro ⟨b', hb', heq⟩
        exact ⟨b', List.mem_append_left _ hb', heq⟩
    · have hkept : renamed blocks x = x :=
        renamed_of_notMem fun b' hb' heq => hearlier ⟨b', hb', heq⟩
      obtain ⟨b', hb', hx⟩ := h
      rcases List.mem_append.mp hb' with hb' | hb'
      · exact absurd ⟨b', hb', hx⟩ hearlier
      · rw [List.mem_singleton.mp hb'] at hx
        rw [hkept, if_pos hx.symm]
        exact ⟨b, hlast, rfl, .inl hx⟩

/-- No pass finds its text between two texts in backticks, unless it replaces the text before
that. -/
def Guarded (blocks : List (StdString × StdString)) (ps : List (StdString × Bool)) : Prop :=
  ∀ front b back, blocks = front ++ b :: back →
    ∀ i ∈ (layout ps).2.dropLast, renamed front i.1 = b.2 ∨ i.2 ≠ b.2

/-- Neither a token nor a text of a block contains a backtick. -/
def Unquoted (blocks : List (StdString × StdString)) : Prop :=
  ∀ b ∈ blocks, '`' ∉ b.1 ∧ '`' ∉ b.2

theorem notMem_renamed {blocks : List (StdString × StdString)} {x : StdString}
    (hblocks : Unquoted blocks) (hx : '`' ∉ x) : '`' ∉ renamed blocks x := by
  induction blocks using List.reverseRecOn with
  | nil => exact hx
  | append_singleton blocks b ih =>
    rw [renamed_append_singleton]
    split
    · exact (hblocks b (List.mem_append_right blocks (List.mem_singleton_self b))).1
    · exact ih fun b' hb' => hblocks b' (List.mem_append_left _ hb')

theorem noBacktick_retext_renamed {blocks : List (StdString × StdString)}
    {ps : List (StdString × Bool)} (hblocks : Unquoted blocks) (hps : NoBacktick ps) :
    NoBacktick (retext (renamed blocks) ps) := by
  intro p hp
  obtain ⟨p, hmem, rfl⟩ := List.mem_map.mp hp
  cases hquoted : p.2 with
  | false => simpa [hquoted] using hps p hmem
  | true => simpa [hquoted] using notMem_renamed hblocks (hps p hmem)

/-- **The passes together** rename the texts in backticks. -/
theorem tokenize_writePieces {blocks : List (StdString × StdString)} {ps : List (StdString × Bool)}
    (hblocks : Unquoted blocks) (hps : NoBacktick ps) (hguard : Guarded blocks ps) :
    tokenize blocks (writePieces ps) = writePieces (retext (renamed blocks) ps) := by
  induction blocks using List.reverseRecOn with
  | nil => exact congrArg writePieces (retext_id ps).symm
  | append_singleton blocks b ih =>
    have hearlier : Unquoted blocks := fun b' hb' => hblocks b' (List.mem_append_left _ hb')
    have hb := hblocks b (List.mem_append_right blocks (List.mem_singleton_self b))
    have hpasses : tokenize blocks (writePieces ps) = writePieces (retext (renamed blocks) ps) :=
      ih hearlier fun front b' back hsplit =>
        hguard front b' (back ++ [b]) (by rw [hsplit]; simp)
    have hlast : ∀ i ∈ (layout (retext (renamed blocks) ps)).2.dropLast,
        i.1 = b.2 ∨ i.2 ≠ b.2 := by
      rw [layout_retext, ← List.map_dropLast]
      intro i hi
      obtain ⟨i, hmem, rfl⟩ := List.mem_map.mp hi
      exact hguard blocks b [] rfl i hmem
    have hstep : tokenize (blocks ++ [b]) (writePieces ps) =
        replaceAll (quote b.2) (quote b.1) (tokenize blocks (writePieces ps)) := by
      rw [tokenize, List.foldl_append]
      rfl
    have hname : renamed (blocks ++ [b]) = fun x =>
        if renamed blocks x = b.2 then b.1 else renamed blocks x :=
      funext (renamed_append_singleton blocks b)
    rw [hstep, hpasses, hname,
      replaceAll_writePieces (noBacktick_retext_renamed hearlier hps) hb.2 hlast, retext_retext]

/-- What stands between two texts in backticks is in no block, except perhaps in that of the text
before it. -/
def Undisturbed (gaps texts : List StdString) : Prop :=
  ∀ (i j : ℕ) (g : StdString), gaps[i]? = some g → texts[j]? = some g → j = i

/-- What stands between two texts in backticks, from left to right. -/
def gaps (ps : List (StdString × Bool)) : List StdString := (layout ps).2.dropLast.map Prod.snd

/-- The texts in backticks. -/
def quotedTexts (ps : List (StdString × Bool)) : List StdString := (layout ps).2.map Prod.fst

theorem guarded_of_undisturbed {ps : List (StdString × Bool)} {more : List StdString}
    (h : Undisturbed (gaps ps) (quotedTexts ps ++ more)) :
    Guarded (btickBlocks (quotedTexts ps ++ more)) ps := by
  intro front b back hblocks item hitem
  obtain ⟨x, g⟩ := item
  by_cases hg : g = b.2
  swap
  · exact .inr hg
  refine .inl ?_
  obtain ⟨i, hi⟩ := List.mem_iff_getElem?.mp hitem
  have hgap : (gaps ps)[i]? = some g := by rw [gaps, List.getElem?_map, hi]; rfl
  have htext : (quotedTexts ps ++ more)[i]? = some x := by
    rw [List.getElem?_dropLast] at hi
    split at hi
    · next hlt =>
        have hlen : i < (quotedTexts ps).length := by rw [quotedTexts, List.length_map]; omega
        rw [List.getElem?_append_left hlen, quotedTexts, List.getElem?_map, hi]
        rfl
    · exact absurd hi (by simp)
  -- Only the block of the text before it can hold what stands there.
  have hown : ∀ b' ∈ btickBlocks (quotedTexts ps ++ more), b'.2 = g → b'.1 = token i ∧ x = g := by
    intro b' hb' hb'g
    obtain ⟨j, hj, hkey⟩ := mem_btickBlocks.mp hb'
    rw [hb'g] at hj
    obtain rfl : j = i := h i j g hgap hj
    exact ⟨hkey, Option.some.inj (htext.symm.trans hj)⟩
  have hb := hown b (by rw [hblocks]; simp) hg.symm
  have hearlier : ∀ b' ∈ front, b'.2 ≠ x := by
    intro b' hb' hb'x
    have hkey := (hown b' (by rw [hblocks]; simp [hb']) (hb'x.trans hb.2)).1
    have hnodup := nodup_btickBlocks (quotedTexts ps ++ more)
    rw [hblocks, List.map_append, List.map_cons] at hnodup
    exact (List.nodup_append.mp hnodup).2.2 _ (List.mem_map_of_mem hb') _ List.mem_cons_self
      (hkey.trans hb.1.symm)
  rw [renamed_of_notMem hearlier, hb.2, hg]

/-! ## Back to the texts -/

theorem untokenize_of_notMem {s : StdString} (blocks : List (StdString × StdString))
    (hs : '`' ∉ s) : untokenize blocks s = s := by
  induction blocks with
  | nil => rfl
  | cons b blocks ih =>
    have hstep : untokenize (b :: blocks) s =
        untokenize blocks (replaceAll (quote b.1) b.2 s) := rfl
    rw [hstep, quote, replaceAll_of_notMem hs, ih]

theorem replaceAll_quote_of_ne {t t' c : StdString} (ht : '`' ∉ t) (ht' : '`' ∉ t') (hne : t ≠ t') :
    replaceAll (quote t) c (quote t') = quote t' := by
  have hocc : ¬ '`' :: (t ++ ['`']) <+: '`' :: (t' ++ '`' :: []) := fun h =>
    hne ((enclosed_occurs_iff ht ht' []).mp h)
  rw [quote, quote, replaceAll_cons_of_not_occurs hocc, replaceAll_append ht',
    replaceAll_cons_of_not_occurs (enclosed_not_occurs (by simp)), replaceAll_nil]

/-- **A token that stands alone is replaced by its text.** -/
theorem untokenize_quote {blocks : List (StdString × StdString)} {b : StdString × StdString}
    (hblocks : Unquoted blocks) (hnodup : (blocks.map Prod.fst).Nodup) (hb : b ∈ blocks) :
    untokenize blocks (quote b.1) = b.2 := by
  induction blocks with
  | nil => simp at hb
  | cons b' blocks ih =>
    have hstep : untokenize (b' :: blocks) (quote b.1) =
        untokenize blocks (replaceAll (quote b'.1) b'.2 (quote b.1)) := rfl
    rw [List.map_cons, List.nodup_cons] at hnodup
    rw [hstep]
    rcases List.mem_cons.mp hb with rfl | hb
    · have hself := replaceAll_self_append (d := '`') (s := b.1 ++ ['`']) (f := b.2) []
      rw [List.append_nil, replaceAll_nil, List.append_nil] at hself
      rw [quote, hself]
      exact untokenize_of_notMem blocks (hblocks b List.mem_cons_self).2
    · have hne : b'.1 ≠ b.1 := fun h => hnodup.1 (by rw [h]; exact List.mem_map_of_mem hb)
      rw [replaceAll_quote_of_ne (hblocks b' List.mem_cons_self).1
        (hblocks b (List.mem_cons_of_mem _ hb)).1 hne]
      exact ih (fun b'' hb'' => hblocks b'' (List.mem_cons_of_mem _ hb'')) hnodup.2 hb

theorem decoded_of_notMem {s : StdString} (hpercent : '%' ∉ s) (hplus : '+' ∉ s) :
    decoded s = s := by
  induction s with
  | nil => rfl
  | cons c s ih =>
    have hc : c ≠ '%' := (List.ne_of_not_mem_cons hpercent).symm
    have hc' : c ≠ '+' := (List.ne_of_not_mem_cons hplus).symm
    rw [decoded, ih (List.not_mem_of_not_mem_cons hpercent) (List.not_mem_of_not_mem_cons hplus)]
    · exact fun _ _ _ h _ => hc h
    · exact hc'

/-- Decoding leaves a text alone that has neither `'%'` nor `'+'`. -/
theorem decodeInPlace_of_notMem {s : StdString} (hpercent : '%' ∉ s) (hplus : '+' ∉ s) :
    decodeInPlace s = s := by
  have hwf : WellFormed s := fun front back h => absurd (by rw [h]; simp) hpercent
  have hdecode : urlDecode s = (true, decoded s) :=
    urlDecodeFrom_of_scans ((wellFormed_iff_scans s).mp hwf) []
  rw [decodeInPlace, hdecode, if_pos rfl]
  exact decoded_of_notMem hpercent hplus

/-- What becomes of a part that has been cut out: tokens, backticks and escapes are replaced. -/
def readBack (blocks : List (StdString × StdString)) (part : StdString) : StdString :=
  decodeInPlace (replaceAll ['`'] [] (untokenize blocks part))

/-- A text that nothing is done to. -/
structure Inert (s : StdString) : Prop where
  backtick : '`' ∉ s
  percent : '%' ∉ s
  plus : '+' ∉ s

theorem inert_token (i : ℕ) : Inert (token i) :=
  ⟨notMem_token (by decide) (by decide) i, notMem_token (by decide) (by decide) i,
    notMem_token (by decide) (by decide) i⟩

theorem readBack_of_inert {s : StdString} (blocks : List (StdString × StdString)) (h : Inert s) :
    readBack blocks s = s := by
  rw [readBack, untokenize_of_notMem blocks h.backtick, replaceAll_of_notMem h.backtick,
    decodeInPlace_of_notMem h.percent h.plus]

theorem readBack_quote {blocks : List (StdString × StdString)} {b : StdString × StdString}
    (hblocks : Unquoted blocks) (hnodup : (blocks.map Prod.fst).Nodup) (hb : b ∈ blocks)
    (hinert : Inert b.2) : readBack blocks (quote b.1) = b.2 := by
  rw [readBack, untokenize_quote hblocks hnodup hb, replaceAll_of_notMem hinert.backtick,
    decodeInPlace_of_notMem hinert.percent hinert.plus]

/-! ## Cutting at separators -/

theorem search_twoParts {c : Char} {x b : StdString} (hx : ∀ y ∈ x, dot y = true)
    (hb : ∀ y ∈ b, dot y = true) (hc : c ∉ b) :
    search (twoParts c) (x ++ c :: b) =
      some ⟨false, [], Function.update (Function.update (fun _ => []) 1 x) 2 b⟩ := by
  rw [twoParts, search_start, Position.init, exec_seq, exec_seq]
  refine exec_upTo_eq_some hx ?_ fun y b' hsplit => absurd (by rw [hsplit]; simp) hc
  rw [exec_seq, anything, exec_toEnd hb]
  rfl

theorem search_twoParts_eq_none {c : Char} {l : StdString} (hc : c ∉ l) :
    search (twoParts c) l = none := by
  rw [twoParts, search_start, Position.init, exec_seq, exec_seq]
  exact exec_upTo_eq_none fun x b hsplit _ => absurd (by rw [hsplit]; simp) hc

theorem search_userWorkerPassword {x b e : StdString} (hx : ∀ y ∈ x, dot y = true)
    (hb : ∀ y ∈ b, dot y = true) (he : ∀ y ∈ e, dot y = true) (hdot : '.' ∉ b) (hcolon : ':' ∉ e) :
    search userWorkerPassword (x ++ '.' :: (b ++ ':' :: e)) =
      some ⟨false, [], Function.update (Function.update (Function.update (fun _ => []) 1 x) 2 b)
        3 e⟩ := by
  rw [userWorkerPassword, search_start, Position.init, exec_seq, exec_seq]
  refine exec_upTo_eq_some hx ?_ fun y b' hsplit => ?_
  · rw [exec_seq, exec_seq]
    refine exec_upTo_eq_some hb ?_ fun y b' hsplit => absurd (by rw [hsplit]; simp) hcolon
    rw [exec_seq, anything, exec_toEnd he]
    rfl
  · -- A later dot stands behind the colon, and then no colon follows.
    have hlate : ':' ∉ b' := by
      rcases List.append_eq_append_iff.mp hsplit with ⟨a, -, ha⟩ | ⟨a, ha, hb'⟩
      · cases a with
        | nil => simp at ha
        | cons e' a =>
          rw [List.cons_append, List.cons.injEq] at ha
          exact fun hmem => hcolon (by rw [ha.2]; simp [hmem])
      · cases a with
        | nil => simp at hb'
        | cons e' a =>
          rw [List.cons_append, List.cons.injEq] at hb'
          exact absurd (by rw [ha, ← hb'.1]; simp) hdot
    rw [exec_seq, exec_seq]
    exact exec_upTo_eq_none fun y' b'' hsplit' _ => absurd (by rw [hsplit']; simp) hlate

theorem search_userWorkerPassword_eq_none {l : StdString} (h : '.' ∉ l ∨ ':' ∉ l) :
    search userWorkerPassword l = none := by
  rw [userWorkerPassword, search_start, Position.init, exec_seq, exec_seq]
  refine exec_upTo_eq_none fun x b hsplit _ => ?_
  rcases h with hdot | hcolon
  · exact absurd (by rw [hsplit]; simp) hdot
  · rw [exec_seq, exec_seq]
    refine exec_upTo_eq_none fun y b' hsplit' _ => absurd ?_ hcolon
    rw [hsplit, hsplit']
    simp

section Login

variable {u w p : StdString}

theorem splitLogin_user (hdot : '.' ∉ u) (hcolon : ':' ∉ u) : splitLogin u = { user := u } := by
  rw [splitLogin, search_userWorkerPassword_eq_none (.inl hdot), userPassword,
    search_twoParts_eq_none hcolon, userWorker, search_twoParts_eq_none hdot]

theorem splitLogin_password (hu : ∀ y ∈ u, dot y = true) (hp : ∀ y ∈ p, dot y = true)
    (hdot : '.' ∉ u ++ ':' :: p) (hcolon : ':' ∉ p) :
    splitLogin (u ++ ':' :: p) = { user := u, password := p } := by
  rw [splitLogin, search_userWorkerPassword_eq_none (.inl hdot), userPassword,
    search_twoParts hu hp hcolon]
  rfl

theorem splitLogin_worker (hu : ∀ y ∈ u, dot y = true) (hw : ∀ y ∈ w, dot y = true)
    (hcolon : ':' ∉ u ++ '.' :: w) (hdot : '.' ∉ w) :
    splitLogin (u ++ '.' :: w) = { user := u, worker := w } := by
  rw [splitLogin, search_userWorkerPassword_eq_none (.inr hcolon), userPassword,
    search_twoParts_eq_none hcolon, userWorker, search_twoParts hu hw hdot]
  rfl

theorem splitLogin_both (hu : ∀ y ∈ u, dot y = true) (hw : ∀ y ∈ w, dot y = true)
    (hp : ∀ y ∈ p, dot y = true) (hdot : '.' ∉ w) (hcolon : ':' ∉ p) :
    splitLogin (u ++ '.' :: (w ++ ':' :: p)) = { user := u, worker := w, password := p } := by
  rw [splitLogin, search_userWorkerPassword hu hw hp hdot hcolon]
  rfl

end Login

end Pool
end FpgaEthash
