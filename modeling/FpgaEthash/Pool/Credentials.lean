import FpgaEthash.Computation.Throwing
import FpgaEthash.Pool.Quoting

/-!
# Credentials in an address

User, worker and password are written before the `'@'` of an address, each part plain or in
backticks.  Reading the address gives the parts back, unless the replacements of the constructor
of `URI` get into each other's way.

* A text in backticks that is what stands between two of the others, such as `.` or `:`, takes the
  separator for a quoted text (`Undisturbed`).
* A text in backticks that is a token, such as `_0`, takes another token for itself
  (`Unmistaken`).

If the separators are safe, the parts come back exactly if no token is mistaken.
-/

namespace FpgaEthash
namespace Pool

open Devcore Regex Text

/-! ## What is written -/

/-- A part of the credentials, plain or in backticks, without the characters that are special in
either case, and if it is plain without separators. -/
structure Part where
  text : StdString
  quoted : Bool
  free : ∀ c ∈ text, c ∉ ['`', '%', '+', '\n']
  plain : quoted = false → ∀ c ∈ text, c ∉ ['.', ':', '@', '#', '?', '/']

/-- The part as a piece. -/
def Part.piece (p : Part) : StdString × Bool := (p.text, p.quoted)

/-- `user`, `user.worker`, `user:password` or `user.worker:password`. -/
structure Credentials where
  user : Part
  worker : Option Part
  password : Option Part

/-- Where the credentials are for. -/
structure Destination where
  scheme : StdString
  sim : Bool
  host : StdString
  port : StdString
  known : (sSchemes.lookup (toLower scheme)).isSome
  simulation : toLower scheme = "simulation".toList → sim = true
  noAt_host : '@' ∉ host
  noAt_port : '@' ∉ port

namespace Credentials

/-- The credentials piece by piece. -/
def pieces (c : Credentials) : List (StdString × Bool) :=
  c.user.piece :: ((c.worker.elim [] fun w => [(['.'], false), w.piece]) ++
    c.password.elim [] fun p => [([':'], false), p.piece])

/-- What should come back. -/
def login (c : Credentials) : Login where
  user := c.user.text
  worker := c.worker.elim [] Part.text
  password := c.password.elim ['X'] Part.text

/-- The parts, in the order in which they are written. -/
def parts (c : Credentials) : List Part := c.user :: (c.worker.toList ++ c.password.toList)

end Credentials

/-- `host:port`. -/
def Destination.place (d : Destination) : StdString := d.host ++ ':' :: d.port

/-- `CREDENTIALS@host:port`. -/
def authorityOf (c : Credentials) (d : Destination) : StdString :=
  writePieces c.pieces ++ '@' :: d.place

/-- `scheme://CREDENTIALS@host:port`. -/
def uriOf (c : Credentials) (d : Destination) : StdString :=
  d.scheme ++ ':' :: '/' :: '/' :: authorityOf c d

/-- The address is accepted, and the credentials that are read are those that were written. -/
def Recovered (fromString : StdString → Option IpAddress) (c : Credentials) (d : Destination) :
    Prop :=
  ∃ u, construct fromString (uriOf c d) d.sim = .ok u ∧ u.login = c.login

/-! ## The scheme -/

theorem isSchemeChar_of_toLower {c : Char} (h : isSchemeChar c.toLower = true) :
    isSchemeChar c = true := by
  by_cases hupper : c.isUpper = true
  · have halpha : c.isAlpha = true := Bool.or_eq_true_iff.mpr (.inl hupper)
    have halphanum : c.isAlphanum = true := Bool.or_eq_true_iff.mpr (.inl halpha)
    exact Bool.or_eq_true_iff.mpr (.inl halphanum)
  · have hsame : c.toLower = c := dif_neg fun hrange => hupper (decide_eq_true hrange)
    rwa [hsame] at h

theorem sSchemes_wellFormed :
    ∀ b ∈ sSchemes, b.1 ≠ [] ∧ ∀ c ∈ b.1, isSchemeChar c = true := by
  have hall : sSchemes.all (fun b => !b.1.isEmpty && b.1.all isSchemeChar) = true := by decide
  intro b hb
  obtain ⟨hne, hchars⟩ := Bool.and_eq_true_iff.mp (List.all_eq_true.mp hall b hb)
  refine ⟨?_, List.all_eq_true.mp hchars⟩
  rintro hnil
  rw [hnil] at hne
  exact nomatch hne

theorem Destination.scheme_wellFormed (d : Destination) :
    d.scheme ≠ [] ∧ ∀ c ∈ d.scheme, isSchemeChar c = true := by
  obtain ⟨a, ha⟩ := Option.isSome_iff_exists.mp d.known
  obtain ⟨front, back, hsplit, -⟩ := List.lookup_eq_some_iff.mp ha
  obtain ⟨hne, hchars⟩ := sSchemes_wellFormed (toLower d.scheme, a) (by rw [hsplit]; simp)
  refine ⟨fun h => hne (by rw [h]; rfl), fun c hc => isSchemeChar_of_toLower ?_⟩
  exact hchars c.toLower (List.mem_map_of_mem hc)

theorem Destination.noAt_place (d : Destination) : '@' ∉ d.place := by
  have hne : '@' ≠ ':' := by decide
  simp [Destination.place, d.noAt_host, d.noAt_port, hne]

theorem colon_split_unique {x y a b : StdString} (hx : ':' ∉ x) (hy : ':' ∉ y)
    (h : x ++ ':' :: a = y ++ ':' :: b) : x = y ∧ a = b := by
  induction x generalizing y with
  | nil =>
    cases y with
    | nil => exact ⟨rfl, (List.cons.inj h).2⟩
    | cons e y => exact absurd (by rw [← (List.cons.inj h).1]; simp) hy
  | cons e x ih =>
    cases y with
    | nil => exact absurd (by rw [(List.cons.inj h).1]; simp) hx
    | cons e' y =>
      obtain ⟨rfl, hrest⟩ := List.cons.inj h
      obtain ⟨rfl, rfl⟩ :=
        ih (List.not_mem_of_not_mem_cons hx) (List.not_mem_of_not_mem_cons hy) hrest
      exact ⟨rfl, rfl⟩

/-- The first pattern matches unless there is a line break in the address. -/
theorem hasScheme_uriOf_iff (c : Credentials) (d : Destination) :
    HasScheme (uriOf c d) ↔ ∀ y ∈ authorityOf c d, dot y = true := by
  obtain ⟨hne, hscheme⟩ := d.scheme_wellFormed
  have hnoColon : ∀ s : StdString, (∀ y ∈ s, isSchemeChar y = true) → ':' ∉ s := fun s hs hmem =>
    absurd (hs ':' hmem) (by decide)
  constructor
  · rintro ⟨scheme, rest, huri, -, hscheme', hrest⟩
    obtain ⟨-, hsplit⟩ :=
      colon_split_unique (hnoColon _ hscheme) (hnoColon _ hscheme') huri
    rw [List.cons.injEq, List.cons.injEq] at hsplit
    rw [hsplit.2.2]
    exact hrest
  · exact fun hdot => ⟨d.scheme, authorityOf c d, rfl, hne, hscheme, hdot⟩

/-- **With a line break in the address nothing is read**, so that only what is there by default
comes back. -/
theorem recovered_of_lineBreak {fromString : StdString → Option IpAddress} {c : Credentials}
    {d : Destination} (h : ¬ ∀ y ∈ authorityOf c d, dot y = true) :
    Recovered fromString c d ↔ c.login = {} := by
  have hreturn : construct fromString (uriOf c d) d.sim = .ok { uri := uriOf c d } := by
    rw [construct, search_schAuth_eq_none fun hscheme => h ((hasScheme_uriOf_iff c d).mp hscheme)]
  constructor
  · rintro ⟨u, hu, hlogin⟩
    obtain rfl := Except.ok.inj (hreturn.symm.trans hu)
    exact hlogin.symm
  · exact fun hlogin => ⟨_, hreturn, hlogin.symm⟩

/-! ## Reading an address without line breaks -/

/-- The host and the port of the address are accepted. -/
def Destination.Accepted (d : Destination) : Prop :=
  ∃ place, readHostinfo (toLower (d.place.takeWhile (· ≠ '/'))) = .ok place

/-- The texts in backticks, those of the credentials first. -/
def allTexts (c : Credentials) (d : Destination) : List StdString :=
  quotedTexts c.pieces ++ enclosedTexts '`' d.place

/-- The credentials that are read. -/
def readLogin (texts : List StdString) (ps : List (StdString × Bool)) : Login :=
  (splitLogin (tokenize (btickBlocks texts) (writePieces ps))).map (readBack (btickBlocks texts))

theorem readUserinfo_fst (authority userinfo : StdString) :
    (readUserinfo authority userinfo).1 =
      (splitLogin (tokenize (btickBlocks (enclosedTexts '`' authority)) userinfo)).map
        (untokenize (btickBlocks (enclosedTexts '`' authority))) := by
  rw [readUserinfo]
  split
  · next hempty =>
      have hnone : tokenize (btickBlocks (enclosedTexts '`' authority)) [] = [] := by
        generalize btickBlocks (enclosedTexts '`' authority) = blocks
        induction blocks with
        | nil => rfl
        | cons b blocks ih => exact ih
      rw [hempty, hnone, splitLogin_user (by simp) (by simp), Login.map,
        untokenize_of_notMem _ (by simp), untokenize_of_notMem _ (by simp)]
  · rfl

theorem enclosedTexts_writePieces {ps : List (StdString × Bool)} (h : NoBacktick ps)
    (l : StdString) :
    enclosedTexts '`' (writePieces ps ++ l) = quotedTexts ps ++ enclosedTexts '`' l := by
  induction ps with
  | nil => rfl
  | cons p ps ih =>
    obtain ⟨s, quoted⟩ := p
    have hs : '`' ∉ s := h (s, quoted) List.mem_cons_self
    have hrest := ih fun p hp => h p (List.mem_cons_of_mem _ hp)
    cases quoted with
    | false =>
      have hwrite : writePieces ((s, false) :: ps) ++ l = s ++ (writePieces ps ++ l) :=
        List.append_assoc ..
      rw [hwrite, enclosedTexts_append hs, hrest]
      rfl
    | true =>
      have hwrite : writePieces ((s, true) :: ps) ++ l =
          '`' :: (s ++ '`' :: (writePieces ps ++ l)) := by
        simp [writePieces, quote]
      rw [hwrite, enclosedTexts_enclosed hs, hrest]
      rfl

theorem Part.inert (p : Part) : Inert p.text :=
  ⟨fun h => p.free _ h (by simp), fun h => p.free _ h (by simp), fun h => p.free _ h (by simp)⟩

theorem Credentials.noBacktick (c : Credentials) : NoBacktick c.pieces := by
  have hdot : '`' ∉ ['.'] := by decide
  have hcolon : '`' ∉ [':'] := by decide
  have hpart : ∀ p : Part, '`' ∉ p.piece.1 := fun p => p.inert.backtick
  obtain ⟨user, worker, password⟩ := c
  cases worker <;> cases password <;> simp [NoBacktick, pieces, hpart, hdot, hcolon]

/-- Behind the checks the login does not depend on the place. -/
theorem constructParts_login {fromString : StdString → Option IpAddress}
    {uri scheme authority : StdString} {sim : Bool}
    (h : checkScheme sim scheme authority = .ok ()) :
    (constructParts fromString uri sim scheme authority).map UriFields.login =
      (readHostinfo (toLower ((splitAuthority authority).2.takeWhile (· ≠ '/')))).map fun _ =>
        ((readUserinfo authority (splitAuthority authority).1).1.map (replaceAll ['`'] [])).map
          decodeInPlace := by
  rw [constructParts, h]
  show Except.map _ (Except.bind
    (readHostinfo (toLower ((splitAuthority authority).2.takeWhile (· ≠ '/')))) _) = _
  cases readHostinfo (toLower ((splitAuthority authority).2.takeWhile (· ≠ '/'))) with
  | error e => rfl
  | ok place => rfl

theorem recovered_iff_of_line {fromString : StdString → Option IpAddress} {c : Credentials}
    {d : Destination} (h : ∀ y ∈ authorityOf c d, dot y = true) :
    Recovered fromString c d ↔ d.Accepted ∧ readLogin (allTexts c d) c.pieces = c.login := by
  obtain ⟨hne, hscheme⟩ := d.scheme_wellFormed
  have hat := d.noAt_place
  have hauthority : authorityOf c d ≠ [] := by simp [authorityOf]
  have hcheck : checkScheme d.sim (toLower d.scheme) (authorityOf c d) = .ok () := by
    have hsim : ¬ (d.sim = false ∧ toLower d.scheme = "simulation".toList) := fun hs => by
      have htrue := d.simulation hs.2
      rw [hs.1] at htrue
      exact Bool.false_ne_true htrue
    rw [checkScheme, if_neg hauthority, if_neg hsim,
      if_neg (Option.isSome_iff_ne_none.mp d.known)]
  have hcut : splitAuthority (authorityOf c d) = (writePieces c.pieces, d.place) := by
    have hfront : ∀ y ∈ writePieces c.pieces, dot y = true := fun y hy =>
      h y (List.mem_append_left _ hy)
    have hback : ∀ y ∈ d.place, dot y = true := fun y hy =>
      h y (List.mem_append_right _ (List.mem_cons_of_mem _ hy))
    rw [splitAuthority, usrUrl, authorityOf, search_twoParts hfront hback hat]
    rfl
  have htexts : enclosedTexts '`' (authorityOf c d) = allTexts c d := by
    have hsep : enclosedTexts '`' ('@' :: d.place) = enclosedTexts '`' d.place :=
      enclosedTexts_append (x := ['@']) (by decide) d.place
    rw [authorityOf, enclosedTexts_writePieces c.noBacktick, hsep, allTexts]
  have hlogin : (construct fromString (uriOf c d) d.sim).map UriFields.login =
      (readHostinfo (toLower (d.place.takeWhile (· ≠ '/')))).map fun _ =>
        readLogin (allTexts c d) c.pieces := by
    rw [construct, uriOf, search_schAuth hne hscheme h]
    refine (constructParts_login hcheck).trans ?_
    rw [hcut, readUserinfo_fst, htexts]
    rfl
  rw [Recovered, Destination.Accepted]
  exact Throwing.exists_ok_iff_of_map_eq hlogin

/-! ## Safe separators -/

/-- The token that a text ends up with is that of a block that holds the text. -/
def Unmistaken (texts : List StdString) (x : StdString) : Prop :=
  (renamed (btickBlocks texts) x, x) ∈ btickBlocks texts

/-- A part as it is written, with another text in its backticks. -/
def Part.shown (f : StdString → StdString) (p : Part) : StdString :=
  if p.quoted then quote (f p.text) else p.text

/-- Nothing in the text is taken for a separator or for the end. -/
structure Uncut (s : StdString) : Prop where
  noDot : '.' ∉ s
  noColon : ':' ∉ s
  line : ∀ y ∈ s, dot y = true

namespace Uncut

variable {s s' : StdString}

theorem append (h : Uncut s) (h' : Uncut s') : Uncut (s ++ s') := by
  refine ⟨by simp [h.noDot, h'.noDot], by simp [h.noColon, h'.noColon], fun y hy => ?_⟩
  exact (List.mem_append.mp hy).elim (h.line y) (h'.line y)

theorem noDot_password (h : Uncut s) (h' : Uncut s') : '.' ∉ s ++ ':' :: s' := by
  have hne : '.' ≠ ':' := by decide
  simp [h.noDot, h'.noDot, hne]

theorem noColon_worker (h : Uncut s) (h' : Uncut s') : ':' ∉ s ++ '.' :: s' := by
  have hne : ':' ≠ '.' := by decide
  simp [h.noColon, h'.noColon, hne]

end Uncut

theorem writePieces_retext (f : StdString → StdString) (c : Credentials) :
    writePieces (retext f c.pieces) =
      c.user.shown f ++ ((c.worker.elim [] fun w => '.' :: w.shown f) ++
        c.password.elim [] fun p => ':' :: p.shown f) := by
  have hpiece : ∀ p : Part,
      (if p.quoted then quote (if p.quoted then f p.text else p.text)
        else if p.quoted then f p.text else p.text) = p.shown f := by
    intro p
    cases hp : p.quoted <;> simp [Part.shown, hp]
  obtain ⟨user, worker, password⟩ := c
  cases worker <;> cases password <;>
    simp [writePieces, retext, Credentials.pieces, Part.piece, hpiece]

/-- Parts without separators are cut where they are joined. -/
theorem splitLogin_retext {f : StdString → StdString} {c : Credentials}
    (h : ∀ p ∈ c.parts, Uncut (p.shown f)) :
    splitLogin (writePieces (retext f c.pieces)) =
      { user := c.user.shown f
        worker := c.worker.elim [] (Part.shown f)
        password := c.password.elim ['X'] (Part.shown f) } := by
  rw [writePieces_retext]
  obtain ⟨user, worker, password⟩ := c
  have hu : Uncut (user.shown f) := h user (by simp [Credentials.parts])
  cases worker with
  | none =>
    cases password with
    | none =>
      simp only [Option.elim_none, List.append_nil]
      exact splitLogin_user hu.noDot hu.noColon
    | some p =>
      have hp : Uncut (p.shown f) := h p (by simp [Credentials.parts])
      exact splitLogin_password hu.line hp.line (hu.noDot_password hp) hp.noColon
  | some w =>
    have hw : Uncut (w.shown f) := h w (by simp [Credentials.parts])
    cases password with
    | none =>
      simp only [Option.elim_none, Option.elim_some, List.append_nil]
      exact splitLogin_worker hu.line hw.line (hu.noColon_worker hw) hw.noDot
    | some p =>
      have hp : Uncut (p.shown f) := h p (by simp [Credentials.parts])
      exact splitLogin_both hu.line hw.line hp.line hw.noDot hp.noColon

theorem quotedTexts_eq (ps : List (StdString × Bool)) :
    quotedTexts ps = (ps.filter Prod.snd).map Prod.fst := by
  induction ps with
  | nil => rfl
  | cons p ps ih =>
    obtain ⟨s, quoted⟩ := p
    cases quoted with
    | false => exact ih
    | true => exact congrArg (s :: ·) ih

namespace Credentials

theorem quotedTexts_pieces (c : Credentials) :
    quotedTexts c.pieces = (c.parts.filter Part.quoted).map Part.text := by
  have hpiece : ∀ (p : Part) (ps : List (StdString × Bool)) (l : List Part),
      (ps.filter Prod.snd).map Prod.fst = (l.filter Part.quoted).map Part.text →
      ((p.piece :: ps).filter Prod.snd).map Prod.fst =
        ((p :: l).filter Part.quoted).map Part.text := by
    intro p ps l h
    cases hquoted : p.quoted <;> simp [Part.piece, hquoted, h]
  obtain ⟨user, worker, password⟩ := c
  rw [quotedTexts_eq]
  refine hpiece user _ _ ?_
  cases worker with
  | none =>
    cases password with
    | none => rfl
    | some p => exact hpiece p [] [] rfl
  | some w =>
    refine hpiece w _ _ ?_
    cases password with
    | none => rfl
    | some p => exact hpiece p [] [] rfl

theorem piece_mem_pieces {c : Credentials} {p : Part} (hp : p ∈ c.parts) : p.piece ∈ c.pieces := by
  obtain ⟨user, worker, password⟩ := c
  simp only [parts, List.mem_cons, List.mem_append, Option.mem_toList] at hp
  rcases hp with rfl | rfl | rfl
  · simp [pieces]
  · simp [pieces]
  · simp [pieces]

/-- If the authority is one line, so is every part. -/
theorem line_of_authority {c : Credentials} {d : Destination}
    (h : ∀ y ∈ authorityOf c d, dot y = true) : ∀ p ∈ c.parts, ∀ y ∈ p.text, dot y = true := by
  intro p hp y hy
  refine h y (List.mem_append_left _ (List.mem_flatMap.mpr ⟨p.piece, piece_mem_pieces hp, ?_⟩))
  cases hquoted : p.quoted with
  | false => simpa [Part.piece, hquoted] using hy
  | true => simp [Part.piece, hquoted, quote, hy]

theorem text_mem_quotedTexts {c : Credentials} {p : Part} (hp : p ∈ c.parts)
    (hquoted : p.quoted = true) : p.text ∈ quotedTexts c.pieces := by
  rw [quotedTexts_pieces]
  exact List.mem_map_of_mem (List.mem_filter.mpr ⟨hp, hquoted⟩)

theorem forall_quoted_iff (c : Credentials) (P : StdString → Prop) :
    (∀ p ∈ c.parts, p.quoted = true → P p.text) ↔ ∀ x ∈ quotedTexts c.pieces, P x := by
  rw [quotedTexts_pieces]
  simp only [List.forall_mem_map, List.mem_filter, and_imp]

theorem length_quotedTexts_le (c : Credentials) : (quotedTexts c.pieces).length ≤ 3 := by
  have hparts : c.parts.length ≤ 3 := by
    obtain ⟨user, worker, password⟩ := c
    cases worker <;> cases password <;> simp [parts]
  rw [quotedTexts_pieces, List.length_map]
  exact (List.length_filter_le _ _).trans hparts

end Credentials

section Safe

variable {texts : List StdString}

theorem unquoted_btickBlocks (h : ∀ x ∈ texts, '`' ∉ x) : Unquoted (btickBlocks texts) := by
  intro b hb
  obtain ⟨j, hj, hkey⟩ := mem_btickBlocks.mp hb
  rw [hkey]
  exact ⟨(inert_token j).backtick, h b.2 (List.mem_of_getElem? hj)⟩

/-- A text of a block is under one token only. -/
theorem eq_of_mem_btickBlocks {b b' : StdString × StdString} (hb : b ∈ btickBlocks texts)
    (hb' : b' ∈ btickBlocks texts) (h : b.1 = b'.1) : b = b' :=
  List.inj_on_of_nodup_map (nodup_btickBlocks texts) hb hb' h

/-- **A part in backticks comes back exactly if its token is not mistaken.** -/
theorem readBack_shown_iff {p : Part} (htexts : ∀ x ∈ texts, '`' ∉ x)
    (hmem : p.quoted = true → p.text ∈ texts) :
    readBack (btickBlocks texts) (p.shown (renamed (btickBlocks texts))) = p.text ↔
      (p.quoted = true → Unmistaken texts p.text) := by
  cases hquoted : p.quoted with
  | false =>
    have hshown : p.shown (renamed (btickBlocks texts)) = p.text := by
      rw [Part.shown, hquoted]
      rfl
    rw [hshown, readBack_of_inert _ p.inert]
    simp
  | true =>
    obtain ⟨j, hj⟩ := List.mem_iff_getElem?.mp (hmem hquoted)
    obtain ⟨b, hb, hname, htext⟩ := exists_renamed_eq
      ⟨(token j, p.text), mem_btickBlocks.mpr ⟨j, hj, rfl⟩, rfl⟩
    have hinert : Inert b.2 := by
      rcases htext with htext | ⟨b', hb', htext⟩
      · rw [htext]
        exact p.inert
      · obtain ⟨k, -, hkey⟩ := mem_btickBlocks.mp hb'
        rw [htext, hkey]
        exact inert_token k
    have hshown : p.shown (renamed (btickBlocks texts)) = quote b.1 := by
      rw [Part.shown, hquoted, hname]
      rfl
    rw [hshown, readBack_quote (unquoted_btickBlocks htexts) (nodup_btickBlocks texts) hb hinert,
      Unmistaken, hname]
    simp only [true_imp_iff]
    constructor
    · intro h
      rw [← h]
      exact hb
    · exact fun h => congrArg Prod.snd (eq_of_mem_btickBlocks hb h rfl)

theorem uncut_quote_token (k : ℕ) : Uncut (quote (token k)) := by
  have hdot : '.' ∉ token k := notMem_token (by decide) (by decide) k
  have hcolon : ':' ∉ token k := notMem_token (by decide) (by decide) k
  have hline : ∀ y ∈ token k, dot y = true := by
    intro y hy
    have hnewline : y ≠ '\n' := fun h => notMem_token (by decide) (by decide) k (h ▸ hy)
    have hreturn : y ≠ '\r' := fun h => notMem_token (by decide) (by decide) k (h ▸ hy)
    exact decide_eq_true ⟨hnewline, hreturn⟩
  have htick : dot '`' = true := by decide
  refine ⟨by simp [quote, hdot], by simp [quote, hcolon], fun y hy => ?_⟩
  have hy' : y = '`' ∨ y ∈ token k ∨ y = '`' := by simpa [quote] using hy
  rcases hy' with rfl | hy' | rfl
  · exact htick
  · exact hline y hy'
  · exact htick

theorem uncut_shown {p : Part} (hline : ∀ y ∈ p.text, dot y = true)
    (hmem : p.quoted = true → p.text ∈ texts) :
    Uncut (p.shown (renamed (btickBlocks texts))) := by
  cases hquoted : p.quoted with
  | false =>
    have hshown : p.shown (renamed (btickBlocks texts)) = p.text := by
      rw [Part.shown, hquoted]
      rfl
    rw [hshown]
    exact ⟨fun h => p.plain hquoted _ h (by simp), fun h => p.plain hquoted _ h (by simp), hline⟩
  | true =>
    obtain ⟨j, hj⟩ := List.mem_iff_getElem?.mp (hmem hquoted)
    obtain ⟨b, hb, hname, -⟩ := exists_renamed_eq
      ⟨(token j, p.text), mem_btickBlocks.mpr ⟨j, hj, rfl⟩, rfl⟩
    obtain ⟨k, -, hkey⟩ := mem_btickBlocks.mp hb
    have hshown : p.shown (renamed (btickBlocks texts)) = quote (token k) := by
      rw [Part.shown, hquoted, hname, hkey]
      rfl
    rw [hshown]
    exact uncut_quote_token k

end Safe

/-- **With safe separators** the credentials come back exactly if no token is mistaken. -/
theorem readLogin_eq_iff {c : Credentials} (more : List StdString) (hmore : ∀ x ∈ more, '`' ∉ x)
    (hline : ∀ p ∈ c.parts, ∀ y ∈ p.text, dot y = true)
    (hsafe : Undisturbed (gaps c.pieces) (quotedTexts c.pieces ++ more)) :
    readLogin (quotedTexts c.pieces ++ more) c.pieces = c.login ↔
      ∀ p ∈ c.parts, p.quoted = true → Unmistaken (quotedTexts c.pieces ++ more) p.text := by
  have htexts : ∀ x ∈ quotedTexts c.pieces ++ more, '`' ∉ x := by
    intro x hx
    rcases List.mem_append.mp hx with hx | hx
    · rw [quotedTexts_eq] at hx
      obtain ⟨p, hp, rfl⟩ := List.mem_map.mp hx
      exact c.noBacktick p (List.mem_filter.mp hp).1
    · exact hmore x hx
  have hmem : ∀ p ∈ c.parts, p.quoted = true → p.text ∈ quotedTexts c.pieces ++ more :=
    fun p hp hquoted => List.mem_append_left _ (c.text_mem_quotedTexts hp hquoted)
  have hempty : readBack (btickBlocks (quotedTexts c.pieces ++ more)) [] = [] :=
    readBack_of_inert _ ⟨by simp, by simp, by simp⟩
  have hdefault : readBack (btickBlocks (quotedTexts c.pieces ++ more)) ['X'] = ['X'] :=
    readBack_of_inert _ ⟨by decide, by decide, by decide⟩
  have hback : ∀ p ∈ c.parts, _ := fun p hp => readBack_shown_iff htexts (hmem p hp)
  rw [readLogin, tokenize_writePieces (unquoted_btickBlocks htexts) c.noBacktick
    (guarded_of_undisturbed hsafe), splitLogin_retext fun p hp => uncut_shown (hline p hp)
    (hmem p hp), Login.map, Credentials.login, Login.mk.injEq]
  generalize quotedTexts c.pieces ++ more = texts at *
  obtain ⟨user, worker, password⟩ := c
  have hu := hback user (by simp [Credentials.parts])
  cases worker with
  | none =>
    cases password with
    | none => simp [Credentials.parts, hempty, hdefault, hu]
    | some p =>
      have hp := hback p (by simp [Credentials.parts])
      simp [Credentials.parts, hempty, hu, hp]
  | some w =>
    have hw := hback w (by simp [Credentials.parts])
    cases password with
    | none => simp [Credentials.parts, hdefault, hu, hw]
    | some p =>
      have hp := hback p (by simp [Credentials.parts])
      simp [Credentials.parts, hu, hw, hp]

end Pool
end FpgaEthash
