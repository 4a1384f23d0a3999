import FpgaEthash.Getwork.Client
import FpgaEthash.Jsoncpp.Reader
import FpgaEthash.Text.JsonLines

/-!
# The body of a response

A node may lay out the body of its response as it likes: white space, line breaks among it, may
stand between any two tokens of the JSON text.  `handle_read` gives the body to the reader line by
line.  So `processResponse` is called once and with the value of the text if all its tokens stand
in one line, and if that line is read.

Every line that a delimiter ends is read.  What follows the last delimiter is read only if the
line before is empty, the one that ends the headers counted (`givenLines`).  `OneLine` puts the two
together; that nothing else will do is because a part of the text has fewer tokens than the whole,
and cannot have its value (`Jsoncpp.eq_tokens_of_value_eq`).
-/

namespace FpgaEthash
namespace Getwork

open Devcore Jsoncpp Json Pool Throwing
open Stratum (Abort Handlers Library TimePoint)

variable {μ : Type}

/-! ## The calls -/

section Calls

variable (lib : Library) (h : Handlers μ) (cfg : Settings) (now : TimePoint)

/-- The values that `processResponse` is called with for these texts of a body.  No more calls
are made when one of them, or the reader, has thrown. -/
def processed : List StdString → Exchange μ → List Value
  | [], _ => []
  | text :: texts, s =>
    match lib.parse text with
    | .error _ => []
    | .ok none => processed texts s
    | .ok (some jRes) =>
      jRes :: match processResponse lib h cfg now jRes s with
        | .ok _ s' => processed texts s'
        | .error _ _ => []

/-- The values that `processResponse` is called with by `handle_read`, after some data was read. -/
def GetworkClient.processedBy (data : StdString) (c : GetworkClient μ) : List Value :=
  let rxMessage := (c.response ++ data).take data.length
  if isAnswer rxMessage then
    processed lib h cfg now (bodyTexts true (cutLines [] rxMessage)) c.toExchange
  else []

variable {lib h cfg now} {texts : List StdString} {s : Exchange μ}

/-- **The calls are what the loop does** with the texts, unless the reader throws. -/
theorem forM_processText (hparse : ∀ text ∈ texts, ∃ r, lib.parse text = .ok r) :
    texts.forM (processText lib h cfg now) s =
      (processed lib h cfg now texts s).forM (processResponse lib h cfg now) s := by
  induction texts generalizing s with
  | nil => rfl
  | cons text texts ih =>
    have hrest : ∀ text ∈ texts, ∃ r, lib.parse text = .ok r := fun x hx =>
      hparse x (List.mem_cons_of_mem _ hx)
    obtain ⟨r, hr⟩ := hparse text List.mem_cons_self
    rw [processed, hr]
    cases r with
    | none =>
      have htext : processText lib h cfg now text s = .ok () s := ofExcept_bind_ok hr
      exact (bind_of_ok htext).trans (ih hrest)
    | some jRes =>
      have htext : processText lib h cfg now text s = processResponse lib h cfg now jRes s :=
        ofExcept_bind_ok hr
      dsimp only
      cases hcall : processResponse lib h cfg now jRes s with
      | ok u s' =>
        let calls := (processed lib h cfg now texts s').forM (processResponse lib h cfg now)
        have hcalls : (processResponse lib h cfg now jRes >>= fun _ => calls) s = calls s' :=
          bind_of_ok hcall
        exact (bind_of_ok (htext.trans hcall)).trans ((ih hrest).trans hcalls.symm)
      | error e s' =>
        exact (bind_of_error (htext.trans hcall)).trans (bind_of_error hcall).symm

theorem exists_of_mem_processed {v : Value} (hv : v ∈ processed lib h cfg now texts s) :
    ∃ text ∈ texts, lib.parse text = .ok (some v) := by
  induction texts generalizing s with
  | nil => exact absurd hv List.not_mem_nil
  | cons text texts ih =>
    have hrest : ∀ {s'}, v ∈ processed lib h cfg now texts s' →
        ∃ x ∈ text :: texts, lib.parse x = .ok (some v) := by
      intro s' hmem
      obtain ⟨x, hx, hparse⟩ := ih hmem
      exact ⟨x, List.mem_cons_of_mem _ hx, hparse⟩
    rw [processed] at hv
    split at hv
    · exact absurd hv List.not_mem_nil
    · exact hrest hv
    · next jRes hparse =>
      rcases List.mem_cons.mp hv with rfl | hv
      · exact ⟨text, List.mem_cons_self, hparse⟩
      · split at hv
        · exact hrest hv
        · exact absurd hv List.not_mem_nil

theorem processed_of_none (hnone : ∀ text ∈ texts, lib.parse text = .ok none) :
    processed lib h cfg now texts s = [] := by
  refine List.eq_nil_iff_forall_not_mem.mpr fun v hv => ?_
  obtain ⟨text, htext, hparse⟩ := exists_of_mem_processed hv
  exact nomatch (hnone text htext).symm.trans hparse

/-- One text has a value, and the others have none. -/
theorem processed_of_single {text : StdString} {v : Value} {before after : List StdString}
    (hbefore : ∀ x ∈ before, lib.parse x = .ok none) (htext : lib.parse text = .ok (some v))
    (hafter : ∀ x ∈ after, lib.parse x = .ok none) :
    processed lib h cfg now (before ++ text :: after) s = [v] := by
  induction before with
  | nil =>
    rw [List.nil_append, processed, htext]
    dsimp only
    split
    · rw [processed_of_none hafter]
    · rfl
  | cons x before ih =>
    rw [List.cons_append, processed, hbefore x List.mem_cons_self]
    exact ih fun y hy => hbefore y (List.mem_cons_of_mem _ hy)

end Calls

/-! ## The lines that are read -/

/-- The lines of a body that are given to the reader: those that a delimiter ends, unless they are
empty, and what follows the last delimiter, if there is an empty line before it. -/
def givenLines {α : Type} (strip : List α → List α) : List (List α) → List (List α)
  | [] :: last :: [] => [strip last]
  | [] :: line :: next :: rest => givenLines strip (line :: next :: rest)
  | (c :: line) :: next :: rest => (c :: line) :: givenLines strip (next :: rest)
  | _ => []

theorem splitPair_crlf_cons {c : Char} {text : StdString} (seen : StdString)
    (hne : ∀ rest, c = '\r' → text = '\n' :: rest → False) :
    splitPair '\r' '\n' seen (c :: text) = splitPair '\r' '\n' (seen ++ [c]) text := by
  refine splitPair_cons fun hc hhead => ?_
  obtain ⟨rest, htext⟩ := List.head?_eq_some_iff.mp hhead
  exact hne rest hc htext

/-- There is a delimiter in the text, or the text is one line. -/
theorem cutLines_cases (seen text : StdString) :
    (cutLines seen text = [] ∧ splitPair '\r' '\n' seen text = [seen ++ text]) ∨
      (cutLines seen text ≠ [] ∧
        ∃ line next rest, splitPair '\r' '\n' seen text = line :: next :: rest) := by
  induction seen, text using cutLines.induct with
  | case1 seen => exact .inl ⟨rfl, by rw [splitPair, List.append_nil]⟩
  | case2 seen text ih =>
    refine .inr ⟨List.cons_ne_nil _ _, ?_⟩
    obtain ⟨next, rest, hnext⟩ := List.exists_cons_of_ne_nil (splitPair_ne_nil '\r' '\n' [] text)
    exact ⟨seen, next, rest, by rw [splitPair_pair, hnext]⟩
  | case3 seen c text hne ih =>
    rw [List.append_assoc, List.singleton_append] at ih
    rw [cutLines.eq_3 _ _ _ hne, splitPair_crlf_cons seen hne]
    exact ih

theorem bodyTexts_cutLines (seen text : StdString) :
    bodyTexts false (cutLines seen text) =
      givenLines (List.filter (· != '\n')) (splitPair '\r' '\n' seen text) := by
  induction seen, text using cutLines.induct with
  | case1 seen => cases seen <;> rfl
  | case2 seen text ih =>
    rw [cutLines, splitPair_pair]
    rcases cutLines_cases [] text with ⟨hcut, hsplit⟩ | ⟨hcut, line, next, rest, hsplit⟩
    · rw [hcut, hsplit, List.nil_append]
      cases seen with
      | nil => rfl
      | cons c seen => cases text <;> rfl
    · rw [hsplit] at ih ⊢
      cases seen with
      | nil =>
        rw [givenLines, ← ih]
        exact if_neg fun hempty => hcut (List.isEmpty_iff.mp hempty)
      | cons c seen => exact congrArg (_ :: ·) ih
  | case3 seen c text hne ih => rw [cutLines.eq_3 _ _ _ hne, splitPair_crlf_cons seen hne, ih]

section GivenLines

variable {α β : Type} {strip : List α → List α} {strip' : List β → List β}

@[simp] theorem givenLines_singleton (line : List α) : givenLines strip [line] = [] := by
  cases line <;> rfl

theorem givenLines_cons {line : List α} (hline : line ≠ []) (next : List α)
    (rest : List (List α)) :
    givenLines strip (line :: next :: rest) = line :: givenLines strip (next :: rest) := by
  obtain ⟨c, line, rfl⟩ := List.exists_cons_of_ne_nil hline
  rfl

/-- Lines may be read as something else. -/
theorem givenLines_map {f : List α → List β} (hnil : ∀ line, f line = [] ↔ line = [])
    (hstrip : ∀ line, strip' (f line) = f (strip line)) :
    ∀ rows, givenLines strip' (rows.map f) = (givenLines strip rows).map f
  | [] => rfl
  | [line] => by
      rw [List.map_singleton, givenLines_singleton, givenLines_singleton, List.map_nil]
  | [[], last] => by
      rw [List.map_cons, (hnil []).mpr rfl]
      exact congrArg (fun x => [x]) (hstrip last)
  | [] :: line :: next :: rest => by
      rw [List.map_cons, (hnil []).mpr rfl]
      exact givenLines_map hnil hstrip (line :: next :: rest)
  | (c :: line) :: next :: rest => by
      have hline : f (c :: line) ≠ [] := fun h => List.cons_ne_nil _ _ ((hnil _).mp h)
      rw [List.map_cons, List.map_cons, givenLines_cons hline, givenLines, List.map_cons,
        ← givenLines_map hnil hstrip (next :: rest), List.map_cons]

theorem mem_givenLines_cons {line x : List α} {rows : List (List α)}
    (hx : x ∈ givenLines strip rows) : x ∈ givenLines strip (line :: rows) := by
  match rows, line with
  | [], _ => exact absurd hx List.not_mem_nil
  | [_], _ => exact absurd (givenLines_singleton _ ▸ hx) List.not_mem_nil
  | _ :: _ :: _, [] => exact hx
  | _ :: _ :: _, _ :: _ => exact List.mem_cons_of_mem _ hx

end GivenLines

/-- A line without its line feeds. -/
abbrev stripLine : List Piece → List Piece := List.filter (· ≠ .blank .lineFeed)

/-- The lines that are given have no more tokens than all of them. -/
theorem length_flatMap_givenLines_le : ∀ rows : List (List Piece),
    ((givenLines stripLine rows).flatMap tokensOf).length ≤ (rows.flatMap tokensOf).length
  | [] => Nat.le_refl _
  | [line] => by
      rw [givenLines_singleton]
      exact Nat.zero_le _
  | [[], last] => by
      have hlast : ([stripLine last].flatMap tokensOf) = [last].flatMap tokensOf :=
        congrArg (· ++ []) (tokensOf_filter last)
      exact Nat.le_of_eq (congrArg List.length hlast)
  | [] :: line :: next :: rest => length_flatMap_givenLines_le (line :: next :: rest)
  | (c :: line) :: next :: rest => by
      have ih := length_flatMap_givenLines_le (next :: rest)
      rw [givenLines, List.flatMap_cons, List.flatMap_cons, List.length_append, List.length_append]
      exact Nat.add_le_add_left ih _

/-- Some line has these tokens and is read: a delimiter ends it, or it is the last and follows an
empty one. -/
def ReadLine (tokens : List (Token Quoted Word)) (rows : List (List Piece)) : Prop :=
  ∃ before line after, rows = before ++ line :: after ∧ tokensOf line = tokens ∧
    (after ≠ [] ∨ before.getLast? = some [])

theorem ReadLine.cons {tokens : List (Token Quoted Word)} {rows : List (List Piece)}
    (h : ReadLine tokens rows) (row : List Piece) : ReadLine tokens (row :: rows) := by
  obtain ⟨before, line, after, rfl, htokens, hread⟩ := h
  refine ⟨row :: before, line, after, rfl, htokens, hread.imp_right fun hlast => ?_⟩
  rw [List.getLast?_cons, hlast]
  rfl

theorem readLine_of_mem_givenLines {tokens : List (Token Quoted Word)} :
    ∀ {rows : List (List Piece)} {line : List Piece}, line ∈ givenLines stripLine rows →
      tokensOf line = tokens → ReadLine tokens rows
  | [], _, hline, _ => absurd hline List.not_mem_nil
  | [_], _, hline, _ => absurd (givenLines_singleton _ ▸ hline) List.not_mem_nil
  | [[], last], line, hline, htokens => by
      obtain rfl := List.mem_singleton.mp hline
      rw [tokensOf_filter] at htokens
      exact ⟨[[]], last, [], rfl, htokens, .inr rfl⟩
  | [] :: row :: next :: rest, line, hline, htokens => by
      have hrest : ReadLine tokens (row :: next :: rest) :=
        readLine_of_mem_givenLines hline htokens
      exact hrest.cons []
  | (c :: row) :: next :: rest, line, hline, htokens => by
      rcases List.mem_cons.mp hline with rfl | hline
      · exact ⟨[], _, next :: rest, rfl, htokens, .inl (List.cons_ne_nil _ _)⟩
      · exact (readLine_of_mem_givenLines hline htokens).cons _

theorem exists_mem_givenLines {tokens : List (Token Quoted Word)} (hne : tokens ≠ [])
    {rows : List (List Piece)} (h : ReadLine tokens rows) :
    ∃ line ∈ givenLines stripLine rows, tokensOf line = tokens := by
  obtain ⟨before, line, after, rfl, htokens, hread⟩ := h
  have hline : line ≠ [] := by
    rintro rfl
    exact hne htokens.symm
  induction before with
  | nil =>
    obtain ⟨next, rest, rfl⟩ := List.exists_cons_of_ne_nil (hread.resolve_right nofun)
    have hmem : line ∈ givenLines stripLine (line :: next :: rest) := by
      rw [givenLines_cons hline]
      exact List.mem_cons_self
    exact ⟨line, hmem, htokens⟩
  | cons row before ih =>
    by_cases hrest : after ≠ [] ∨ before.getLast? = some []
    · obtain ⟨x, hx, hxtokens⟩ := ih hrest
      exact ⟨x, mem_givenLines_cons hx, hxtokens⟩
    · rw [not_or, not_not] at hrest
      obtain ⟨rfl, hbefore⟩ := hrest
      have hlast := hread.resolve_left (not_not_intro rfl)
      cases before with
      | nil =>
        obtain rfl := Option.some.inj hlast
        exact ⟨stripLine line, List.mem_singleton.mpr rfl, (tokensOf_filter line).trans htokens⟩
      | cons b before => exact absurd hlast hbefore

/-! ## Responses -/

/-- No delimiter in a line. -/
def Unbroken (line : StdString) : Prop := ¬ ['\r', '\n'] <:+: line

instance (line : StdString) : Decidable (Unbroken line) := inferInstanceAs (Decidable (¬ _))

/-- A response with status 200, whose body is a JSON text. -/
structure JsonAnswer (t : Tree Quoted Word) where
  version : StdString
  reason : StdString
  headers : List StdString
  body : List Piece
  version_ok : ' ' ∉ version
  status_ok : Unbroken ("HTTP/1.".toList ++ version ++ " 200".toList ++ reason)
  headers_ok : ∀ line ∈ headers, line ≠ [] ∧ Unbroken line
  body_ok : tokensOf body = t.tokens

namespace JsonAnswer

variable {t : Tree Quoted Word} (a : JsonAnswer t)

def statusLine : StdString := "HTTP/1.".toList ++ a.version ++ " 200".toList ++ a.reason

def text : StdString :=
  a.statusLine ++ '\r' :: '\n' :: (a.headers.flatMap (· ++ ['\r', '\n']) ++
    '\r' :: '\n' :: spell a.body)

end JsonAnswer

theorem cutLines_line {line : StdString} (hline : Unbroken line) (seen rest : StdString) :
    cutLines seen (line ++ '\r' :: '\n' :: rest) = (seen ++ line, rest) :: cutLines [] rest := by
  induction line generalizing seen with
  | nil => rw [List.nil_append, List.append_nil, cutLines]
  | cons c line ih =>
    have hne : ∀ x, c = '\r' → line ++ '\r' :: '\n' :: rest = '\n' :: x → False := by
      rintro x rfl hx
      cases line with
      | nil => exact absurd (List.cons.inj hx).1 (by decide)
      | cons d line =>
        obtain rfl := (List.cons.inj hx).1
        exact hline ⟨[], line, rfl⟩
    have hrest : Unbroken line := fun h => hline (h.trans (List.suffix_cons c line).isInfix)
    rw [List.cons_append, cutLines.eq_3 _ _ _ hne, ih hrest, List.append_assoc,
      List.singleton_append]

/-- The headers are passed over. -/
theorem bodyTexts_headers {headers : List StdString}
    (hheaders : ∀ line ∈ headers, line ≠ [] ∧ Unbroken line) (rest : StdString) :
    bodyTexts true (cutLines [] (headers.flatMap (· ++ ['\r', '\n']) ++ '\r' :: '\n' :: rest)) =
      bodyTexts true (([], rest) :: cutLines [] rest) := by
  induction headers with
  | nil => rfl
  | cons line headers ih =>
    obtain ⟨hne, hunbroken⟩ := hheaders line List.mem_cons_self
    obtain ⟨c, line, rfl⟩ := List.exists_cons_of_ne_nil hne
    rw [List.flatMap_cons, List.append_assoc, List.append_assoc]
    refine (congrArg (bodyTexts true) (cutLines_line hunbroken [] _)).trans ?_
    exact ih fun x hx => hheaders x (List.mem_cons_of_mem _ hx)

/-- The empty line behind the headers counts as a line before the body. -/
theorem bodyTexts_body (rest : StdString) :
    bodyTexts true (([], rest) :: cutLines [] rest) =
      givenLines (List.filter (· != '\n')) ([] :: splitPair '\r' '\n' [] rest) := by
  have hbody := bodyTexts_cutLines [] ('\r' :: '\n' :: rest)
  rw [splitPair_pair] at hbody
  exact hbody

namespace JsonAnswer

variable {t : Tree Quoted Word} (a : JsonAnswer t)

theorem isStatus200_statusLine : isStatus200 a.statusLine = true := by
  have hversion : a.version.dropWhile (· != ' ') = [] := by
    refine List.dropWhile_eq_nil_iff.mpr fun c hc => bne_iff_ne.mpr ?_
    rintro rfl
    exact a.version_ok hc
  have hline : a.statusLine = "HTTP/1.".toList ++ a.version ++ " 200".toList ++ a.reason := rfl
  rw [isStatus200, hline]
  simp [List.dropWhile_append, hversion]

theorem cutLines_text :
    cutLines [] a.text = (a.statusLine,
        a.headers.flatMap (· ++ ['\r', '\n']) ++ '\r' :: '\n' :: spell a.body) ::
      cutLines [] (a.headers.flatMap (· ++ ['\r', '\n']) ++ '\r' :: '\n' :: spell a.body) :=
  cutLines_line a.status_ok [] _

theorem isAnswer_text : GetworkClient.isAnswer a.text = true := by
  rw [GetworkClient.isAnswer, a.cutLines_text, isRefused, a.isStatus200_statusLine]
  rfl

/-- **The texts that the reader is given** are those of the lines that are read. -/
theorem bodyTexts_text :
    bodyTexts true (cutLines [] a.text) =
      (givenLines stripLine ([] :: lines a.body)).map spell := by
  have hmap := givenLines_map (fun _ => spell_eq_nil_iff) filter_spell
    ([] :: lines a.body)
  rw [a.cutLines_text]
  refine (bodyTexts_headers a.headers_ok _).trans ?_
  rw [bodyTexts_body, ← hmap, List.map_cons, lines, ← splitPair_spell]
  rfl

end JsonAnswer

/-! ## Calls with the value of the text -/

/-- All tokens of the body stand in one line.  A delimiter ends it; or there is none in the body;
or the line is the last and the line before it is empty. -/
def OneLine (body : List Piece) : Prop :=
  ∃ before line after, lines body = before ++ line :: after ∧ tokensOf line = tokensOf body ∧
    (after ≠ [] ∨ before = [] ∨ before.getLast? = some [])

theorem readLine_iff_oneLine {body : List Piece} (hne : tokensOf body ≠ []) :
    ReadLine (tokensOf body) ([] :: lines body) ↔ OneLine body := by
  constructor
  · rintro ⟨before, line, after, hlines, htokens, hread⟩
    cases before with
    | nil =>
      obtain rfl := (List.cons.inj hlines).1
      exact absurd htokens.symm hne
    | cons row before =>
      obtain ⟨rfl, hrest⟩ := List.cons.inj hlines
      refine ⟨before, line, after, hrest, htokens, hread.imp_right fun hlast => ?_⟩
      cases before with
      | nil => exact .inl rfl
      | cons b before => exact .inr hlast
  · rintro ⟨before, line, after, hlines, htokens, hread⟩
    refine ⟨[] :: before, line, after, by rw [hlines]; rfl, htokens, hread.imp_right ?_⟩
    rintro (rfl | hlast)
    · rfl
    · rw [List.getLast?_cons, hlast]
      rfl

/-- A line that is given has a part of the tokens. -/
theorem tokensOf_isInfix {body line : List Piece}
    (hline : line ∈ givenLines stripLine ([] :: lines body)) :
    tokensOf line <:+: tokensOf body := by
  obtain ⟨before, row, after, hlines, htokens, -⟩ := readLine_of_mem_givenLines hline rfl
  have hall : ([] :: lines body).flatMap tokensOf = tokensOf body :=
    flatMap_tokensOf_linesFrom [] body
  rw [hlines, List.flatMap_append, List.flatMap_cons, htokens, ← List.append_assoc] at hall
  exact ⟨_, _, hall⟩

section Once

variable {lib : Library} {h : Handlers μ} {cfg : Settings} {now : TimePoint} {d : Decoding}
  {t : Tree Quoted Word} (a : JsonAnswer t) (c : GetworkClient μ) {data : StdString}

theorem processedBy_eq (hdata : (c.response ++ data).take data.length = a.text) :
    c.processedBy lib h cfg now data =
      processed lib h cfg now ((givenLines stripLine ([] :: lines a.body)).map spell)
        c.toExchange := by
  rw [GetworkClient.processedBy, hdata, ← a.bodyTexts_text]
  exact if_pos a.isAnswer_text

/-- What the reader finds in the lines that are given. -/
theorem parse_line (hreader : ReadsParts lib.parse d t) {line : List Piece}
    (hline : line ∈ givenLines stripLine ([] :: lines a.body)) :
    lib.parse (spell line) = .ok ((firstTree (tokensOf line)).map d.value) :=
  hreader line (a.body_ok ▸ tokensOf_isInfix hline)

/-- If a line with all the tokens is given, the others have none. -/
theorem processed_of_oneLine (hreader : ReadsParts lib.parse d t) (hone : OneLine a.body)
    (s : Exchange μ) :
    processed lib h cfg now ((givenLines stripLine ([] :: lines a.body)).map spell) s =
      [d.value t] := by
  have hne : tokensOf a.body ≠ [] := a.body_ok ▸ t.tokens_ne_nil
  obtain ⟨line, hline, htokens⟩ := exists_mem_givenLines hne ((readLine_iff_oneLine hne).mpr hone)
  obtain ⟨before, after, hgiven⟩ := List.append_of_mem hline
  have hall : ([] :: lines a.body).flatMap tokensOf = tokensOf a.body :=
    flatMap_tokensOf_linesFrom [] a.body
  have hlength := length_flatMap_givenLines_le ([] :: lines a.body)
  rw [hall, hgiven, List.flatMap_append, List.flatMap_cons, List.length_append, List.length_append,
    htokens] at hlength
  have hnone : ∀ x ∈ givenLines stripLine ([] :: lines a.body), tokensOf x = [] →
      lib.parse (spell x) = .ok none := by
    intro x hx hempty
    rw [parse_line a hreader hx, hempty]
    rfl
  have hbefore : before.flatMap tokensOf = [] := List.length_eq_zero_iff.mp (by omega)
  have hafter : after.flatMap tokensOf = [] := List.length_eq_zero_iff.mp (by omega)
  have htext : lib.parse (spell line) = .ok (some (d.value t)) := by
    rw [parse_line a hreader hline, htokens, a.body_ok, firstTree_tokens]
    rfl
  rw [hgiven] at hnone ⊢
  rw [List.map_append, List.map_cons]
  refine processed_of_single ?_ htext ?_
  · intro text hmem
    obtain ⟨x, hx, rfl⟩ := List.mem_map.mp hmem
    exact hnone x (List.mem_append_left _ hx) (List.flatMap_eq_nil_iff.mp hbefore x hx)
  · intro text hmem
    obtain ⟨x, hx, rfl⟩ := List.mem_map.mp hmem
    exact hnone x (List.mem_append_right _ (List.mem_cons_of_mem _ hx))
      (List.flatMap_eq_nil_iff.mp hafter x hx)

/-- **A JSON text in the body** of a response: `processResponse` is called exactly once, and with
the value of the text, if all tokens stand in one line that is read; and, unless some object has a
name twice, only then. -/
theorem processed_once_iff (hreader : ReadsParts lib.parse d t)
    (hdata : (c.response ++ data).take data.length = a.text) :
    (OneLine a.body → c.processedBy lib h cfg now data = [d.value t]) ∧
      (d.UniqueNames t → c.processedBy lib h cfg now data = [d.value t] → OneLine a.body) := by
  rw [processedBy_eq a c hdata]
  refine ⟨fun hone => processed_of_oneLine a hreader hone _, fun hunique hcalls => ?_⟩
  have hmem : d.value t ∈ processed lib h cfg now
      ((givenLines stripLine ([] :: lines a.body)).map spell) c.toExchange := by
    rw [hcalls]
    exact List.mem_singleton_self _
  obtain ⟨text, htext, hvalue⟩ := exists_of_mem_processed hmem
  obtain ⟨line, hline, rfl⟩ := List.mem_map.mp htext
  rw [parse_line a hreader hline] at hvalue
  obtain ⟨k, hfirst, hk⟩ := Option.map_eq_some_iff.mp (Except.ok.inj hvalue)
  have htokens : tokensOf line = tokensOf a.body := by
    rw [a.body_ok]
    exact eq_tokens_of_value_eq (a.body_ok ▸ tokensOf_isInfix hline) hfirst hunique hk
  have hne : tokensOf a.body ≠ [] := a.body_ok ▸ t.tokens_ne_nil
  exact (readLine_iff_oneLine hne).mp (readLine_of_mem_givenLines hline htokens)

end Once

/-! ## A body in two lines -/

/-- Texts as they stand between the quotes, and numbers by their digits. -/
def plainDecoding : Decoding where
  text := Quoted.body
  word w :=
    if w.chars = "true".toList then .bool true
    else if w.chars = "false".toList then .bool false
    else if w.chars = "null".toList then .null
    else .int (w.chars.foldl (fun n c => 10 * n + (c.toNat - 48)) 0)
  scalar w := by split_ifs <;> rfl

/-- A library with the reader that finds the tokens first. -/
def plainLibrary : Library := { (default : Library) with parse := readJson plainDecoding }

/-- An object with an `id` and a `result`. -/
def idResult : Tree Quoted Word :=
  .object (.cons ⟨"id".toList, by decide⟩ (.word ⟨"1".toList, by decide⟩)
    (.cons ⟨"result".toList, by decide⟩ (.word ⟨"true".toList, by decide⟩) .nil))

/-- A response with this object. -/
def idResultAnswer (body : List Piece) (hbody : tokensOf body = idResult.tokens) :
    JsonAnswer idResult where
  version := "1".toList
  reason := " OK".toList
  headers := ["Content-Type: application/json".toList]
  body
  version_ok := by decide
  status_ok := by decide
  headers_ok := by decide
  body_ok := hbody

/-- The object in one line. -/
def flatAnswer : JsonAnswer idResult := idResultAnswer (idResult.tokens.map .token) rfl

/-- The object with a line break behind its first token. -/
def foldedAnswer : JsonAnswer idResult :=
  idResultAnswer ((idResult.tokens.take 1).map .token ++ .blank .carriageReturn ::
    .blank .lineFeed :: (idResult.tokens.drop 1).map .token) rfl

theorem flat_processed_once :
    let conn : Uri := { version := 0, hostNameType := .ipv4 }
    let cfg : Settings := { worktimeout := 180, farmRecheckPeriod := 500 }
    let c : GetworkClient Unit := .create conn 0 () 0
    plainDecoding.UniqueNames idResult ∧ OneLine flatAnswer.body ∧
      c.processedBy plainLibrary {} cfg 0 flatAnswer.text =
        [.object [("id".toList, .int 1), ("result".toList, .bool true)]] := by
  intro conn cfg c
  have hunique : plainDecoding.UniqueNames idResult := ⟨by decide, trivial, trivial, trivial⟩
  have hvalue : plainDecoding.value idResult =
      .object [("id".toList, .int 1), ("result".toList, .bool true)] := rfl
  have hone : OneLine flatAnswer.body := ⟨[], flatAnswer.body, [], rfl, rfl, .inr (.inl rfl)⟩
  have hdata : (c.response ++ flatAnswer.text).take flatAnswer.text.length = flatAnswer.text :=
    List.take_length
  have hcalls : c.processedBy plainLibrary {} cfg 0 flatAnswer.text =
      [plainDecoding.value idResult] :=
    (processed_once_iff flatAnswer c (readsParts_readJson plainDecoding idResult) hdata).1 hone
  rw [hvalue] at hcalls
  exact ⟨hunique, hone, hcalls⟩

/-- The first line is no JSON text, and the second is never read. -/
theorem folded_not_processed :
    let conn : Uri := { version := 0, hostNameType := .ipv4 }
    let cfg : Settings := { worktimeout := 180, farmRecheckPeriod := 500 }
    let c : GetworkClient Unit := .create conn 0 () 0
    foldedAnswer.text = ("HTTP/1.1 200 OK\r\nContent-Type: application/json\r\n\r\n" ++
        "\x7b\r\n\"id\":1,\"result\":true\x7d").toList ∧
      ReadsParts plainLibrary.parse plainDecoding idResult ∧
      c.processedBy plainLibrary {} cfg 0 foldedAnswer.text = [] := by
  refine ⟨by decide +kernel, readsParts_readJson _ _, ?_⟩
  exact List.isEmpty_iff.mp (by decide +kernel)

end Getwork
end FpgaEthash
