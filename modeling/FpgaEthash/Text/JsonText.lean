import FpgaEthash.Text.JsonTree

/-!
# The spelling of JSON tokens

A JSON text is written as a list of pieces: tokens, and white space between them.  `spell` is the
text of such a list, and `lex` finds the tokens in a text, a character at a time.

White space may be left out wherever one of two neighbours is not a word, since a word ends at the
first character that cannot belong to one.  Two words are never neighbours in a JSON text
(`Tree.isChain_tokens`), so that the tokens of every part of it can be found whatever white space
there is (`lex_spell`).
-/

namespace FpgaEthash
namespace Json

/-! ## Characters -/

/-- White space. -/
inductive Blank where
  | space
  | tab
  | lineFeed
  | carriageReturn
  deriving DecidableEq, Repr

def Blank.char : Blank → Char
  | space => ' '
  | tab => '\t'
  | lineFeed => '\n'
  | carriageReturn => '\r'

def Mark.char : Mark → Char
  | beginArray => '['
  | endArray => ']'
  | beginObject => '\x7b'
  | endObject => '\x7d'
  | comma => ','
  | colon => ':'

/-- The characters of words. -/
def isWordChar (c : Char) : Bool := c.isAlphanum || c == '+' || c == '-' || c == '.'

/-! ## Words -/

/-- Digits, at least one. -/
def dropDigits : List Char → Option (List Char)
  | c :: s => if c.isDigit then some (s.dropWhile Char.isDigit) else none
  | [] => none

/-- The digits of an integer.  There are none behind a leading zero. -/
def dropInteger : List Char → Option (List Char)
  | '0' :: s => some s
  | s => dropDigits s

def dropFraction : List Char → Option (List Char)
  | '.' :: s => dropDigits s
  | s => some s

def dropSign : List Char → List Char
  | '+' :: s => s
  | '-' :: s => s
  | s => s

def dropExponent : List Char → Option (List Char)
  | 'e' :: s => dropDigits (dropSign s)
  | 'E' :: s => dropDigits (dropSign s)
  | s => some s

/-- A number. -/
def isNumber : List Char → Bool
  | '-' :: s => ((dropInteger s).bind dropFraction).bind dropExponent == some []
  | s => ((dropInteger s).bind dropFraction).bind dropExponent == some []

/-- A number or a literal name. -/
def isWord (s : List Char) : Bool :=
  s.all isWordChar &&
    (isNumber s || s == "true".toList || s == "false".toList || s == "null".toList)

/-- The characters of a word. -/
structure Word where
  chars : List Char
  ok : isWord chars = true
  deriving DecidableEq

/-- The word with these characters, if it is one. -/
def Word.of (s : List Char) : Option Word := if h : isWord s = true then some ⟨s, h⟩ else none

theorem Word.of_chars (w : Word) : Word.of w.chars = some w := dif_pos w.ok

theorem Word.isWordChar_of_mem (w : Word) {c : Char} (hc : c ∈ w.chars) : isWordChar c = true :=
  List.all_eq_true.mp (Bool.and_eq_true_iff.mp w.ok).1 c hc

theorem Word.chars_ne_nil (w : Word) : w.chars ≠ [] := by
  intro h
  have hok := w.ok
  rw [h] at hok
  exact absurd hok (by decide)

/-! ## Texts in quotes -/

/-- What may follow a backslash. -/
def isEscape (c : Char) (rest : List Char) : Bool :=
  "\"\\/bfnrt".toList.contains c ||
    (c == 'u' && decide (4 ≤ rest.length) &&
      (rest.take 4).all fun x => x.isDigit || "abcdefABCDEF".toList.contains x)

/-- What may stand between quotes: no control characters, and quotes and backslashes escaped. -/
def isBody : List Char → Bool
  | [] => true
  | '\\' :: c :: s => isEscape c s && isBody s
  | c :: s => c != '"' && c != '\\' && decide (32 ≤ c.toNat) && isBody s

/-- What stands between the quotes of a text. -/
structure Quoted where
  body : List Char
  ok : isBody body = true
  deriving DecidableEq

/-- The text with this body, if it is one. -/
def Quoted.of (s : List Char) : Option Quoted := if h : isBody s = true then some ⟨s, h⟩ else none

theorem Quoted.of_body (s : Quoted) : Quoted.of s.body = some s := dif_pos s.ok

theorem le_toNat_of_isEscape {c : Char} {rest : List Char} (h : isEscape c rest = true) :
    32 ≤ c.toNat := by
  rcases Bool.or_eq_true_iff.mp h with h | h
  · have hall : "\"\\/bfnrt".toList.all (fun x => decide (32 ≤ x.toNat)) = true := by decide
    exact of_decide_eq_true (List.all_eq_true.mp hall c (List.contains_iff_mem.mp h))
  · have hc := (Bool.and_eq_true_iff.mp (Bool.and_eq_true_iff.mp h).1).1
    rw [beq_iff_eq.mp hc]
    decide

/-- There are no control characters between quotes. -/
theorem le_toNat_of_mem_body {s : List Char} (hs : isBody s = true) {c : Char} (hc : c ∈ s) :
    32 ≤ c.toNat := by
  induction s using isBody.induct with
  | case1 => exact absurd hc List.not_mem_nil
  | case2 e s ih =>
    obtain ⟨hescape, hrest⟩ := Bool.and_eq_true_iff.mp hs
    rcases List.mem_cons.mp hc with rfl | hc
    · decide
    · rcases List.mem_cons.mp hc with rfl | hc
      · exact le_toNat_of_isEscape hescape
      · exact ih hrest hc
  | case3 x s hne ih =>
    rw [isBody.eq_3 _ _ hne] at hs
    obtain ⟨hfirst, hrest⟩ := Bool.and_eq_true_iff.mp hs
    rcases List.mem_cons.mp hc with rfl | hc
    · exact of_decide_eq_true (Bool.and_eq_true_iff.mp hfirst).2
    · exact ih hrest hc

/-! ## Spelling -/

namespace Token

/-- The text of a token. -/
def chars : Token Quoted Word → List Char
  | mark m => [m.char]
  | text s => '"' :: (s.body ++ ['"'])
  | word w => w.chars

end Token

/-- A piece of a JSON text. -/
inductive Piece where
  | token (t : Token Quoted Word)
  | blank (b : Blank)
  deriving DecidableEq

namespace Piece

/-- The text of a piece. -/
def chars : Piece → List Char
  | token t => t.chars
  | blank b => [b.char]

/-- The token that a piece is. -/
def token? : Piece → Option (Token Quoted Word)
  | token t => some t
  | blank _ => none

end Piece

/-- The text of some pieces. -/
def spell (ps : List Piece) : List Char := ps.flatMap Piece.chars

/-- The tokens among some pieces. -/
def tokensOf (ps : List Piece) : List (Token Quoted Word) := ps.filterMap Piece.token?

@[simp] theorem tokensOf_nil : tokensOf [] = [] := rfl

@[simp] theorem tokensOf_token_cons (t : Token Quoted Word) (ps : List Piece) :
    tokensOf (.token t :: ps) = t :: tokensOf ps := rfl

@[simp] theorem tokensOf_blank_cons (b : Blank) (ps : List Piece) :
    tokensOf (.blank b :: ps) = tokensOf ps := rfl

theorem tokensOf_append (ps qs : List Piece) : tokensOf (ps ++ qs) = tokensOf ps ++ tokensOf qs :=
  List.filterMap_append

theorem spell_cons (p : Piece) (ps : List Piece) : spell (p :: ps) = p.chars ++ spell ps := rfl

theorem spell_singleton (p : Piece) : spell [p] = p.chars := List.append_nil _

theorem spell_append (ps qs : List Piece) : spell (ps ++ qs) = spell ps ++ spell qs :=
  List.flatMap_append

/-! ## Finding the tokens -/

/-- The white space that a character is. -/
def blankOf (c : Char) : Option Blank :=
  if c = ' ' then some .space
  else if c = '\t' then some .tab
  else if c = '\n' then some .lineFeed
  else if c = '\r' then some .carriageReturn
  else none

/-- The mark that a character is. -/
def markOf (c : Char) : Option Mark :=
  if c = '[' then some .beginArray
  else if c = ']' then some .endArray
  else if c = '\x7b' then some .beginObject
  else if c = '\x7d' then some .endObject
  else if c = ',' then some .comma
  else if c = ':' then some .colon
  else none

/-- What the characters before belong to: a word, which may not have begun yet, or a text in
quotes, just after a backslash or not. -/
inductive Pending where
  | word (seen : List Char)
  | quoted (seen : List Char)
  | escaped (seen : List Char)

/-- The tokens of a text.  A word ends before the first character that cannot belong to one. -/
def lex : Pending → List Char → Option (List (Token Quoted Word))
  | .word [], [] => some []
  | .word _, [] => none
  | .quoted _, [] => none
  | .escaped _, [] => none
  | .word seen, c :: rest =>
    if isWordChar c then
      if rest.head?.any isWordChar then lex (.word (seen ++ [c])) rest
      else (Word.of (seen ++ [c])).bind fun w => (lex (.word []) rest).map (.word w :: ·)
    else if (blankOf c).isSome then lex (.word []) rest
    else if c = '"' then lex (.quoted []) rest
    else (markOf c).bind fun m => (lex (.word []) rest).map (.mark m :: ·)
  | .quoted seen, c :: rest =>
    if c = '"' then (Quoted.of seen).bind fun s => (lex (.word []) rest).map (.text s :: ·)
    else if c = '\\' then lex (.escaped (seen ++ [c])) rest
    else lex (.quoted (seen ++ [c])) rest
  | .escaped seen, c :: rest => lex (.quoted (seen ++ [c])) rest

theorem lex_blank (b : Blank) (rest : List Char) :
    lex (.word []) (b.char :: rest) = lex (.word []) rest := by
  cases b <;> rfl

theorem lex_mark (m : Mark) (rest : List Char) :
    lex (.word []) (m.char :: rest) = (lex (.word []) rest).map (.mark m :: ·) := by
  cases m <;> rfl

/-- A word that the rest does not continue. -/
theorem lex_word {rest : List Char} (hrest : rest.head?.any isWordChar = false) {s : List Char}
    (hs : ∀ c ∈ s, isWordChar c = true) (hne : s ≠ []) (seen : List Char) :
    lex (.word seen) (s ++ rest) =
      (Word.of (seen ++ s)).bind fun w => (lex (.word []) rest).map (.word w :: ·) := by
  induction s generalizing seen with
  | nil => exact absurd rfl hne
  | cons c s ih =>
    have hc : isWordChar c = true := hs c List.mem_cons_self
    rw [List.cons_append, lex, if_pos hc]
    cases s with
    | nil =>
      rw [List.nil_append, hrest]
      rfl
    | cons d s =>
      have hd : isWordChar d = true := hs d (List.mem_cons_of_mem _ List.mem_cons_self)
      have hnext : ((d :: s ++ rest).head?.any isWordChar) = true := hd
      rw [if_pos hnext, ih (fun x hx => hs x (List.mem_cons_of_mem _ hx))
        (List.cons_ne_nil _ _), List.append_assoc, List.singleton_append]

/-- A text in quotes, from behind the opening quote. -/
theorem lex_quoted {s : List Char} (hs : isBody s = true) (seen rest : List Char) :
    lex (.quoted seen) (s ++ '"' :: rest) =
      (Quoted.of (seen ++ s)).bind fun t => (lex (.word []) rest).map (.text t :: ·) := by
  induction s using isBody.induct generalizing seen with
  | case1 => rw [List.append_nil, List.nil_append, lex, if_pos rfl]
  | case2 e s ih =>
    have hrest := (Bool.and_eq_true_iff.mp hs).2
    rw [List.cons_append, List.cons_append, lex, if_neg (by decide), if_pos rfl, lex, ih hrest,
      List.append_assoc, List.append_assoc, List.singleton_append, List.singleton_append]
  | case3 x s hne ih =>
    rw [isBody.eq_3 _ _ hne] at hs
    obtain ⟨hfirst, hrest⟩ := Bool.and_eq_true_iff.mp hs
    obtain ⟨hquote, hslash⟩ := Bool.and_eq_true_iff.mp (Bool.and_eq_true_iff.mp hfirst).1
    rw [List.cons_append, lex, if_neg (bne_iff_ne.mp hquote), if_neg (bne_iff_ne.mp hslash),
      ih hrest, List.append_assoc, List.singleton_append]

/-! ## Neighbours -/

/-- Not two words, which would run into each other. -/
def Apart {ν ω : Type} : Token ν ω → Token ν ω → Prop
  | .word _, .word _ => False
  | _, _ => True

section Chain

variable {ν ω : Type} {l : List (Token ν ω)}

theorem isChain_mark_cons (m : Mark) (hl : l.IsChain Apart) : (.mark m :: l).IsChain Apart :=
  List.isChain_cons.mpr ⟨fun _ _ => trivial, hl⟩

theorem isChain_text_cons (s : ν) (hl : l.IsChain Apart) : (.text s :: l).IsChain Apart :=
  List.isChain_cons.mpr ⟨fun _ _ => trivial, hl⟩

theorem isChain_append_mark {tail : List (Token ν ω)} (hmark : ∃ m rest, tail = .mark m :: rest)
    (hl : l.IsChain Apart) (htail : tail.IsChain Apart) : (l ++ tail).IsChain Apart := by
  obtain ⟨m, rest, rfl⟩ := hmark
  refine List.isChain_append.mpr ⟨hl, htail, fun x _ y hy => ?_⟩
  obtain rfl := Option.some.inj hy
  cases x <;> trivial

theorem Items.tokens_eq_mark_cons (items : Items ν ω) :
    ∃ m rest, items.tokens = .mark m :: rest := by
  cases items with
  | nil | cons t items => exact ⟨_, _, by rw [Items.tokens]⟩

theorem Members.tokens_eq_mark_cons (members : Members ν ω) :
    ∃ m rest, members.tokens = .mark m :: rest := by
  cases members with
  | nil | cons name t members => exact ⟨_, _, by rw [Members.tokens]⟩

mutual

/-- **No two words are neighbours** in a JSON text. -/
theorem Tree.isChain_tokens (t : Tree ν ω) : t.tokens.IsChain Apart := by
  match t with
  | .text s => rw [Tree.tokens]; exact List.isChain_singleton _
  | .word w => rw [Tree.tokens]; exact List.isChain_singleton _
  | .array .nil =>
    rw [Tree.tokens]
    exact isChain_mark_cons _ (List.isChain_singleton _)
  | .array (.cons t items) =>
    rw [Tree.tokens]
    exact isChain_mark_cons _ (isChain_append_mark items.tokens_eq_mark_cons t.isChain_tokens
      items.isChain_tokens)
  | .object .nil =>
    rw [Tree.tokens]
    exact isChain_mark_cons _ (List.isChain_singleton _)
  | .object (.cons name t members) =>
    rw [Tree.tokens]
    exact isChain_mark_cons _ (isChain_text_cons _ (isChain_mark_cons _
      (isChain_append_mark members.tokens_eq_mark_cons t.isChain_tokens members.isChain_tokens)))

theorem Items.isChain_tokens (items : Items ν ω) : items.tokens.IsChain Apart := by
  match items with
  | .nil => rw [Items.tokens]; exact List.isChain_singleton _
  | .cons t items =>
    rw [Items.tokens]
    exact isChain_mark_cons _ (isChain_append_mark items.tokens_eq_mark_cons t.isChain_tokens
      items.isChain_tokens)

theorem Members.isChain_tokens (members : Members ν ω) : members.tokens.IsChain Apart := by
  match members with
  | .nil => rw [Members.tokens]; exact List.isChain_singleton _
  | .cons name t members =>
    rw [Members.tokens]
    exact isChain_mark_cons _ (isChain_text_cons _ (isChain_mark_cons _
      (isChain_append_mark members.tokens_eq_mark_cons t.isChain_tokens members.isChain_tokens)))

end

end Chain

/-- What follows a word does not continue it. -/
theorem head?_spell_not_isWordChar {w : Word} {ps : List Piece}
    (h : (.word w :: tokensOf ps).IsChain Apart) : (spell ps).head?.any isWordChar = false := by
  match ps with
  | [] => rfl
  | .blank b :: ps => cases b <;> rfl
  | .token (.mark m) :: ps => cases m <;> rfl
  | .token (.text s) :: ps => rfl
  | .token (.word w') :: ps => exact absurd (List.isChain_cons_cons.mp h).1 id

/-- **The tokens of a text** can be found again, whatever white space is between them. -/
theorem lex_spell {ps : List Piece} (h : (tokensOf ps).IsChain Apart) :
    lex (.word []) (spell ps) = some (tokensOf ps) := by
  induction ps with
  | nil => rfl
  | cons p ps ih =>
    match p with
    | .blank b => exact (lex_blank b _).trans (ih h)
    | .token (.mark m) =>
      exact (lex_mark m _).trans (congrArg (Option.map (.mark m :: ·)) (ih h.of_cons))
    | .token (.text s) =>
      have hquoted := lex_quoted s.ok [] (spell ps)
      rw [List.nil_append, Quoted.of_body, ih h.of_cons] at hquoted
      have hchars : spell (.token (.text s) :: ps) = '"' :: (s.body ++ '"' :: spell ps) := by
        rw [spell_cons]
        exact congrArg ('"' :: ·) (List.append_assoc _ _ _)
      rw [hchars]
      exact hquoted
    | .token (.word w) =>
      have hword := lex_word (head?_spell_not_isWordChar h)
        (fun c hc => w.isWordChar_of_mem hc) w.chars_ne_nil []
      rw [List.nil_append, Word.of_chars, ih h.of_cons] at hword
      exact hword

end Json
end FpgaEthash
