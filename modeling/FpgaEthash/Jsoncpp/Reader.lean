import FpgaEthash.Jsoncpp.Value
import FpgaEthash.Text.JsonText
import Mathlib.Data.List.Nodup

/-!
# The JSON reader

`Json::Reader` reads the value with which a text begins and looks at nothing behind it.  What it
does with a text that is no JSON at all is its own affair; the texts of interest are parts of a
JSON text, cut out between two tokens.  `ReadsParts` says what a reader does with these: it finds
the first value of the tokens that are there, and fails if they do not begin with a whole value.

The names of an object that are written twice have the last value that was written.  So a value
may have less in it than was written: `extent` counts the tokens that it takes to write a value,
and they are no more than those it was read from (`extent_value_le`), and as many if no object has
a name twice (`extent_value`).
-/

namespace FpgaEthash
namespace Jsoncpp

open Devcore Json

/-! ## The value of a text -/

/-- How the reader decodes texts in quotes, and words. -/
structure Decoding where
  text : Quoted → StdString
  word : Word → Value
  /-- A word is no array and no object. -/
  scalar : ∀ w, (word w).isConvertibleToString = true

/-- `operator[](key)` with an assignment. -/
def Value.Members.assign (key : StdString) (v : Value) : Value.Members → Value.Members
  | [] => [(key, v)]
  | (name, w) :: ms => if name = key then (name, v) :: ms else (name, w) :: assign key v ms

namespace Decoding

variable (d : Decoding)

mutual

/-- The value of a tree. -/
def value : Tree Quoted Word → Value
  | .text s => .string (d.text s)
  | .word w => d.word w
  | .array items => .array (itemValues items)
  | .object members => .object (memberValues [] members)

/-- The elements of an array. -/
def itemValues : Items Quoted Word → List Value
  | .nil => []
  | .cons t items => value t :: itemValues items

/-- The members of an object, after these. -/
def memberValues (ms : Value.Members) : Members Quoted Word → Value.Members
  | .nil => ms
  | .cons name t members => memberValues (ms.assign (d.text name) (value t)) members

end

/-- The names of an object, as they are written. -/
def names : Members Quoted Word → List StdString
  | .nil => []
  | .cons name _ members => d.text name :: names members

mutual

/-- No object of the tree has a name twice. -/
def UniqueNames : Tree Quoted Word → Prop
  | .text _ => True
  | .word _ => True
  | .array items => UniqueItems items
  | .object members => (names d members).Nodup ∧ UniqueMembers members

def UniqueItems : Items Quoted Word → Prop
  | .nil => True
  | .cons t items => UniqueNames t ∧ UniqueItems items

def UniqueMembers : Members Quoted Word → Prop
  | .nil => True
  | .cons _ t members => UniqueNames t ∧ UniqueMembers members

end

end Decoding

/-! ## The extent of a value -/

mutual

/-- The number of tokens that it takes to write a value. -/
def extent : Value → ℕ
  | .array xs => 2 + (itemExtents xs - 1)
  | .object ms => 2 + (memberExtents ms - 1)
  | _ => 1

/-- Elements, with a comma each. -/
def itemExtents : List Value → ℕ
  | [] => 0
  | x :: xs => extent x + 1 + itemExtents xs

/-- Members, with a comma each. -/
def memberExtents : List (StdString × Value) → ℕ
  | [] => 0
  | (_, x) :: ms => extent x + 3 + memberExtents ms

end

theorem extent_of_isConvertibleToString {v : Value} (h : v.isConvertibleToString = true) :
    extent v = 1 := by
  cases v with
  | array xs => exact nomatch h
  | object ms => exact nomatch h
  | _ => rw [extent] <;> exact nofun

/-- A member that is already there is replaced. -/
theorem memberExtents_assign_le (key : StdString) (v : Value) (ms : Value.Members) :
    memberExtents (ms.assign key v) ≤ memberExtents ms + (extent v + 3) := by
  induction ms with
  | nil =>
    simp only [Value.Members.assign, memberExtents]
    omega
  | cons m ms ih =>
    rw [Value.Members.assign]
    split
    · rw [memberExtents, memberExtents]; omega
    · rw [memberExtents, memberExtents]; omega

/-- A member that is new is put behind the others. -/
theorem assign_of_notMem {key : StdString} {ms : Value.Members} (h : key ∉ ms.map Prod.fst)
    (v : Value) : ms.assign key v = ms ++ [(key, v)] := by
  induction ms with
  | nil => rfl
  | cons m ms ih =>
    rw [List.map_cons, List.mem_cons, not_or] at h
    rw [Value.Members.assign, if_neg fun hkey => h.1 hkey.symm, ih h.2, List.cons_append]

theorem memberExtents_append (ms ns : Value.Members) :
    memberExtents (ms ++ ns) = memberExtents ms + memberExtents ns := by
  induction ms with
  | nil => rw [List.nil_append, memberExtents, Nat.zero_add]
  | cons m ms ih =>
    rw [List.cons_append, memberExtents, memberExtents, ih]
    exact (Nat.add_assoc _ _ _).symm

section Extent

variable {d : Decoding}

mutual

/-- **A value** takes no more tokens than it was read from. -/
theorem extent_value_le (t : Tree Quoted Word) : extent (d.value t) ≤ t.tokens.length := by
  match t with
  | .text s => rw [Decoding.value, Tree.tokens, extent_of_isConvertibleToString rfl]; rfl
  | .word w =>
    rw [Decoding.value, Tree.tokens, extent_of_isConvertibleToString (d.scalar w)]
    rfl
  | .array items =>
    have hitems := itemExtents_itemValues_le items
    rw [Decoding.value, extent, Tree.length_tokens_array]
    omega
  | .object members =>
    have hmembers := memberExtents_memberValues_le members []
    rw [memberExtents, Nat.zero_add] at hmembers
    rw [Decoding.value, extent, Tree.length_tokens_object]
    omega

theorem itemExtents_itemValues_le (items : Items Quoted Word) :
    itemExtents (d.itemValues items) + 1 ≤ items.tokens.length := by
  match items with
  | .nil => rw [Decoding.itemValues, Items.tokens, itemExtents]; rfl
  | .cons t items =>
    have ht := extent_value_le t
    have hitems := itemExtents_itemValues_le items
    rw [Decoding.itemValues, Items.tokens, itemExtents, List.length_cons, List.length_append]
    omega

theorem memberExtents_memberValues_le (members : Members Quoted Word) (ms : Value.Members) :
    memberExtents (d.memberValues ms members) + 1 ≤ memberExtents ms + members.tokens.length := by
  match members with
  | .nil => rw [Decoding.memberValues, Members.tokens]; rfl
  | .cons name t members =>
    have ht := extent_value_le t
    have hassign := memberExtents_assign_le (d.text name) (d.value t) ms
    have hmembers := memberExtents_memberValues_le members (ms.assign (d.text name) (d.value t))
    rw [Decoding.memberValues, Members.tokens, List.length_cons, List.length_cons,
      List.length_cons, List.length_append]
    omega

end

mutual

/-- **A value** takes all the tokens that it was read from, if no name is written twice. -/
theorem extent_value {t : Tree Quoted Word} (h : d.UniqueNames t) :
    extent (d.value t) = t.tokens.length := by
  match t with
  | .text s => rw [Decoding.value, Tree.tokens, extent_of_isConvertibleToString rfl]; rfl
  | .word w =>
    rw [Decoding.value, Tree.tokens, extent_of_isConvertibleToString (d.scalar w)]
    rfl
  | .array items =>
    rw [Decoding.UniqueNames] at h
    have hitems := itemExtents_itemValues h
    rw [Decoding.value, extent, Tree.length_tokens_array]
    omega
  | .object members =>
    rw [Decoding.UniqueNames] at h
    have hmembers := memberExtents_memberValues h.2 [] h.1
    rw [memberExtents, Nat.zero_add] at hmembers
    rw [Decoding.value, extent, Tree.length_tokens_object]
    omega

theorem itemExtents_itemValues {items : Items Quoted Word} (h : d.UniqueItems items) :
    itemExtents (d.itemValues items) + 1 = items.tokens.length := by
  match items with
  | .nil => rw [Decoding.itemValues, Items.tokens, itemExtents]; rfl
  | .cons t items =>
    rw [Decoding.UniqueItems] at h
    have ht := extent_value h.1
    have hitems := itemExtents_itemValues h.2
    rw [Decoding.itemValues, Items.tokens, itemExtents, List.length_cons, List.length_append]
    omega

theorem memberExtents_memberValues {members : Members Quoted Word} (h : d.UniqueMembers members)
    (ms : Value.Members) (hnames : (ms.map Prod.fst ++ d.names members).Nodup) :
    memberExtents (d.memberValues ms members) + 1 = memberExtents ms + members.tokens.length := by
  match members with
  | .nil => rw [Decoding.memberValues, Members.tokens]; rfl
  | .cons name t members =>
    rw [Decoding.UniqueMembers] at h
    rw [Decoding.names] at hnames
    have hnew : d.text name ∉ ms.map Prod.fst := fun hmem =>
      (List.nodup_append.mp hnames).2.2 _ hmem _ List.mem_cons_self rfl
    have hnames' :
        ((ms ++ [(d.text name, d.value t)]).map Prod.fst ++ d.names members).Nodup := by
      rw [List.map_append, List.append_assoc]
      exact hnames
    have ht := extent_value h.1
    have hmembers := memberExtents_memberValues h.2 _ hnames'
    rw [memberExtents_append] at hmembers
    simp only [memberExtents] at hmembers
    rw [Decoding.memberValues, assign_of_notMem hnew, Members.tokens, List.length_cons,
      List.length_cons, List.length_cons, List.length_append]
    omega

end

end Extent

/-! ## Readers -/

/-- **What a reader does with the parts of a JSON text**: it finds the first value of the tokens
that are there, whatever white space is between them, and none if they do not begin with a whole
value. -/
def ReadsParts (parse : StdString → Except Exception (Option Value)) (d : Decoding)
    (t : Tree Quoted Word) : Prop :=
  ∀ ps, tokensOf ps <:+: t.tokens → parse (spell ps) = .ok ((firstTree (tokensOf ps)).map d.value)

/-- A reader that finds the tokens first. -/
def readJson (d : Decoding) (text : StdString) : Except Exception (Option Value) :=
  .ok (((lex (.word []) text).bind firstTree).map d.value)

theorem readsParts_readJson (d : Decoding) (t : Tree Quoted Word) :
    ReadsParts (readJson d) d t := by
  intro ps hpart
  have hchain : (tokensOf ps).IsChain Apart :=
    List.IsChain.infix t.isChain_tokens hpart
  rw [readJson, lex_spell hchain]
  rfl

/-- **Only the whole text** has the value of the text, if no name is written twice. -/
theorem eq_tokens_of_value_eq {d : Decoding} {t k : Tree Quoted Word}
    {tokens : List (Token Quoted Word)} (hpart : tokens <:+: t.tokens)
    (hfirst : firstTree tokens = some k) (hunique : d.UniqueNames t)
    (hvalue : d.value k = d.value t) : tokens = t.tokens := by
  refine hpart.eq_of_length_le ?_
  calc t.tokens.length = extent (d.value t) := (extent_value hunique).symm
    _ = extent (d.value k) := by rw [hvalue]
    _ ≤ k.tokens.length := extent_value_le k
    _ ≤ tokens.length := length_tokens_le_of_firstTree hfirst

end Jsoncpp
end FpgaEthash
