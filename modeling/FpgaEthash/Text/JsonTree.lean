import Mathlib.Data.List.Basic
import Mathlib.Data.List.Infix
import Mathlib.Data.List.Chain

/-!
# The tokens of a JSON text

A JSON text is a tree, written as a list of tokens: six marks, texts in quotes, and words, which
are the numbers and the three literal names.  The texts are of a type `ν` and the words of a type
`ω`; how they are spelled does not matter here.

`readTree` reads the tree with which a list of tokens begins, by recursive descent.  It looks at
nothing behind the tree: `readTree_tokens` says that the tokens of a tree are read as that tree
whatever follows, and `sound_read` that nothing else is read.
-/

namespace FpgaEthash
namespace Json

variable {ν ω : Type}

/-- The structural characters. -/
inductive Mark where
  | beginArray
  | endArray
  | beginObject
  | endObject
  | comma
  | colon
  deriving DecidableEq, Repr

/-- A token: a mark, a text in quotes, or a word. -/
inductive Token (ν ω : Type) where
  | mark (m : Mark)
  | text (s : ν)
  | word (w : ω)
  deriving DecidableEq, Repr

mutual

/-- A JSON value as it is written. -/
inductive Tree (ν ω : Type) where
  | text (s : ν)
  | word (w : ω)
  | array (items : Items ν ω)
  | object (members : Members ν ω)

/-- The elements of an array. -/
inductive Items (ν ω : Type) where
  | nil
  | cons (t : Tree ν ω) (items : Items ν ω)

/-- The members of an object. -/
inductive Members (ν ω : Type) where
  | nil
  | cons (name : ν) (t : Tree ν ω) (members : Members ν ω)

end

mutual

/-- The tokens of a value. -/
def Tree.tokens : Tree ν ω → List (Token ν ω)
  | .text s => [.text s]
  | .word w => [.word w]
  | .array .nil => [.mark .beginArray, .mark .endArray]
  | .array (.cons t items) => .mark .beginArray :: (t.tokens ++ items.tokens)
  | .object .nil => [.mark .beginObject, .mark .endObject]
  | .object (.cons name t members) =>
    .mark .beginObject :: .text name :: .mark .colon :: (t.tokens ++ members.tokens)

/-- The tokens behind an element of an array, up to its end, if these elements follow. -/
def Items.tokens : Items ν ω → List (Token ν ω)
  | .nil => [.mark .endArray]
  | .cons t items => .mark .comma :: (t.tokens ++ items.tokens)

/-- The tokens behind a member of an object, up to its end, if these members follow. -/
def Members.tokens : Members ν ω → List (Token ν ω)
  | .nil => [.mark .endObject]
  | .cons name t members =>
    .mark .comma :: .text name :: .mark .colon :: (t.tokens ++ members.tokens)

end

mutual

/-- Read the value with which the tokens begin.  The number bounds the recursion. -/
def readTree : ℕ → List (Token ν ω) → Option (Tree ν ω × List (Token ν ω))
  | _ + 1, .text s :: rest => some (.text s, rest)
  | _ + 1, .word w :: rest => some (.word w, rest)
  | _ + 1, .mark .beginArray :: .mark .endArray :: rest => some (.array .nil, rest)
  | n + 1, .mark .beginArray :: rest => do
      let (t, rest) ← readTree n rest
      let (items, rest) ← readItems n rest
      some (.array (.cons t items), rest)
  | _ + 1, .mark .beginObject :: .mark .endObject :: rest => some (.object .nil, rest)
  | n + 1, .mark .beginObject :: .text name :: .mark .colon :: rest => do
      let (t, rest) ← readTree n rest
      let (members, rest) ← readMembers n rest
      some (.object (.cons name t members), rest)
  | _, _ => none

/-- Read on behind an element of an array. -/
def readItems : ℕ → List (Token ν ω) → Option (Items ν ω × List (Token ν ω))
  | _ + 1, .mark .endArray :: rest => some (.nil, rest)
  | n + 1, .mark .comma :: rest => do
      let (t, rest) ← readTree n rest
      let (items, rest) ← readItems n rest
      some (.cons t items, rest)
  | _, _ => none

/-- Read on behind a member of an object. -/
def readMembers : ℕ → List (Token ν ω) → Option (Members ν ω × List (Token ν ω))
  | _ + 1, .mark .endObject :: rest => some (.nil, rest)
  | n + 1, .mark .comma :: .text name :: .mark .colon :: rest => do
      let (t, rest) ← readTree n rest
      let (members, rest) ← readMembers n rest
      some (.cons name t members, rest)
  | _, _ => none

end

/-- The value with which the tokens begin.  A value takes a token for each level of the descent, so
that the number of tokens is bound enough. -/
def firstTree (tokens : List (Token ν ω)) : Option (Tree ν ω) :=
  (readTree tokens.length tokens).map Prod.fst

/-! ## The tokens of a tree are read as the tree -/

/-- A value begins with a text, with a word, or with the beginning of an array or object. -/
theorem Tree.tokens_cases (t : Tree ν ω) :
    (∃ s, t.tokens = [.text s]) ∨ (∃ w, t.tokens = [.word w]) ∨
      (∃ rest, t.tokens = .mark .beginArray :: rest) ∨
      ∃ rest, t.tokens = .mark .beginObject :: rest := by
  match t with
  | .text s => exact .inl ⟨s, by rw [Tree.tokens]⟩
  | .word w => exact .inr (.inl ⟨w, by rw [Tree.tokens]⟩)
  | .array .nil => exact .inr (.inr (.inl ⟨_, by rw [Tree.tokens]⟩))
  | .array (.cons _ _) => exact .inr (.inr (.inl ⟨_, by rw [Tree.tokens]⟩))
  | .object .nil => exact .inr (.inr (.inr ⟨_, by rw [Tree.tokens]⟩))
  | .object (.cons _ _ _) => exact .inr (.inr (.inr ⟨_, by rw [Tree.tokens]⟩))

theorem Tree.tokens_ne_nil (t : Tree ν ω) : t.tokens ≠ [] := by
  rcases t.tokens_cases with ⟨_, h⟩ | ⟨_, h⟩ | ⟨_, h⟩ | ⟨_, h⟩ <;> rw [h] <;>
    exact List.cons_ne_nil _ _

/-- The first element of an array has a token before it, as the others have. -/
theorem Tree.length_tokens_array (items : Items ν ω) :
    (Tree.array items).tokens.length = 2 + (items.tokens.length - 2) := by
  cases items with
  | nil => rw [Tree.tokens, Items.tokens]; rfl
  | cons t items =>
    have ht := List.length_pos_of_ne_nil t.tokens_ne_nil
    rw [Tree.tokens, Items.tokens, List.length_cons, List.length_cons, List.length_append]
    omega

theorem Tree.length_tokens_object (members : Members ν ω) :
    (Tree.object members).tokens.length = 2 + (members.tokens.length - 2) := by
  cases members with
  | nil => rw [Tree.tokens, Members.tokens]; rfl
  | cons name t members =>
    simp only [Tree.tokens, Members.tokens, List.length_cons]
    omega

/-- An array that does not end at once begins with an element. -/
theorem readTree_beginArray (n : ℕ) (t : Tree ν ω) (rest : List (Token ν ω)) :
    readTree (n + 1) (.mark .beginArray :: (t.tokens ++ rest)) =
      (readTree n (t.tokens ++ rest)).bind fun r =>
        (readItems n r.2).bind fun q => some (.array (.cons r.1 q.1), q.2) := by
  rcases t.tokens_cases with ⟨_, h⟩ | ⟨_, h⟩ | ⟨_, h⟩ | ⟨_, h⟩ <;> rw [h] <;> rfl

mutual

/-- **The tokens of a value** are read as that value, whatever follows. -/
theorem readTree_tokens (t : Tree ν ω) (n : ℕ) (rest : List (Token ν ω))
    (hn : t.tokens.length ≤ n) : readTree n (t.tokens ++ rest) = some (t, rest) := by
  match n, t with
  | 0, t => exact absurd (List.length_eq_zero_iff.mp (Nat.le_zero.mp hn)) t.tokens_ne_nil
  | n + 1, .text s => rw [Tree.tokens]; rfl
  | n + 1, .word w => rw [Tree.tokens]; rfl
  | n + 1, .array .nil => rw [Tree.tokens]; rfl
  | n + 1, .array (.cons t items) =>
    rw [Tree.tokens, List.length_cons, List.length_append] at hn
    rw [Tree.tokens, List.cons_append, List.append_assoc, readTree_beginArray,
      readTree_tokens t n _ (by omega)]
    exact congrArg (Option.bind · _) (readItems_tokens items n rest (by omega))
  | n + 1, .object .nil => rw [Tree.tokens]; rfl
  | n + 1, .object (.cons name t members) =>
    rw [Tree.tokens, List.length_cons, List.length_cons, List.length_cons,
      List.length_append] at hn
    rw [Tree.tokens, List.cons_append, List.cons_append, List.cons_append, List.append_assoc]
    refine (congrArg (Option.bind · _) (readTree_tokens t n _ (by omega))).trans ?_
    exact congrArg (Option.bind · _) (readMembers_tokens members n rest (by omega))

theorem readItems_tokens (items : Items ν ω) (n : ℕ) (rest : List (Token ν ω))
    (hn : items.tokens.length ≤ n) : readItems n (items.tokens ++ rest) = some (items, rest) := by
  match n, items with
  | 0, .nil => rw [Items.tokens] at hn; exact absurd hn (Nat.not_succ_le_zero _)
  | 0, .cons _ _ => rw [Items.tokens] at hn; exact absurd hn (Nat.not_succ_le_zero _)
  | n + 1, .nil => rw [Items.tokens]; rfl
  | n + 1, .cons t items =>
    rw [Items.tokens, List.length_cons, List.length_append] at hn
    rw [Items.tokens, List.cons_append, List.append_assoc]
    refine (congrArg (Option.bind · _) (readTree_tokens t n _ (by omega))).trans ?_
    exact congrArg (Option.bind · _) (readItems_tokens items n rest (by omega))

theorem readMembers_tokens (members : Members ν ω) (n : ℕ) (rest : List (Token ν ω))
    (hn : members.tokens.length ≤ n) :
    readMembers n (members.tokens ++ rest) = some (members, rest) := by
  match n, members with
  | 0, .nil => rw [Members.tokens] at hn; exact absurd hn (Nat.not_succ_le_zero _)
  | 0, .cons _ _ _ => rw [Members.tokens] at hn; exact absurd hn (Nat.not_succ_le_zero _)
  | n + 1, .nil => rw [Members.tokens]; rfl
  | n + 1, .cons name t members =>
    rw [Members.tokens, List.length_cons, List.length_cons, List.length_cons,
      List.length_append] at hn
    rw [Members.tokens, List.cons_append, List.cons_append, List.cons_append, List.append_assoc]
    refine (congrArg (Option.bind · _) (readTree_tokens t n _ (by omega))).trans ?_
    exact congrArg (Option.bind · _) (readMembers_tokens members n rest (by omega))

end

theorem firstTree_tokens (t : Tree ν ω) : firstTree t.tokens = some t := by
  have hread := readTree_tokens t t.tokens.length [] (Nat.le_refl _)
  rw [List.append_nil] at hread
  rw [firstTree, hread]
  rfl

/-! ## Nothing else is read -/

/-- What is read is written with these tokens. -/
def Sound {τ α : Type} (read : List τ → Option (α × List τ)) (tokens : α → List τ) : Prop :=
  ∀ toks x rest, read toks = some (x, rest) → toks = tokens x ++ rest

/-- Two readers in a row, with what they have read put together. -/
theorem Sound.both {τ α β γ : Type} {f : List τ → Option (α × List τ)}
    {g : List τ → Option (β × List τ)} {fTokens : α → List τ} {gTokens : β → List τ}
    (hf : Sound f fTokens) (hg : Sound g gTokens) (put : α → β → γ) {toks rest : List τ} {x : γ}
    (h : (do
      let (a, rest) ← f toks
      let (b, rest) ← g rest
      some (put a b, rest)) = some (x, rest)) :
    ∃ a b, x = put a b ∧ toks = (fTokens a ++ gTokens b) ++ rest := by
  obtain ⟨⟨a, rest₁⟩, ha, h⟩ := Option.bind_eq_some_iff.mp h
  obtain ⟨⟨b, rest₂⟩, hb, h⟩ := Option.bind_eq_some_iff.mp h
  obtain ⟨rfl, rfl⟩ := Prod.mk.inj (Option.some.inj h)
  refine ⟨a, b, rfl, ?_⟩
  rw [hf _ _ _ ha, hg _ _ _ hb, List.append_assoc]


/-- **What is read from a list of tokens** is a value with whose tokens the list begins. -/
theorem sound_read (n : ℕ) :
    Sound (readTree n) (Tree.tokens : Tree ν ω → _) ∧
      Sound (readItems n) (Items.tokens : Items ν ω → _) ∧
      Sound (readMembers n) (Members.tokens : Members ν ω → _) := by
  induction n with
  | zero =>
    refine ⟨?_, ?_, ?_⟩ <;> intro toks x rest h
    · rw [readTree.eq_def] at h; exact nomatch h
    · rw [readItems.eq_def] at h; exact nomatch h
    · rw [readMembers.eq_def] at h; exact nomatch h
  | succ n ih =>
    obtain ⟨hTree, hItems, hMembers⟩ := ih
    refine ⟨?_, ?_, ?_⟩ <;> intro toks x rest h
    · rw [readTree.eq_def] at h
      split at h
      · obtain ⟨rfl, rfl⟩ := Prod.mk.inj (Option.some.inj h)
        rw [Tree.tokens, List.singleton_append]
      · obtain ⟨rfl, rfl⟩ := Prod.mk.inj (Option.some.inj h)
        rw [Tree.tokens, List.singleton_append]
      · obtain ⟨rfl, rfl⟩ := Prod.mk.inj (Option.some.inj h)
        rw [Tree.tokens]
        rfl
      · next m tail _ hn =>
        cases hn
        obtain ⟨t, items, rfl, htail⟩ :=
          hTree.both hItems (fun t items => Tree.array (.cons t items)) h
        rw [Tree.tokens, htail, List.cons_append]
      · obtain ⟨rfl, rfl⟩ := Prod.mk.inj (Option.some.inj h)
        rw [Tree.tokens]
        rfl
      · next m name tail hn =>
        cases hn
        obtain ⟨t, members, rfl, htail⟩ :=
          hTree.both hMembers (fun t members => Tree.object (.cons name t members)) h
        rw [Tree.tokens, htail]
        rfl
      · exact nomatch h
    · rw [readItems.eq_def] at h
      split at h
      · obtain ⟨rfl, rfl⟩ := Prod.mk.inj (Option.some.inj h)
        rw [Items.tokens, List.singleton_append]
      · next m tail hn =>
        cases hn
        obtain ⟨t, items, rfl, htail⟩ := hTree.both hItems Items.cons h
        rw [Items.tokens, htail, List.cons_append]
      · exact nomatch h
    · rw [readMembers.eq_def] at h
      split at h
      · obtain ⟨rfl, rfl⟩ := Prod.mk.inj (Option.some.inj h)
        rw [Members.tokens, List.singleton_append]
      · next m name tail hn =>
        cases hn
        obtain ⟨t, members, rfl, htail⟩ := hTree.both hMembers (Members.cons name) h
        rw [Members.tokens, htail]
        rfl
      · exact nomatch h

/-- The first value of a list of tokens has no more tokens than the list. -/
theorem length_tokens_le_of_firstTree {toks : List (Token ν ω)} {t : Tree ν ω}
    (h : firstTree toks = some t) : t.tokens.length ≤ toks.length := by
  obtain ⟨⟨t, rest⟩, hread, rfl⟩ := Option.map_eq_some_iff.mp h
  rw [(sound_read _).1 _ _ _ hread, List.length_append]
  exact Nat.le_add_right _ _

@[simp] theorem firstTree_nil : firstTree ([] : List (Token ν ω)) = none := rfl

end Json
end FpgaEthash
