import FpgaEthash.Text.JsonText

/-!
# The lines of a JSON text

A text is cut at every occurrence of a pair of characters (`splitPair`), for lines at a carriage
return with a line feed behind it.  Tokens have no control characters, so that cutting the text of
some pieces is the same as cutting the pieces (`splitPair_spell`).  The lines of a JSON text share
out its tokens (`flatMap_tokensOf_linesFrom`).
-/

namespace FpgaEthash
namespace Json

/-! ## Cutting at a pair -/

section SplitPair

variable {α : Type*} [DecidableEq α] {a b c : α} {seen rest x : List α}

/-- What lies between the occurrences of a pair.  What was seen before belongs to the first
part. -/
def splitPair (a b : α) : List α → List α → List (List α)
  | seen, [] => [seen]
  | seen, [c] => [seen ++ [c]]
  | seen, c :: d :: rest =>
    if c = a ∧ d = b then seen :: splitPair a b [] rest
    else splitPair a b (seen ++ [c]) (d :: rest)

theorem splitPair_pair (a b : α) (seen rest : List α) :
    splitPair a b seen (a :: b :: rest) = seen :: splitPair a b [] rest := by
  rw [splitPair, if_pos ⟨rfl, rfl⟩]

theorem splitPair_cons (h : c = a → rest.head? ≠ some b) :
    splitPair a b seen (c :: rest) = splitPair a b (seen ++ [c]) rest := by
  cases rest with
  | nil => rw [splitPair, splitPair]
  | cons d rest =>
    refine (splitPair.eq_3 ..).trans (if_neg ?_)
    rintro ⟨rfl, rfl⟩
    exact h rfl rfl

theorem splitPair_append (h : a ∉ x) :
    splitPair a b seen (x ++ rest) = splitPair a b (seen ++ x) rest := by
  induction x generalizing seen with
  | nil => rw [List.nil_append, List.append_nil]
  | cons c x ih =>
    rw [List.mem_cons, not_or] at h
    rw [List.cons_append, splitPair_cons fun hc => absurd hc.symm h.1, ih h.2,
      List.append_assoc, List.singleton_append]

theorem splitPair_ne_nil (a b : α) (seen rest : List α) : splitPair a b seen rest ≠ [] := by
  induction seen, rest using splitPair.induct a b with
  | case1 => exact List.cons_ne_nil _ _
  | case2 => exact List.cons_ne_nil _ _
  | case3 seen c d rest h ih =>
    rw [splitPair, if_pos h]
    exact List.cons_ne_nil _ _
  | case4 seen c d rest h ih =>
    rw [splitPair, if_neg h]
    exact ih

end SplitPair

/-! ## No token has a control character -/

theorem le_toNat_of_isAlphanum {c : Char} (h : c.isAlphanum = true) : 32 ≤ c.toNat := by
  have hrange : ∀ a : Char, 32 ≤ a.toNat → a.val ≤ c.val → 32 ≤ c.toNat := fun a ha hac =>
    Nat.le_trans ha (UInt32.le_iff_toNat_le.mp hac)
  rcases Bool.or_eq_true_iff.mp h with halpha | hdigit
  · rcases Bool.or_eq_true_iff.mp halpha with hupper | hlower
    · exact hrange 'A' (by decide) (of_decide_eq_true hupper).1
    · exact hrange 'a' (by decide) (of_decide_eq_true (Bool.and_eq_true_iff.mp hlower).1)
  · exact hrange '0' (by decide) (of_decide_eq_true (Bool.and_eq_true_iff.mp hdigit).1)

theorem le_toNat_of_isWordChar {c : Char} (h : isWordChar c = true) : 32 ≤ c.toNat := by
  simp only [isWordChar, Bool.or_eq_true, beq_iff_eq] at h
  rcases h with ((h | rfl) | rfl) | rfl
  · exact le_toNat_of_isAlphanum h
  all_goals decide

theorem Token.le_toNat_of_mem_chars {t : Token Quoted Word} {c : Char} (hc : c ∈ t.chars) :
    32 ≤ c.toNat := by
  cases t with
  | mark m =>
    rw [List.mem_singleton.mp hc]
    cases m <;> decide
  | text s =>
    rcases List.mem_cons.mp hc with rfl | hc
    · decide
    · rcases List.mem_append.mp hc with hc | hc
      · exact le_toNat_of_mem_body s.ok hc
      · rw [List.mem_singleton.mp hc]
        decide
  | word w => exact le_toNat_of_isWordChar (w.isWordChar_of_mem hc)

theorem Token.chars_ne_nil (t : Token Quoted Word) : t.chars ≠ [] := by
  cases t with
  | mark m => exact List.cons_ne_nil _ _
  | text s => exact List.cons_ne_nil _ _
  | word w => exact w.chars_ne_nil

theorem Piece.chars_ne_nil (p : Piece) : p.chars ≠ [] := by
  cases p with
  | token t => exact t.chars_ne_nil
  | blank b => exact List.cons_ne_nil _ _

theorem spell_eq_nil_iff {ps : List Piece} : spell ps = [] ↔ ps = [] := by
  cases ps with
  | nil => exact iff_of_true rfl rfl
  | cons p ps =>
    rw [spell_cons]
    exact ⟨fun h => absurd (List.append_eq_nil_iff.mp h).1 p.chars_ne_nil, nofun⟩

/-- A control character among the characters of a piece is that piece. -/
theorem Piece.eq_blank_of_mem_chars {p : Piece} {b : Blank} (hb : b.char.toNat < 32)
    (hc : b.char ∈ p.chars) : p = .blank b := by
  cases p with
  | token t => exact absurd (Token.le_toNat_of_mem_chars hc) (Nat.not_le.mpr hb)
  | blank b' =>
    have hchar := List.mem_singleton.mp hc
    cases b <;> cases b' <;> first | rfl | exact absurd hchar (by decide)

/-- A text begins with a control character if its first piece is that character. -/
theorem head?_spell_ne {p : Piece} {b : Blank} (hb : b.char.toNat < 32) (hp : p ≠ .blank b)
    (ps : List Piece) : (spell (p :: ps)).head? ≠ some b.char := by
  rw [spell_cons, List.head?_append_of_ne_nil _ p.chars_ne_nil]
  intro h
  exact hp (Piece.eq_blank_of_mem_chars hb (List.mem_of_mem_head? h))

/-- The text without line feeds. -/
theorem filter_spell (ps : List Piece) :
    (spell ps).filter (· != '\n') = spell (ps.filter (· ≠ .blank .lineFeed)) := by
  induction ps with
  | nil => rfl
  | cons p ps ih =>
    rw [spell_cons, List.filter_append, ih]
    by_cases hp : p = .blank .lineFeed
    · rw [List.filter_cons_of_neg (by simpa using hp), hp]
      rfl
    · rw [List.filter_cons_of_pos (by simpa using hp), spell_cons]
      congr 1
      refine List.filter_eq_self.mpr fun c hc => bne_iff_ne.mpr ?_
      rintro rfl
      exact hp (Piece.eq_blank_of_mem_chars (by decide : Blank.lineFeed.char.toNat < 32) hc)

theorem tokensOf_filter (ps : List Piece) :
    tokensOf (ps.filter (· ≠ .blank .lineFeed)) = tokensOf ps := by
  induction ps with
  | nil => rfl
  | cons p ps ih =>
    by_cases hp : p = .blank .lineFeed
    · rw [List.filter_cons_of_neg (by simpa using hp), hp, tokensOf_blank_cons, ih]
    · rw [List.filter_cons_of_pos (by simpa using hp)]
      cases p with
      | token t => rw [tokensOf_token_cons, tokensOf_token_cons, ih]
      | blank b => rw [tokensOf_blank_cons, tokensOf_blank_cons, ih]

/-! ## Lines -/

/-- The lines of a text, with what was seen before. -/
abbrev linesFrom (seen ps : List Piece) : List (List Piece) :=
  splitPair (.blank .carriageReturn) (.blank .lineFeed) seen ps

/-- The lines of a text. -/
def lines (ps : List Piece) : List (List Piece) := linesFrom [] ps

theorem splitPair_chars {p : Piece} {seen rest : List Char}
    (h : p = .blank .carriageReturn → rest.head? ≠ some '\n') :
    splitPair '\r' '\n' seen (p.chars ++ rest) = splitPair '\r' '\n' (seen ++ p.chars) rest := by
  by_cases hp : p = .blank .carriageReturn
  · subst hp
    exact splitPair_cons fun _ => h rfl
  · refine splitPair_append fun hmem => hp ?_
    exact Piece.eq_blank_of_mem_chars (by decide : Blank.carriageReturn.char.toNat < 32) hmem

/-- **Cutting the text of some pieces** is cutting the pieces. -/
theorem splitPair_spell (seen ps : List Piece) :
    splitPair '\r' '\n' (spell seen) (spell ps) = (linesFrom seen ps).map spell := by
  induction seen, ps using
    splitPair.induct (Piece.blank .carriageReturn) (Piece.blank .lineFeed) with
  | case1 seen => rfl
  | case2 seen p =>
    rw [spell_cons, splitPair_chars fun _ => by exact nofun, ← spell_singleton, ← spell_append]
    rfl
  | case3 seen p q ps h ih =>
    obtain ⟨rfl, rfl⟩ := h
    rw [linesFrom, splitPair_pair, List.map_cons, ← ih]
    exact splitPair_pair ..
  | case4 seen p q ps h ih =>
    rw [linesFrom, splitPair, if_neg h, ← ih, spell_append, spell_singleton, spell_cons]
    exact splitPair_chars fun hp => head?_spell_ne (by decide : Blank.lineFeed.char.toNat < 32)
      (fun hq => h ⟨hp, hq⟩) ps

/-- **The lines of a text** share out its tokens. -/
theorem flatMap_tokensOf_linesFrom (seen ps : List Piece) :
    (linesFrom seen ps).flatMap tokensOf = tokensOf (seen ++ ps) := by
  induction seen, ps using
    splitPair.induct (Piece.blank .carriageReturn) (Piece.blank .lineFeed) with
  | case1 seen => rw [List.append_nil]; exact List.append_nil _
  | case2 seen p => exact List.append_nil _
  | case3 seen p q ps h ih =>
    obtain ⟨rfl, rfl⟩ := h
    rw [linesFrom, splitPair_pair, List.flatMap_cons, ih, List.nil_append, tokensOf_append]
    rfl
  | case4 seen p q ps h ih =>
    rw [linesFrom, splitPair, if_neg h, ih, List.append_assoc, List.singleton_append]

end Json
end FpgaEthash
