import FpgaEthash.Host.KecHash
import FpgaEthash.Host.Keccakf

/-!
# Hashing a message in pieces

A caller may give `kec_update` a message piece by piece.  What that should mean is
plain when the sponge takes one byte at a time (`pushByte`): a byte goes into the
saved word, and a full word goes into the lanes.  For this machine the law

  `update a` and then `update b` is `update (a ++ b)`

is the law of folds.  `kecUpdate_eq_foldl` says when `kec_update` is that machine: when
no word is unfinished, or when the piece does not finish it.  A piece that does is
where `while (old_tail)` never ends, and there is no other way for the law to fail.

The condition is on the lengths of the pieces alone, `FitsAll`: a cut at a whole
number of words costs nothing, and after any other cut everything that follows has to
stay inside the word that was cut.
-/

namespace FpgaEthash
namespace Host

open Keccak

/-! ## One byte at a time -/

namespace Sha3Context

/-- A byte goes into the saved word, and a full word into the lanes. -/
def pushByte (F : Lanes → Lanes) (ctx : Sha3Context) (b : BitVec 8) : Sha3Context :=
  let ctx := ctx.savePartial b
  if ctx.byteIndex = 8 then { ctx.absorbWord F ctx.saved with saved := 0, byteIndex := 0 }
  else ctx

/-- The saved word is unfinished, and is empty when it has no byte. -/
structure Unfinished (ctx : Sha3Context) : Prop where
  byteIndex_lt : ctx.byteIndex < 8
  saved : ctx.byteIndex = 0 → ctx.saved = 0

variable {F : Lanes → Lanes} {ctx : Sha3Context}

theorem pushByte_of_lt (b : BitVec 8) (h : ctx.byteIndex + 1 < 8) :
    ctx.pushByte F b = ctx.savePartial b :=
  if_neg (show ¬ ctx.byteIndex + 1 = 8 by omega)

theorem pushByte_of_eq (b : BitVec 8) (h : ctx.byteIndex + 1 = 8) :
    ctx.pushByte F b =
      { (ctx.savePartial b).absorbWord F (ctx.savePartial b).saved with
        saved := 0, byteIndex := 0 } :=
  if_pos h

theorem Unfinished.pushByte (h : ctx.Unfinished) (b : BitVec 8) :
    (ctx.pushByte F b).Unfinished ∧ (ctx.pushByte F b).byteIndex = (ctx.byteIndex + 1) % 8 := by
  have hlt := h.byteIndex_lt
  by_cases hfull : ctx.byteIndex + 1 = 8
  · rw [pushByte_of_eq b hfull, hfull]
    exact ⟨⟨Nat.succ_pos 7, fun _ => rfl⟩, rfl⟩
  · rw [pushByte_of_lt b (by omega), Nat.mod_eq_of_lt (by omega)]
    refine ⟨⟨?_, fun hzero => ?_⟩, rfl⟩
    · change ctx.byteIndex + 1 < 8
      omega
    · exact absurd hzero (Nat.succ_ne_zero _)

/-- A whole buffer keeps the saved word unfinished, and moves the cursor by its
length. -/
theorem Unfinished.foldl_pushByte (buf : List (BitVec 8)) (h : ctx.Unfinished) :
    (buf.foldl (Sha3Context.pushByte F) ctx).Unfinished ∧
      (buf.foldl (Sha3Context.pushByte F) ctx).byteIndex = (ctx.byteIndex + buf.length) % 8 := by
  induction buf generalizing ctx with
  | nil => exact ⟨h, (Nat.mod_eq_of_lt h.byteIndex_lt).symm⟩
  | cons b buf ih =>
    obtain ⟨hnext, hindex⟩ := h.pushByte (F := F) b
    obtain ⟨hlast, hlastIndex⟩ := ih hnext
    refine ⟨hlast, ?_⟩
    rw [List.foldl_cons, hlastIndex, hindex, List.length_cons]
    omega

/-- Inside the word, a byte is only saved. -/
theorem foldl_pushByte_of_lt (buf : List (BitVec 8)) (h : ctx.byteIndex + buf.length < 8) :
    buf.foldl (Sha3Context.pushByte F) ctx = buf.foldl savePartial ctx := by
  induction buf generalizing ctx with
  | nil => rfl
  | cons b buf ih =>
    rw [List.length_cons] at h
    rw [List.foldl_cons, List.foldl_cons, pushByte_of_lt b (by omega)]
    exact ih (show ctx.byteIndex + 1 + buf.length < 8 by omega)

/-- Eight bytes saved from an empty word make the word that is loaded from them. -/
theorem foldl_savePartial_take {buf : List (BitVec 8)} (hb : ctx.byteIndex = 0)
    (hzero : ctx.saved = 0) (hlen : 8 ≤ buf.length) :
    (buf.take 8).foldl savePartial ctx = { ctx with saved := loadWord buf, byteIndex := 8 } := by
  rcases buf with
    _ | ⟨b₀, _ | ⟨b₁, _ | ⟨b₂, _ | ⟨b₃, _ | ⟨b₄, _ | ⟨b₅, _ | ⟨b₆, _ | ⟨b₇, buf⟩⟩⟩⟩⟩⟩⟩⟩
  case cons.cons.cons.cons.cons.cons.cons.cons =>
    simp [savePartial, loadWord, hb, hzero]
  all_goals
    simp at hlen

/-- What is saved, and how much, plays no part when a word is absorbed. -/
theorem absorbWord_saved (t saved : BitVec 64) (byteIndex : ℕ) (h : ctx.Unfinished)
    (hb : ctx.byteIndex = 0) :
    { ({ ctx with saved := saved, byteIndex := byteIndex } : Sha3Context).absorbWord F t with
      saved := 0, byteIndex := 0 } = ctx.absorbWord F t := by
  have hzero := h.saved hb
  unfold absorbWord
  dsimp only
  split_ifs <;> rw [hb, hzero]

/-- **Eight bytes are the word that is loaded from them.** -/
theorem foldl_pushByte_word {buf : List (BitVec 8)} (h : ctx.Unfinished)
    (hb : ctx.byteIndex = 0) (hlen : 8 ≤ buf.length) :
    (buf.take 8).foldl (Sha3Context.pushByte F) ctx = ctx.absorbWord F (loadWord buf) := by
  have hsaved := foldl_savePartial_take hb (h.saved hb) hlen
  have hseven : ctx.byteIndex + (buf.take 7).length < 8 := by
    rw [hb, List.length_take]
    omega
  rw [List.take_succ_eq_append_getElem (by omega), List.foldl_append, List.foldl_cons,
    List.foldl_nil] at hsaved ⊢
  have hindex := congrArg byteIndex hsaved
  rw [foldl_pushByte_of_lt _ hseven, pushByte_of_eq _ hindex, hsaved]
  exact absorbWord_saved _ _ _ h hb

/-- The loop over the words of the buffer. -/
theorem foldl_pushByte_words {buf : List (BitVec 8)} (h : ctx.Unfinished)
    (hb : ctx.byteIndex = 0) {words : ℕ} (hwords : 8 * words ≤ buf.length) :
    (buf.take (8 * words)).foldl (Sha3Context.pushByte F) ctx =
      (List.range words).foldl
        (fun ctx i => ctx.absorbWord F (loadWord (buf.drop (8 * i)))) ctx := by
  induction words with
  | zero => rfl
  | succ words ih =>
    have hlen : (buf.take (8 * words)).length = 8 * words := by
      rw [List.length_take]
      omega
    obtain ⟨hnext, hindex⟩ := h.foldl_pushByte (F := F) (buf.take (8 * words))
    rw [hb, hlen, Nat.zero_add, Nat.mul_mod_right] at hindex
    rw [List.range_succ, List.foldl_append, List.foldl_cons, List.foldl_nil, Nat.mul_succ,
      List.take_add, List.foldl_append, ← ih (by omega)]
    exact foldl_pushByte_word hnext hindex (by rw [List.length_drop]; omega)

end Sha3Context

/-! ## `kec_update` -/

/-- A piece that starts a word, or stays inside the word that is unfinished. -/
def Fits (byteIndex : ℕ) (buf : List (BitVec 8)) : Prop :=
  byteIndex = 0 ∨ byteIndex + buf.length < 8

instance (byteIndex : ℕ) (buf : List (BitVec 8)) : Decidable (Fits byteIndex buf) :=
  inferInstanceAs (Decidable (_ ∨ _))

/-- Every piece fits where the pieces before it end. -/
def FitsAll : ℕ → List (List (BitVec 8)) → Prop
  | _, [] => True
  | byteIndex, buf :: pieces =>
    Fits byteIndex buf ∧ FitsAll ((byteIndex + buf.length) % 8) pieces

instance decidableFitsAll : ∀ byteIndex pieces, Decidable (FitsAll byteIndex pieces)
  | _, [] => inferInstanceAs (Decidable True)
  | byteIndex, buf :: pieces =>
    have := decidableFitsAll ((byteIndex + buf.length) % 8) pieces
    inferInstanceAs (Decidable (Fits byteIndex buf ∧ _))

theorem fitsAll_pair (byteIndex : ℕ) (a b : List (BitVec 8)) :
    FitsAll byteIndex [a, b] ↔ Fits byteIndex a ∧ Fits ((byteIndex + a.length) % 8) b := by
  simp [FitsAll]

/-- Pieces that fit one after another fit as a whole. -/
theorem FitsAll.flatten {pieces : List (List (BitVec 8))} {byteIndex : ℕ}
    (h : FitsAll byteIndex pieces) (hlt : byteIndex < 8) : Fits byteIndex pieces.flatten := by
  induction pieces generalizing byteIndex with
  | nil => exact Or.inr hlt
  | cons buf pieces ih =>
    obtain ⟨hbuf, hrest⟩ := h
    rcases hbuf with hzero | hin
    · exact Or.inl hzero
    · rw [Nat.mod_eq_of_lt hin] at hrest
      rcases ih hrest hin with hzero | hall
      · exact Or.inl (by omega)
      · rw [List.flatten_cons, Fits, List.length_append]
        exact Or.inr (by omega)

section Update

variable {F : Lanes → Lanes} {ctx : Sha3Context}

/-- **`kec_update` takes the buffer byte by byte**, where it comes back. -/
theorem kecUpdate_eq_foldl (buf : List (BitVec 8)) (h : ctx.Unfinished) :
    kecUpdate F ctx buf =
      if Fits ctx.byteIndex buf then some (buf.foldl (Sha3Context.pushByte F) ctx) else none := by
  have hlt := h.byteIndex_lt
  have hwords : 8 * (buf.length / 8) ≤ buf.length := Nat.mul_div_le _ _
  rw [kecUpdate]
  dsimp only
  by_cases hb : ctx.byteIndex = 0
  · -- no word is unfinished: the words of the buffer, then its last bytes
    obtain ⟨-, hindex⟩ := h.foldl_pushByte (F := F) (buf.take (8 * (buf.length / 8)))
    rw [hb, List.length_take_of_le hwords, Nat.zero_add, Nat.mul_mod_right] at hindex
    rw [if_pos (show Fits ctx.byteIndex buf from Or.inl hb), hb, if_neg (Nat.not_lt_zero _),
      if_neg (not_not.mpr rfl), ← Sha3Context.foldl_pushByte_words h hb hwords,
      ← Sha3Context.foldl_pushByte_of_lt (F := F) _ (by rw [hindex, List.length_drop]; omega),
      ← List.foldl_append, List.take_append_drop]
  · rw [Nat.mod_eq_of_lt (show 8 - ctx.byteIndex < 8 by omega)]
    by_cases hin : ctx.byteIndex + buf.length < 8
    · rw [if_pos (by omega), if_pos (show Fits ctx.byteIndex buf from Or.inr hin),
        Sha3Context.foldl_pushByte_of_lt buf hin]
    · rw [if_neg (by omega), if_pos (by omega),
        if_neg (show ¬ Fits ctx.byteIndex buf from not_or.mpr ⟨hb, hin⟩)]

/-- Updates with one piece after another take all their bytes, one by one. -/
theorem foldlM_kecUpdate (pieces : List (List (BitVec 8))) (h : ctx.Unfinished) :
    pieces.foldlM (kecUpdate F) ctx =
      if FitsAll ctx.byteIndex pieces then
        some (pieces.flatten.foldl (Sha3Context.pushByte F) ctx) else none := by
  induction pieces generalizing ctx with
  | nil => rfl
  | cons buf pieces ih =>
    obtain ⟨hnext, hindex⟩ := h.foldl_pushByte (F := F) buf
    rw [List.foldlM_cons, kecUpdate_eq_foldl buf h, List.flatten_cons, List.foldl_append]
    by_cases hfits : Fits ctx.byteIndex buf
    · rw [if_pos hfits, Option.bind_eq_bind, Option.bind_some, ih hnext, hindex]
      exact if_congr (by rw [FitsAll, and_iff_right hfits]) rfl rfl
    · rw [if_neg hfits, Option.bind_eq_bind, Option.bind_none,
        if_neg fun hall : FitsAll ctx.byteIndex (buf :: pieces) => hfits hall.1]

/-- **Pieces and the whole.**  The updates with the pieces and the update with the
message that they make up come back with one context exactly when every piece fits. -/
theorem kecUpdate_flatten_iff {α : Type} (pieces : List (List (BitVec 8)))
    (h : ctx.Unfinished) (f : Sha3Context → α) :
    (∃ out, (pieces.foldlM (kecUpdate F) ctx).map f = some out ∧
      (kecUpdate F ctx pieces.flatten).map f = some out) ↔ FitsAll ctx.byteIndex pieces := by
  rw [foldlM_kecUpdate pieces h, kecUpdate_eq_foldl _ h]
  constructor
  · rintro ⟨out, hpieces, -⟩
    by_contra hall
    rw [if_neg hall] at hpieces
    cases hpieces
  · intro hall
    rw [if_pos hall, if_pos (hall.flatten h.byteIndex_lt)]
    exact ⟨_, rfl, rfl⟩

end Update

/-! ## The contexts that callers have -/

/-- The contexts that calls of `kec_update` make of a new one. -/
inductive Reached (F : Lanes → Lanes) : Sha3Context → Prop where
  | init {bitSize : ℕ} (h : bitSize = 256 ∨ bitSize = 512) : Reached F (kecInit bitSize)
  | update {ctx ctx' : Sha3Context} (buf : List (BitVec 8)) (h : Reached F ctx)
      (hupdate : kecUpdate F ctx buf = some ctx') : Reached F ctx'

theorem Reached.unfinished {F : Lanes → Lanes} {ctx : Sha3Context} (h : Reached F ctx) :
    ctx.Unfinished := by
  induction h with
  | init h => exact ⟨Nat.succ_pos 7, fun _ => rfl⟩
  | @update ctx ctx' buf _ hupdate ih =>
    rw [kecUpdate_eq_foldl buf ih] at hupdate
    by_cases hfits : Fits ctx.byteIndex buf
    · rw [if_pos hfits, Option.some_inj] at hupdate
      rw [← hupdate]
      exact (ih.foldl_pushByte buf).1
    · rw [if_neg hfits] at hupdate
      cases hupdate

/-- **When a message can be hashed in pieces.**  In every context that a caller can
have, the updates with `a` and with `b` come back with the context of the one update
with `a ++ b` exactly when `a` fits behind what is saved and `b` fits behind `a`; and a
message cut into any pieces has the digest of the whole exactly when each piece fits
behind the ones before it. -/
theorem kecUpdate_pieces_iff (F : Lanes → Lanes) (ctx : Sha3Context) (h : Reached F ctx) :
    (∀ a b : List (BitVec 8),
      (∃ ctx', (kecUpdate F ctx a).bind (kecUpdate F · b) = some ctx' ∧
        kecUpdate F ctx (a ++ b) = some ctx') ↔
      Fits ctx.byteIndex a ∧ Fits ((ctx.byteIndex + a.length) % 8) b) ∧
    ∀ pieces : List (List (BitVec 8)),
      (∃ digest, (pieces.foldlM (kecUpdate F) ctx).map (kecFinalize F) = some digest ∧
        (kecUpdate F ctx pieces.flatten).map (kecFinalize F) = some digest) ↔
      FitsAll ctx.byteIndex pieces := by
  refine ⟨fun a b => ?_, fun pieces => kecUpdate_flatten_iff pieces h.unfinished _⟩
  have hpair := kecUpdate_flatten_iff (F := F) [a, b] h.unfinished id
  rw [fitsAll_pair, Option.map_id, id_eq, id_eq] at hpair
  simpa using hpair

/-- Three bytes, one at a time, have the digest of the three together. -/
theorem kecUpdate_pieces_iff_three :
    ∃ digest, ([[1], [2], [3]].foldlM (kecUpdate id) (kecInit 256)).map (kecFinalize id) =
        some digest ∧
      (kecUpdate id (kecInit 256) [[1], [2], [3]].flatten).map (kecFinalize id) = some digest :=
  ((kecUpdate_pieces_iff id (kecInit 256) (.init (Or.inl rfl))).2 [[1], [2], [3]]).mpr (by decide)

/-- **Seven bytes after the first.**  The eight bytes of one word are hashed in one
update, and never when the first of them comes alone. -/
theorem kecUpdate_one_seven :
    (kecUpdate keccakf (kecInit 256) [1]).isSome ∧
      (kecUpdate keccakf (kecInit 256) [1]).bind (kecUpdate keccakf · [2, 3, 4, 5, 6, 7, 8]) =
        none ∧
      (kecUpdate keccakf (kecInit 256) [1, 2, 3, 4, 5, 6, 7, 8]).isSome :=
  ⟨rfl, rfl, rfl⟩

end Host
end FpgaEthash
