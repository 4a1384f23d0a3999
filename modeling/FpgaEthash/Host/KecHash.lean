import FpgaEthash.Keccak.Lanes
import Mathlib.Tactic.IntervalCases

/-!
# The hash function of the host

`kec_init`, `kec_update`, `kec_finalize` and `kec_HashBuffer` of `fpga_ethash.cpp`,
over any function `F` in the place of `keccakf`.

The code absorbs whole words into the lanes and collects the bytes of an unfinished
word in `saved`.  `Absorbing` relates a context to the byte-wise sponge: the state
with the saved word xored in is the state of the sponge, and the two cursors make up
its position.  A saved byte is one byte (`absorbing_savePartial`), a word is eight
(`absorbing_absorbWord`), and the two pad bits of `kec_finalize` are the padding of
the sponge (`toBytes_kecPadState`).

## A loop that does not end

When a call of `kec_update` finds an unfinished word and enough bytes to finish it,
`while (old_tail)` never changes `old_tail`.  `kecUpdate` is `none` there.  A single
call on a new context does not get that far, so `kec_HashBuffer` always comes back.
-/

namespace FpgaEthash
namespace Host

open LittleEndian Sponge Keccak

/-! ## The functions -/

/-- `sha3_context`.  The cursors are small numbers, and are numbers here. -/
structure Sha3Context where
  saved : BitVec 64
  s : Lanes
  byteIndex : ℕ
  wordIndex : ℕ
  capacityWords : ℕ

/-- `KECCAK_SPONGE_WORDS - SHA3_CW(capacityWords)`, where `SHA3_CW` masks the top bit
of a 32-bit word. -/
def rateWords (capacityWords : ℕ) : ℕ := 25 - capacityWords % 2 ^ 31

/-- `kec_init`. -/
def kecInit (bitSize : ℕ) : Sha3Context where
  saved := 0
  s := Vector.replicate 25 0
  byteIndex := 0
  wordIndex := 0
  capacityWords := 2 * bitSize / 64

namespace Sha3Context

/-- `saved |= (uint64_t) *buf++ << (byteIndex++ * 8)`. -/
def savePartial (ctx : Sha3Context) (b : BitVec 8) : Sha3Context :=
  { ctx with
    saved := ctx.saved ||| b.setWidth 64 <<< (8 * ctx.byteIndex)
    byteIndex := ctx.byteIndex + 1 }

/-- `u.s[wordIndex] ^= t`, and `keccakf` after the last word of the rate. -/
def absorbWord (F : Lanes → Lanes) (ctx : Sha3Context) (t : BitVec 64) : Sha3Context :=
  if ctx.wordIndex + 1 = rateWords ctx.capacityWords then
    { ctx with s := F (xorLane ctx.s ctx.wordIndex t), wordIndex := 0 }
  else { ctx with s := xorLane ctx.s ctx.wordIndex t, wordIndex := ctx.wordIndex + 1 }

end Sha3Context

/-- The word that the loop of `kec_update` reads at `buf`. -/
def loadWord (buf : List (BitVec 8)) : BitVec 64 :=
  (buf.getD 0 0).setWidth 64 ||| (buf.getD 1 0).setWidth 64 <<< (8 * 1) |||
    (buf.getD 2 0).setWidth 64 <<< (8 * 2) ||| (buf.getD 3 0).setWidth 64 <<< (8 * 3) |||
    (buf.getD 4 0).setWidth 64 <<< (8 * 4) ||| (buf.getD 5 0).setWidth 64 <<< (8 * 5) |||
    (buf.getD 6 0).setWidth 64 <<< (8 * 6) ||| (buf.getD 7 0).setWidth 64 <<< (8 * 7)

/-- `kec_update`; `none` if it never comes back. -/
def kecUpdate (F : Lanes → Lanes) (ctx : Sha3Context) (buf : List (BitVec 8)) :
    Option Sha3Context :=
  let oldTail := (8 - ctx.byteIndex) % 8
  if buf.length < oldTail then some (buf.foldl Sha3Context.savePartial ctx)
  -- while (old_tail) reads on and on
  else if oldTail ≠ 0 then none
  else
    let words := buf.length / 8
    let ctx := (List.range words).foldl
      (fun ctx i => ctx.absorbWord F (loadWord (buf.drop (8 * i)))) ctx
    some ((buf.drop (8 * words)).foldl Sha3Context.savePartial ctx)

/-- The state after the two pad bits, before the last `keccakf`. -/
def kecPadState (ctx : Sha3Context) : Lanes :=
  xorLane (xorLane ctx.s ctx.wordIndex (ctx.saved ^^^ (1 : BitVec 64) <<< (8 * ctx.byteIndex)))
    (rateWords ctx.capacityWords - 1) 0x8000000000000000

/-- The bytes that the loop of `kec_finalize` stores for a state. -/
def storeBytes (s : Lanes) : Bytes :=
  Vector.ofFn fun i : Fin 200 =>
    let t1 : BitVec 32 := (laneAt s i).setWidth 32
    let t2 : BitVec 32 := (laneAt s i >>> 16 >>> 16).setWidth 32
    if i.val % 8 < 4 then (t1 >>> (8 * (i.val % 8))).setWidth 8
    else (t2 >>> (8 * (i.val % 8 - 4))).setWidth 8

/-- `kec_finalize`: the bytes that its result points to. -/
def kecFinalize (F : Lanes → Lanes) (ctx : Sha3Context) : Bytes := storeBytes (F (kecPadState ctx))

/-- `kec_HashBuffer`: what is at `out` after the call. -/
def kecHashBuffer (F : Lanes → Lanes) (bitSize : ℕ) (buf out : List (BitVec 8))
    (outBytes : ℕ) : Option (List (BitVec 8)) := do
  let ctx ← kecUpdate F (kecInit bitSize) buf
  let h := kecFinalize F ctx
  let outBytes := if bitSize / 8 < outBytes then bitSize / 8 else outBytes
  some (h.toList.take outBytes ++ out.drop outBytes)

/-! ## Contexts and the byte-wise sponge -/

/-- The context, at a rate of `rw` words, has absorbed what the byte-wise sponge `c`
has absorbed. -/
structure Absorbing (rw : ℕ) (ctx : Sha3Context) (c : Bytes × ℕ) : Prop where
  rate : rateWords ctx.capacityWords = rw
  byteIndex_lt : ctx.byteIndex < 8
  wordIndex_lt : ctx.wordIndex < rw
  saved : ∀ k, ctx.byteIndex ≤ k → k < 8 → byte ctx.saved k = 0
  state : c.1 = toBytes (xorLane ctx.s ctx.wordIndex ctx.saved)
  pos : c.2 = 8 * ctx.wordIndex + ctx.byteIndex

section Steps

variable {F : Lanes → Lanes} {rw : ℕ} {ctx : Sha3Context} {c : Bytes × ℕ}

/-- Where the saved word has no byte yet, `|=` is `^=`. -/
theorem saved_or_eq_xor (h : Absorbing rw ctx c) (b : BitVec 8) :
    ctx.saved ||| b.setWidth 64 <<< (8 * ctx.byteIndex) =
      ctx.saved ^^^ b.setWidth 64 <<< (8 * ctx.byteIndex) := by
  have hlt := h.byteIndex_lt
  refine eq_of_byte_eq (m := 8) (by omega) fun k hk => ?_
  rw [byte_or, byte_xor, byte_shiftLeft b (by omega)]
  by_cases hkj : k = ctx.byteIndex
  · rw [if_pos hkj, h.saved k (by omega) hk]
    simp
  · rw [if_neg hkj]
    simp

/-- **A saved byte is one byte of the sponge.** -/
theorem absorbing_savePartial (h : Absorbing rw ctx c) (hb : ctx.byteIndex + 1 < 8)
    (b : BitVec 8) :
    Absorbing rw (ctx.savePartial b) (absorbByte (onBytes F) (8 * rw) c b) := by
  have hbyte := h.byteIndex_lt
  have hword := h.wordIndex_lt
  have hpos := h.pos
  rw [absorbByte, if_neg (show ¬ c.2 + 1 = 8 * rw by omega)]
  refine ⟨h.rate, hb, hword, fun k hk hk8 => ?_, ?_, ?_⟩
  · have hk' : ctx.byteIndex + 1 ≤ k := hk
    rw [Sha3Context.savePartial, byte_or, byte_shiftLeft b (by omega), if_neg (by omega),
      h.saved k (by omega) hk8]
    rfl
  · rw [Sha3Context.savePartial, saved_or_eq_xor h, ← xorLane_xorLane,
      toBytes_xorLane_shiftLeft _ _ _ hbyte, ← h.state, hpos]
  · rw [hpos]
    rfl

/-- With no unfinished word there is nothing saved. -/
theorem saved_eq_zero (h : Absorbing rw ctx c) (hb : ctx.byteIndex = 0) : ctx.saved = 0 := by
  refine eq_of_byte_eq (m := 8) (by omega) fun k hk => ?_
  rw [h.saved k (by omega) hk, byte_zero]

/-- **A word is eight bytes of the sponge.** -/
theorem absorbing_absorbWord (h : Absorbing rw ctx c) (hb : ctx.byteIndex = 0)
    (t : BitVec 64) :
    Absorbing rw (ctx.absorbWord F t) (absorbBytes (onBytes F) (8 * rw) c (wordBytes t)) ∧
      (ctx.absorbWord F t).byteIndex = 0 := by
  have hzero := saved_eq_zero h hb
  have hword := h.wordIndex_lt
  have hlen : (wordBytes t).length = 8 := by rw [wordBytes, List.length_map, List.length_range]
  have hc : c = (toBytes ctx.s, 8 * ctx.wordIndex) := by
    have hstate := h.state
    have hpos := h.pos
    rw [hzero, xorLane_zero] at hstate
    rw [hb, Nat.add_zero] at hpos
    exact Prod.ext hstate hpos
  rw [hc, Sha3Context.absorbWord, h.rate]
  by_cases hfull : ctx.wordIndex + 1 = rw
  · have hne : wordBytes t ≠ [] := by
      rw [← List.length_pos_iff, hlen]
      decide
    rw [absorbBytes_of_eq hne (by rw [hlen]; omega), if_pos hfull, ← toBytes_xorLane,
      onBytes_toBytes]
    refine ⟨⟨h.rate, h.byteIndex_lt, ?_, h.saved, ?_, ?_⟩, hb⟩
    · dsimp only
      omega
    · dsimp only
      rw [hzero, xorLane_zero]
    · dsimp only
      omega
  · rw [absorbBytes_of_lt (by rw [hlen]; omega), if_neg hfull, ← toBytes_xorLane]
    refine ⟨⟨h.rate, h.byteIndex_lt, ?_, h.saved, ?_, ?_⟩, hb⟩
    · dsimp only
      omega
    · dsimp only
      rw [hzero, xorLane_zero]
    · dsimp only
      omega

/-- Bytes that do not finish the word are saved one after another. -/
theorem absorbing_foldl_savePartial (buf : List (BitVec 8)) (h : Absorbing rw ctx c)
    (hlen : ctx.byteIndex + buf.length < 8) :
    Absorbing rw (buf.foldl Sha3Context.savePartial ctx)
      (absorbBytes (onBytes F) (8 * rw) c buf) := by
  induction buf generalizing ctx c with
  | nil => exact h
  | cons b buf ih =>
    rw [List.length_cons] at hlen
    have hnext : (ctx.savePartial b).byteIndex = ctx.byteIndex + 1 := rfl
    exact ih (absorbing_savePartial h (by omega) b) (by omega)

end Steps

/-! ## The loops -/

theorem byte_loadWord (buf : List (BitVec 8)) {k : ℕ} (hk : k < 8) :
    byte (loadWord buf) k = buf.getD k 0 := by
  have hfirst := byte_shiftLeft (n := 64) (buf.getD 0 0) (j := 0) (by omega) k
  rw [Nat.mul_zero, BitVec.shiftLeft_zero] at hfirst
  rw [loadWord]
  simp only [byte_or]
  rw [hfirst, byte_shiftLeft _ (by omega), byte_shiftLeft _ (by omega),
    byte_shiftLeft _ (by omega), byte_shiftLeft _ (by omega), byte_shiftLeft _ (by omega),
    byte_shiftLeft _ (by omega), byte_shiftLeft _ (by omega)]
  interval_cases k <;> simp

/-- The word that is loaded has the first eight bytes of the buffer. -/
theorem wordBytes_loadWord {buf : List (BitVec 8)} (h : 8 ≤ buf.length) :
    wordBytes (loadWord buf) = buf.take 8 := by
  apply List.ext_getElem
  · rw [wordBytes, List.length_map, List.length_range, List.length_take]
    omega
  · intro k hk hk'
    rw [List.length_take] at hk'
    simp only [wordBytes, List.getElem_map, List.getElem_range, List.getElem_take]
    rw [byte_loadWord buf (by omega), List.getD_eq_getElem _ _ (by omega)]

section Loops

variable {F : Lanes → Lanes} {rw : ℕ} {ctx : Sha3Context} {c : Bytes × ℕ}

/-- The loop over the words of the buffer. -/
theorem absorbing_foldl_absorbWord {buf : List (BitVec 8)} (h : Absorbing rw ctx c)
    (hb : ctx.byteIndex = 0)
    {words : ℕ} (hwords : 8 * words ≤ buf.length) :
    Absorbing rw ((List.range words).foldl
        (fun ctx i => ctx.absorbWord F (loadWord (buf.drop (8 * i)))) ctx)
      (absorbBytes (onBytes F) (8 * rw) c (buf.take (8 * words))) ∧
    ((List.range words).foldl
      (fun ctx i => ctx.absorbWord F (loadWord (buf.drop (8 * i)))) ctx).byteIndex = 0 := by
  induction words with
  | zero => exact ⟨h, hb⟩
  | succ words ih =>
    obtain ⟨habs, hbyte⟩ := ih (by omega)
    have hload : wordBytes (loadWord (buf.drop (8 * words))) = (buf.drop (8 * words)).take 8 :=
      wordBytes_loadWord (by rw [List.length_drop]; omega)
    rw [List.range_succ, List.foldl_append, List.foldl_cons, List.foldl_nil, Nat.mul_succ,
      List.take_add, absorbBytes_append, ← hload]
    exact absorbing_absorbWord habs hbyte _

/-- **`kec_update` absorbs its buffer**, when it finds no unfinished word. -/
theorem kecUpdate_of_byteIndex_eq_zero (buf : List (BitVec 8)) (h : Absorbing rw ctx c)
    (hb : ctx.byteIndex = 0) :
    ∃ ctx', kecUpdate F ctx buf = some ctx' ∧
      Absorbing rw ctx' (absorbBytes (onBytes F) (8 * rw) c buf) := by
  have hwords : 8 * (buf.length / 8) ≤ buf.length := Nat.mul_div_le _ _
  obtain ⟨habs, hbyte⟩ := absorbing_foldl_absorbWord (F := F) h hb hwords
  have htail := absorbing_foldl_savePartial (F := F) (buf.drop (8 * (buf.length / 8))) habs
    (by rw [hbyte, List.length_drop]; omega)
  rw [← absorbBytes_append, List.take_append_drop] at htail
  refine ⟨_, ?_, htail⟩
  rw [kecUpdate, hb, if_neg (Nat.not_lt_zero _), if_neg (not_not.mpr rfl)]

/-! ## The end -/

/-- **The pad bits of `kec_finalize` are the padding of the sponge.** -/
theorem toBytes_kecPadState (h : Absorbing rw ctx c) :
    toBytes (kecPadState ctx) = xorFrom (xorFrom c.1 c.2 [0x01]) (8 * rw - 1) [0x80] := by
  have hone : (1 : BitVec 64) <<< (8 * ctx.byteIndex) =
      (0x01 : BitVec 8).setWidth 64 <<< (8 * ctx.byteIndex) := rfl
  have hlast : (0x8000000000000000 : BitVec 64) = (0x80 : BitVec 8).setWidth 64 <<< (8 * 7) := rfl
  have hword := h.wordIndex_lt
  rw [kecPadState, h.rate, hone, hlast, toBytes_xorLane_shiftLeft _ _ _ (by omega),
    ← xorLane_xorLane, toBytes_xorLane_shiftLeft _ _ _ h.byteIndex_lt, ← h.state, ← h.pos,
    show 8 * (rw - 1) + 7 = 8 * rw - 1 by omega]

end Loops

/-- The bytes that `kec_finalize` stores are those of the lanes. -/
theorem storeBytes_eq_toBytes (s : Lanes) : storeBytes s = toBytes s := by
  ext1 i hi
  rw [getElem_toBytes, storeBytes, Vector.getElem_ofFn]
  dsimp only
  split_ifs with hlow
  · ext j hj
    simp [byte, show 8 * (i % 8) + j < 32 by omega]
    rfl
  · ext j hj
    simp [byte, show 8 * (i % 8 - 4) + j < 32 by omega]
    rw [show 32 + (8 * (i % 8 - 4) + j) = 8 * (i % 8) + j by omega]
    rfl

/-! ## The sponge -/

theorem absorbing_kecInit {bitSize : ℕ} (hle : bitSize ≤ 512) :
    Absorbing (25 - bitSize / 32) (kecInit bitSize) (Vector.replicate 200 0, 0) := by
  refine ⟨?_, Nat.succ_pos 7, ?_, fun k _ _ => byte_zero k, ?_, rfl⟩
  · rw [kecInit, rateWords, Nat.mod_eq_of_lt (by dsimp only; omega)]
    dsimp only
    omega
  · rw [kecInit]
    dsimp only
    omega
  · rw [kecInit, xorLane_zero, toBytes_zero]

/-- **The sponge, at every size that is a whole number of words of capacity** and
leaves room for its output in the rate. -/
theorem kecHashBuffer_of_dvd (F : Lanes → Lanes) {bitSize : ℕ} (h32 : 32 ∣ bitSize)
    (hle : bitSize ≤ 512) (m out : List (BitVec 8)) (outBytes : ℕ) :
    kecHashBuffer F bitSize m out outBytes =
      some (sponge (onBytes F) (200 - bitSize / 4) m (min outBytes (bitSize / 8)) ++
        out.drop (min outBytes (bitSize / 8))) := by
  have hrate : 8 * (25 - bitSize / 32) = 200 - bitSize / 4 := by omega
  obtain ⟨ctx, hupdate, habs⟩ :=
    kecUpdate_of_byteIndex_eq_zero (F := F) m (absorbing_kecInit hle) rfl
  rw [hrate] at habs
  have hfinal : kecFinalize F ctx = onBytes F (xorFrom (xorFrom
      (absorbBytes (onBytes F) (200 - bitSize / 4) (Vector.replicate 200 0, 0) m).1
      (absorbBytes (onBytes F) (200 - bitSize / 4) (Vector.replicate 200 0, 0) m).2 [0x01])
      (200 - bitSize / 4 - 1) [0x80]) := by
    rw [kecFinalize, storeBytes_eq_toBytes, ← onBytes_toBytes, toBytes_kecPadState habs, hrate]
  have hout : (if bitSize / 8 < outBytes then bitSize / 8 else outBytes) =
      min outBytes (bitSize / 8) := by
    split_ifs <;> omega
  rw [kecHashBuffer, hupdate, sponge_eq_of_absorbBytes (by omega) Prod.mk.eta.symm, ← hfinal,
    squeeze_of_le (by omega) (by omega), ← hout]
  rfl

/-- **`kec_HashBuffer` is the Keccak sponge.**  For every function in the place of
`keccakf`, both sizes, every message and every `outBytes`, the call comes back and
has written the first `min(outBytes, bitSize / 8)` bytes of the sponge with rate
`200 - bitSize / 4`, and no others. -/
theorem kecHashBuffer_eq_sponge (F : Lanes → Lanes) (bitSize : ℕ)
    (h : bitSize = 256 ∨ bitSize = 512) (m out : List (BitVec 8)) (outBytes : ℕ) :
    kecHashBuffer F bitSize m out outBytes =
      some (sponge (onBytes F) (200 - bitSize / 4) m (min outBytes (bitSize / 8)) ++
        out.drop (min outBytes (bitSize / 8))) := by
  have h32 : 32 ∣ bitSize := by
    rcases h with rfl | rfl <;> decide
  have hle : bitSize ≤ 512 := by
    rcases h with rfl | rfl <;> decide
  exact kecHashBuffer_of_dvd F h32 hle m out outBytes

/-- The call on a message of two blocks, with room for more output than there is. -/
theorem kecHashBuffer_eq_sponge_twoBlocks :
    kecHashBuffer Vector.reverse 256 (List.replicate 140 1) (List.replicate 40 7) 40 =
      some (sponge (onBytes Vector.reverse) 136 (List.replicate 140 1) 32 ++ List.replicate 8 7) :=
  kecHashBuffer_eq_sponge Vector.reverse 256 (Or.inl rfl) (List.replicate 140 1)
    (List.replicate 40 7) 40

end Host
end FpgaEthash
