import Mathlib.Tactic.Common
import Mathlib.Logic.Function.Iterate
import Mathlib.Data.List.GetD

/-!
# The Keccak sponge

Over any function `f` on states of `b` bytes and any rate `r`: absorb the padded
message block by block into the first `r` bytes, then read the output from there.
The padding is the one of the original Keccak, `0x01`, zeros, and `0x80` on the last
byte of the block, which is `0x81` when both fall on one byte.

Implementations do not see blocks.  They see one byte, or one word, after another,
and a position in the block.  `absorbBytes` is that view: a byte is xored in at the
position, and `f` is applied when the block is full.  `absorbBytes_of_dvd` says that
the two views agree, and `sponge_eq_of_absorbBytes` gives the whole sponge from the
state and the position after the message.
-/

namespace FpgaEthash
namespace Sponge

variable {b : ℕ}

/-! ## Bytes xored into a state -/

/-- The bytes `l` xored into the state from position `pos` on. -/
def xorFrom (s : Vector (BitVec 8) b) (pos : ℕ) (l : List (BitVec 8)) : Vector (BitVec 8) b :=
  Vector.ofFn fun i : Fin b => s.get i ^^^ if pos ≤ i then l.getD (i - pos) 0 else 0

@[simp] theorem getElem_xorFrom (s : Vector (BitVec 8) b) (pos : ℕ) (l : List (BitVec 8))
    {i : ℕ} (hi : i < b) :
    (xorFrom s pos l)[i] = s[i] ^^^ if pos ≤ i then l.getD (i - pos) 0 else 0 := by
  rw [xorFrom, Vector.getElem_ofFn]
  rfl

@[simp] theorem xorFrom_nil (s : Vector (BitVec 8) b) (pos : ℕ) : xorFrom s pos [] = s := by
  ext i hi
  rw [getElem_xorFrom]
  simp

/-- The first byte, then the others. -/
theorem xorFrom_cons (s : Vector (BitVec 8) b) (pos : ℕ) (x : BitVec 8) (l : List (BitVec 8)) :
    xorFrom s pos (x :: l) = xorFrom (xorFrom s pos [x]) (pos + 1) l := by
  apply Vector.ext
  intro i hi
  rw [getElem_xorFrom, getElem_xorFrom, getElem_xorFrom]
  rcases Nat.lt_trichotomy i pos with hlt | heq | hgt
  · simp [show ¬ pos ≤ i by omega, show ¬ pos + 1 ≤ i by omega]
  · subst heq
    simp [show ¬ i + 1 ≤ i by omega]
  · obtain ⟨d, rfl⟩ : ∃ d, i = pos + 1 + d := ⟨i - (pos + 1), by omega⟩
    rw [if_pos (by omega), if_pos (by omega), if_pos (by omega),
      show pos + 1 + d - pos = d + 1 by omega, show pos + 1 + d - (pos + 1) = d by omega,
      List.getD_cons_succ, List.getD_cons_succ, List.getD_nil]
    simp

/-! ## The sponge -/

variable (f : Vector (BitVec 8) b → Vector (BitVec 8) b) (r : ℕ)

/-- Absorb the first `k` blocks of `m`. -/
def absorbBlocks (s : Vector (BitVec 8) b) (m : List (BitVec 8)) (k : ℕ) :
    Vector (BitVec 8) b :=
  (List.range k).foldl (fun s i => f (xorFrom s 0 ((m.drop (i * r)).take r))) s

/-- Absorb the full blocks of `m`. -/
def absorb (s : Vector (BitVec 8) b) (m : List (BitVec 8)) : Vector (BitVec 8) b :=
  absorbBlocks f r s m (m.length / r)

/-- The padding of a message of `n` bytes. -/
def pad (n : ℕ) : List (BitVec 8) :=
  (List.range (r - n % r)).map fun i =>
    (if i = 0 then 0x01 else 0) ^^^ (if i + 1 = r - n % r then 0x80 else 0)

/-- The first `n` bytes of output. -/
def squeeze (s : Vector (BitVec 8) b) (n : ℕ) : List (BitVec 8) :=
  (List.range n).map fun i => (f^[i / r] s).toList.getD (i % r) 0

/-- The first `n` bytes of the sponge of `m`, from the zero state. -/
def sponge (m : List (BitVec 8)) (n : ℕ) : List (BitVec 8) :=
  squeeze f r (absorb f r (Vector.replicate b 0) (m ++ pad r m.length)) n

@[simp] theorem absorbBlocks_zero (s : Vector (BitVec 8) b) (m : List (BitVec 8)) :
    absorbBlocks f r s m 0 = s := rfl

theorem absorbBlocks_succ (s : Vector (BitVec 8) b) (m : List (BitVec 8)) (k : ℕ) :
    absorbBlocks f r s m (k + 1) =
      f (xorFrom (absorbBlocks f r s m k) 0 ((m.drop (k * r)).take r)) := by
  rw [absorbBlocks, List.range_succ, List.foldl_append, List.foldl_cons, List.foldl_nil,
    absorbBlocks]

/-! ## One byte after another -/

/-- Absorb one byte at the position `c.2`; a full block is followed by `f`. -/
def absorbByte (c : Vector (BitVec 8) b × ℕ) (x : BitVec 8) : Vector (BitVec 8) b × ℕ :=
  if c.2 + 1 = r then (f (xorFrom c.1 c.2 [x]), 0) else (xorFrom c.1 c.2 [x], c.2 + 1)

/-- Absorb bytes one after another. -/
def absorbBytes (c : Vector (BitVec 8) b × ℕ) (m : List (BitVec 8)) :
    Vector (BitVec 8) b × ℕ :=
  m.foldl (absorbByte f r) c

@[simp] theorem absorbBytes_nil (c : Vector (BitVec 8) b × ℕ) : absorbBytes f r c [] = c := rfl

@[simp] theorem absorbBytes_cons (c : Vector (BitVec 8) b × ℕ) (x : BitVec 8)
    (m : List (BitVec 8)) :
    absorbBytes f r c (x :: m) = absorbBytes f r (absorbByte f r c x) m := rfl

theorem absorbBytes_append (c : Vector (BitVec 8) b × ℕ) (m m' : List (BitVec 8)) :
    absorbBytes f r c (m ++ m') = absorbBytes f r (absorbBytes f r c m) m' :=
  List.foldl_append

variable {f r}

/-- Bytes that do not fill the block are xored in. -/
theorem absorbBytes_of_lt {s : Vector (BitVec 8) b} {pos : ℕ} {m : List (BitVec 8)}
    (h : pos + m.length < r) :
    absorbBytes f r (s, pos) m = (xorFrom s pos m, pos + m.length) := by
  induction m generalizing s pos with
  | nil => rw [absorbBytes_nil, xorFrom_nil, List.length_nil, Nat.add_zero]
  | cons x m ih =>
    rw [List.length_cons] at h ⊢
    rw [absorbBytes_cons, absorbByte, if_neg (show ¬ pos + 1 = r by omega), ih (by omega),
      ← xorFrom_cons, Nat.add_assoc, Nat.add_comm 1]

/-- Bytes that fill the block are xored in, and `f` is applied. -/
theorem absorbBytes_of_eq {s : Vector (BitVec 8) b} {pos : ℕ} {m : List (BitVec 8)}
    (hm : m ≠ []) (h : pos + m.length = r) :
    absorbBytes f r (s, pos) m = (f (xorFrom s pos m), 0) := by
  induction m generalizing s pos with
  | nil => exact absurd rfl hm
  | cons x m ih =>
    rw [List.length_cons] at h
    rw [absorbBytes_cons, absorbByte]
    by_cases hnil : m = []
    · subst hnil
      rw [if_pos (by rw [List.length_nil] at h; omega), absorbBytes_nil]
    · have hpos := List.length_pos_iff.mpr hnil
      rw [if_neg (show ¬ pos + 1 = r by omega), ih hnil (by omega), ← xorFrom_cons]

/-- The position after some bytes. -/
theorem snd_absorbBytes {c : Vector (BitVec 8) b × ℕ} (hc : c.2 < r) (m : List (BitVec 8)) :
    (absorbBytes f r c m).2 = (c.2 + m.length) % r := by
  induction m generalizing c with
  | nil => rw [absorbBytes_nil, List.length_nil, Nat.add_zero, Nat.mod_eq_of_lt hc]
  | cons x m ih =>
    rw [absorbBytes_cons, List.length_cons, absorbByte]
    by_cases hfull : c.2 + 1 = r
    · rw [if_pos hfull, ih (by dsimp only; omega), Nat.add_comm m.length, ← Nat.add_assoc, hfull,
        Nat.zero_add, Nat.add_mod_left]
    · rw [if_neg hfull, ih (by dsimp only; omega), Nat.add_comm m.length, ← Nat.add_assoc]

/-! ## The two views agree -/

theorem absorb_of_length_eq {s : Vector (BitVec 8) b} {blk m : List (BitVec 8)} (hr : 0 < r)
    (hblk : blk.length = r) :
    absorb f r s (blk ++ m) = absorb f r (f (xorFrom s 0 blk)) m := by
  have hdiv : (blk ++ m).length / r = m.length / r + 1 := by
    rw [List.length_append, hblk, Nat.add_div_left _ hr]
  have hfirst : ((blk ++ m).drop (0 * r)).take r = blk := by
    rw [Nat.zero_mul, List.drop_zero, List.take_left' hblk]
  have hrest : ∀ k, (blk ++ m).drop ((k + 1) * r) = m.drop (k * r) := by
    intro k
    rw [Nat.add_mul, Nat.one_mul, Nat.add_comm, ← List.drop_drop, List.drop_left' hblk]
  rw [absorb, absorbBlocks, hdiv, List.range_succ_eq_map, List.foldl_cons, hfirst,
    List.foldl_map]
  simp only [Nat.succ_eq_add_one, hrest]
  rfl

theorem absorb_of_length_lt {s : Vector (BitVec 8) b} {m : List (BitVec 8)}
    (h : m.length < r) : absorb f r s m = s := by
  rw [absorb, Nat.div_eq_of_lt h, absorbBlocks_zero]

/-- **Blocks and bytes agree**: after the full blocks, the rest is xored in. -/
theorem absorbBytes_eq {s : Vector (BitVec 8) b} (hr : 0 < r) (m : List (BitVec 8)) :
    absorbBytes f r (s, 0) m =
      (xorFrom (absorb f r s m) 0 (m.drop (m.length / r * r)), m.length % r) := by
  obtain ⟨n, hn⟩ : ∃ n, n = m.length := ⟨_, rfl⟩
  induction n using Nat.strongRecOn generalizing s m with
  | ind n ih =>
    rcases Nat.lt_or_ge m.length r with hlt | hge
    · rw [absorbBytes_of_lt (by omega), absorb_of_length_lt hlt, Nat.div_eq_of_lt hlt,
        Nat.zero_mul, List.drop_zero, Nat.mod_eq_of_lt hlt, Nat.zero_add]
    · have htake : (m.take r).length = r := by
        rw [List.length_take]
        omega
      have hne : m.take r ≠ [] := by
        rw [← List.length_pos_iff, htake]
        exact hr
      have hrest := ih (m.drop r).length (by rw [List.length_drop]; omega) (m.drop r) rfl
        (s := f (xorFrom s 0 (m.take r)))
      have hdiv : m.length / r = (m.length - r) / r + 1 := by
        conv_lhs => rw [show m.length = m.length - r + r by omega]
        exact Nat.add_div_right _ hr
      have hmod : (m.length - r) % r = m.length % r := by
        rw [← Nat.mod_eq_sub_mod hge]
      rw [← absorb_of_length_eq hr htake, List.take_append_drop, List.drop_drop,
        List.length_drop, hmod] at hrest
      rw [hdiv, Nat.add_mul, Nat.one_mul, Nat.add_comm _ r, ← hrest]
      conv_lhs => rw [← List.take_append_drop r m]
      rw [absorbBytes_append, absorbBytes_of_eq hne (by rw [htake, Nat.zero_add])]

/-- On a message of whole blocks nothing is left over. -/
theorem absorbBytes_of_dvd {s : Vector (BitVec 8) b} {m : List (BitVec 8)} (hr : 0 < r)
    (h : r ∣ m.length) : absorbBytes f r (s, 0) m = (absorb f r s m, 0) := by
  rw [absorbBytes_eq hr, Nat.div_mul_cancel h, List.drop_length, xorFrom_nil,
    Nat.mod_eq_zero_of_dvd h]

/-! ## The whole sponge -/

theorem length_pad (n : ℕ) : (pad r n).length = r - n % r := by
  rw [pad, List.length_map, List.length_range]

/-- The padding touches two bytes, which may be the same one. -/
theorem xorFrom_pad {s : Vector (BitVec 8) b} {n pos : ℕ} (hr : 0 < r) (hpos : pos = n % r) :
    xorFrom s pos (pad r n) = xorFrom (xorFrom s pos [0x01]) (r - 1) [0x80] := by
  have hlt : pos < r := by
    rw [hpos]
    exact Nat.mod_lt _ hr
  apply Vector.ext
  intro i hi
  rw [getElem_xorFrom, getElem_xorFrom, getElem_xorFrom, BitVec.xor_assoc]
  congr 1
  have hget : ∀ j, (pad r n).getD j 0 = if j < r - pos then
      (if j = 0 then (0x01 : BitVec 8) else 0) ^^^ (if j + 1 = r - pos then 0x80 else 0)
      else 0 := by
    intro j
    by_cases hj : j < r - pos
    · rw [if_pos hj, List.getD_eq_getElem _ _ (by rw [length_pad, ← hpos]; exact hj)]
      simp only [pad, List.getElem_map, List.getElem_range, ← hpos]
    · rw [if_neg hj, List.getD_eq_default _ _ (by rw [length_pad, ← hpos]; omega)]
  have hone : ∀ (x : BitVec 8) (j : ℕ), [x].getD j 0 = if j = 0 then x else 0 := by
    intro x j
    cases j with
    | zero => rfl
    | succ j => rw [if_neg (Nat.succ_ne_zero j), List.getD_cons_succ, List.getD_nil]
  rw [hget, hone, hone]
  by_cases hle : pos ≤ i
  · rw [if_pos hle, if_pos hle]
    by_cases hir : i < r
    · rw [if_pos (by omega)]
      congr 1
      by_cases hlast : i + 1 = r
      · rw [if_pos (by omega), if_pos (by omega), if_pos (by omega)]
      · rw [if_neg (by omega), if_neg (by omega)]
    · rw [if_neg (by omega), if_neg (by omega), if_pos (by omega), if_neg (by omega)]
      rfl
  · rw [if_neg hle, if_neg hle]
    by_cases hlast : r - 1 ≤ i
    · rw [if_pos hlast, if_neg (by omega)]
      rfl
    · rw [if_neg hlast]
      rfl

/-- **The sponge, from the state and the position after the message.** -/
theorem sponge_eq_of_absorbBytes {m : List (BitVec 8)} {s : Vector (BitVec 8) b} {pos : ℕ}
    (hr : 0 < r) (h : absorbBytes f r (Vector.replicate b 0, 0) m = (s, pos)) (n : ℕ) :
    sponge f r m n =
      squeeze f r (f (xorFrom (xorFrom s pos [0x01]) (r - 1) [0x80])) n := by
  have hpos : pos = m.length % r := by
    have hsnd := snd_absorbBytes (f := f) (c := (Vector.replicate b 0, 0)) hr m
    rw [h, Nat.zero_add] at hsnd
    exact hsnd
  have hlt : m.length % r < r := Nat.mod_lt _ hr
  have hdvd : r ∣ (m ++ pad r m.length).length := by
    rw [List.length_append, length_pad]
    refine ⟨m.length / r + 1, ?_⟩
    have := Nat.div_add_mod m.length r
    rw [Nat.mul_add, Nat.mul_one]
    omega
  have hne : pad r m.length ≠ [] := by
    rw [← List.length_pos_iff, length_pad]
    omega
  have hwhole := absorbBytes_of_dvd (f := f) (s := Vector.replicate b 0) hr hdvd
  rw [absorbBytes_append, h, absorbBytes_of_eq hne (by rw [length_pad, hpos]; omega),
    xorFrom_pad hr hpos] at hwhole
  rw [sponge, ← (Prod.mk.inj hwhole).1]

/-- Output that stays inside the first block. -/
theorem squeeze_of_le {s : Vector (BitVec 8) b} {n : ℕ} (hn : n ≤ r) (hb : n ≤ b) :
    squeeze f r s n = s.toList.take n := by
  apply List.ext_getElem
  · rw [squeeze, List.length_map, List.length_range, List.length_take, Vector.length_toList]
    omega
  · intro i hi hi'
    rw [List.length_take, Vector.length_toList] at hi'
    simp only [squeeze, List.getElem_map, List.getElem_range, List.getElem_take]
    rw [Nat.div_eq_of_lt (by omega), Nat.mod_eq_of_lt (by omega), Function.iterate_zero_apply,
      List.getD_eq_getElem _ _ (by rw [Vector.length_toList]; omega)]

end Sponge
end FpgaEthash
