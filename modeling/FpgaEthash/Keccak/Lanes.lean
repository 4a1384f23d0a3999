import FpgaEthash.Arithmetic.LittleEndian
import FpgaEthash.Keccak.Sponge
import Mathlib.Logic.Equiv.Defs

/-!
# The Keccak state as lanes and as bytes

The state is twenty-five lanes of 64 bits, or the two hundred bytes of these lanes,
least significant byte first.  `lanesEquivBytes` is the bijection.  A function on
lanes is a function on bytes by it (`onBytes`), and a lane xored into the one view is
eight bytes xored into the other (`toBytes_xorLane`).
-/

namespace FpgaEthash
namespace Keccak

open LittleEndian Sponge

/-- The state as lanes. -/
abbrev Lanes := Vector (BitVec 64) 25

/-- The state as bytes. -/
abbrev Bytes := Vector (BitVec 8) 200

/-- The lane that byte `i` belongs to. -/
def laneAt (s : Lanes) (i : Fin 200) : BitVec 64 := s.get ⟨i / 8, by omega⟩

/-- The bytes of the lanes. -/
def toBytes (s : Lanes) : Bytes := Vector.ofFn fun i : Fin 200 => byte (laneAt s i) (i % 8)

/-- The eight bytes of lane `j`. -/
def laneBytes (s : Bytes) (j : Fin 25) : List (BitVec 8) :=
  List.ofFn fun k : Fin 8 => s.get ⟨8 * j + k, by omega⟩

/-- The lanes that the bytes make up. -/
def ofBytes (s : Bytes) : Lanes := Vector.ofFn fun j => LittleEndian.ofBytes 64 (laneBytes s j)

theorem getElem_toBytes (s : Lanes) {i : ℕ} (hi : i < 200) :
    (toBytes s)[i] = byte s[i / 8] (i % 8) := by
  rw [toBytes, Vector.getElem_ofFn]
  rfl

theorem byte_getElem_ofBytes (s : Bytes) {j k : ℕ} (hj : j < 25) (hk : k < 8) :
    byte (ofBytes s)[j] k = s[8 * j + k] := by
  rw [ofBytes, Vector.getElem_ofFn, byte_ofBytes _ (by omega), laneBytes,
    List.getD_eq_getElem _ _ (by rw [List.length_ofFn]; exact hk), List.getElem_ofFn]
  rfl

theorem ofBytes_toBytes (s : Lanes) : ofBytes (toBytes s) = s := by
  ext1 j hj
  refine eq_of_byte_eq (m := 8) (by omega) fun k hk => ?_
  rw [byte_getElem_ofBytes _ hj hk, getElem_toBytes]
  congr 2 <;> omega

theorem toBytes_ofBytes (s : Bytes) : toBytes (ofBytes s) = s := by
  ext1 i hi
  rw [getElem_toBytes, byte_getElem_ofBytes _ (by omega) (by omega)]
  congr 1
  omega

/-- **Lanes and bytes are the same states.** -/
def lanesEquivBytes : Lanes ≃ Bytes where
  toFun := toBytes
  invFun := ofBytes
  left_inv := ofBytes_toBytes
  right_inv := toBytes_ofBytes

theorem toBytes_zero : toBytes (Vector.replicate 25 0) = Vector.replicate 200 0 := by
  ext1 i hi
  rw [getElem_toBytes, Vector.getElem_replicate, Vector.getElem_replicate, byte_zero]

/-- A function on lanes, as a function on bytes. -/
def onBytes (F : Lanes → Lanes) (s : Bytes) : Bytes := toBytes (F (ofBytes s))

@[simp] theorem onBytes_toBytes (F : Lanes → Lanes) (s : Lanes) :
    onBytes F (toBytes s) = toBytes (F s) := by
  rw [onBytes, ofBytes_toBytes]

/-! ## Xors of lanes -/

theorem xor_cancel_left {w : ℕ} (a b : BitVec w) : a ^^^ (a ^^^ b) = b := by
  rw [← BitVec.xor_assoc, BitVec.xor_self, BitVec.zero_xor]

theorem xor_left_comm {w : ℕ} (a b c : BitVec w) : a ^^^ (b ^^^ c) = b ^^^ (a ^^^ c) := by
  rw [← BitVec.xor_assoc, BitVec.xor_comm a b, BitVec.xor_assoc]

/-- The words `v i` xored together. -/
def xorSum {ι : Type*} {w : ℕ} : List ι → (ι → BitVec w) → BitVec w
  | [], _ => 0
  | i :: L, v => v i ^^^ xorSum L v

@[simp] theorem xorSum_nil {ι : Type*} {w : ℕ} (v : ι → BitVec w) : xorSum [] v = 0 := rfl

theorem xorSum_cons {ι : Type*} {w : ℕ} (i : ι) (L : List ι) (v : ι → BitVec w) :
    xorSum (i :: L) v = v i ^^^ xorSum L v := rfl

theorem xorSum_xor {ι : Type*} {w : ℕ} (L : List ι) (v u : ι → BitVec w) :
    xorSum L (fun i => v i ^^^ u i) = xorSum L v ^^^ xorSum L u := by
  induction L with
  | nil => exact BitVec.xor_zero.symm
  | cons i L ih =>
    rw [xorSum_cons, xorSum_cons, xorSum_cons, ih]
    ac_rfl

theorem xorSum_eq_zero {ι : Type*} {w : ℕ} {L : List ι} {v : ι → BitVec w}
    (hv : ∀ i ∈ L, v i = 0) : xorSum L v = 0 := by
  induction L with
  | nil => rfl
  | cons i L ih =>
    rw [xorSum_cons, hv i List.mem_cons_self, ih fun j hj => hv j (List.mem_cons_of_mem i hj)]
    exact BitVec.xor_zero

/-- The word `t` xored into lane `i`. -/
def xorLane (s : Lanes) (i : ℕ) (t : BitVec 64) : Lanes :=
  Vector.ofFn fun j : Fin 25 => if j.val = i then s.get j ^^^ t else s.get j

theorem getElem_xorLane (s : Lanes) (i : ℕ) (t : BitVec 64) {j : ℕ} (hj : j < 25) :
    (xorLane s i t)[j] = if j = i then s[j] ^^^ t else s[j] := by
  rw [xorLane, Vector.getElem_ofFn]
  rfl

@[simp] theorem xorLane_zero (s : Lanes) (i : ℕ) : xorLane s i 0 = s := by
  ext1 j hj
  rw [getElem_xorLane]
  split_ifs
  · exact BitVec.xor_zero
  · rfl

theorem xorLane_xorLane (s : Lanes) (i : ℕ) (t u : BitVec 64) :
    xorLane (xorLane s i t) i u = xorLane s i (t ^^^ u) := by
  ext1 j hj
  rw [getElem_xorLane, getElem_xorLane, getElem_xorLane]
  split_ifs
  · rw [BitVec.xor_assoc]
  · rfl

/-- Words xored into lanes one after the other: a lane gets those that are meant for it. -/
theorem getElem_foldl_xorLane {ι : Type*} (f : ι → ℕ) (v : ι → BitVec 64) (L : List ι)
    (s : Lanes) {j : ℕ} (hj : j < 25) :
    (L.foldl (fun s i => xorLane s (f i) (v i)) s)[j] =
      s[j] ^^^ xorSum (L.filter fun i => f i = j) v := by
  induction L generalizing s with
  | nil => exact BitVec.xor_zero.symm
  | cons i L ih =>
    rw [List.foldl_cons, ih, getElem_xorLane]
    by_cases hi : j = f i
    · rw [if_pos hi, List.filter_cons_of_pos (by rw [hi, decide_eq_true rfl]), xorSum_cons,
        BitVec.xor_assoc]
    · rw [if_neg hi, List.filter_cons_of_neg (by simpa using Ne.symm hi)]

/-- The eight bytes of a word. -/
def wordBytes (t : BitVec 64) : List (BitVec 8) := (List.range 8).map (byte t)

theorem getD_wordBytes (t : BitVec 64) (k : ℕ) :
    (wordBytes t).getD k 0 = if k < 8 then byte t k else 0 := by
  by_cases hk : k < 8
  · rw [if_pos hk, List.getD_eq_getElem _ _ (by simpa [wordBytes] using hk)]
    simp [wordBytes]
  · rw [if_neg hk, List.getD_eq_default _ _ (by simpa [wordBytes] using hk)]

/-- **A lane is eight bytes.** -/
theorem toBytes_xorLane (s : Lanes) (i : ℕ) (t : BitVec 64) :
    toBytes (xorLane s i t) = xorFrom (toBytes s) (8 * i) (wordBytes t) := by
  ext1 j hj
  rw [getElem_toBytes, getElem_xorLane, getElem_xorFrom, getElem_toBytes, getD_wordBytes]
  by_cases hji : j / 8 = i
  · rw [if_pos hji, if_pos (by omega), if_pos (by omega), byte_xor,
      show j - 8 * i = j % 8 by omega]
  · rw [if_neg hji]
    by_cases hle : 8 * i ≤ j
    · rw [if_pos hle, if_neg (by omega)]
      exact BitVec.xor_zero.symm
    · rw [if_neg hle]
      exact BitVec.xor_zero.symm

/-- A byte shifted into place in a lane is one byte of the state. -/
theorem toBytes_xorLane_shiftLeft (s : Lanes) (i : ℕ) (b : BitVec 8) {k : ℕ} (hk : k < 8) :
    toBytes (xorLane s i (b.setWidth 64 <<< (8 * k))) = xorFrom (toBytes s) (8 * i + k) [b] := by
  rw [toBytes_xorLane]
  ext1 j hj
  rw [getElem_xorFrom, getElem_xorFrom, getD_wordBytes, byte_shiftLeft b (by omega)]
  congr 1
  rcases Nat.lt_trichotomy j (8 * i + k) with hlt | heq | hgt
  · rw [if_neg (show ¬ 8 * i + k ≤ j by omega)]
    split_ifs <;> first | rfl | omega
  · rw [if_pos (by omega), if_pos (by omega), if_pos (by omega), if_pos (by omega),
      show j - (8 * i + k) = 0 by omega, List.getD_cons_zero]
  · rw [if_pos (show 8 * i + k ≤ j by omega),
      List.getD_eq_default _ _ (by rw [List.length_singleton]; omega)]
    split_ifs <;> first | rfl | omega

end Keccak
end FpgaEthash
