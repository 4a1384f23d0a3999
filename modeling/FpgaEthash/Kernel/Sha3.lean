import FpgaEthash.Host.KecHash
import FpgaEthash.Keccak.Probe

/-!
# The hash functions of the kernel

`hash`, `sha3_256` and `sha3_512` of `kernel_func.cpp`, over any permutation `P` in
the place of `keccakf` and any initial content of the local array `a`.

`hash` pads in the buffer that holds the running state: it xors the delimiter in, but
*assigns* `0x80` to the last byte of the rate.  That is the padding of the sponge only
if the last byte is zero at that moment, as it is for a message that stays below the
rate by two bytes or more (`getElem_padBlock`).  Otherwise either the delimiter falls
on that byte and is lost, or a byte of the permuted state is.

`sha3_outputs_iff` is exact.  The converse is the interesting half: for each longer
message there is a permutation for which the output is wrong, from the first byte on.
-/

namespace FpgaEthash
namespace Kernel

open Keccak Sponge Host

/-! ## The functions -/

/-- `xorin`. -/
def xorin (dst : Bytes) (src : List (BitVec 8)) (len : ℕ) : Bytes :=
  Vector.ofFn fun i : Fin 200 =>
    if i.val < len then dst.get i ^^^ src.getD i 0 else dst.get i

/-- `setout`: what is at `dst` afterwards. -/
def setout (src : Bytes) (dst : List (BitVec 8)) (len : ℕ) : List (BitVec 8) :=
  src.toList.take len ++ dst.drop len

/-- The first loop of `hash`, for at most `fuel` tests of its condition: the state and
the input that is left. -/
def absorbLoop (P : Bytes → Bytes) (rate : ℕ) :
    ℕ → Bytes → List (BitVec 8) → Option (Bytes × List (BitVec 8))
  | 0, _, _ => none
  | fuel + 1, a, inp =>
    if rate ≤ inp.length then absorbLoop P rate fuel (P (xorin a inp rate)) (inp.drop rate)
    else some (a, inp)

/-- The block between the loops, before `P`. -/
def padBlock (a : Bytes) (inp : List (BitVec 8)) (rate : ℕ) (delim : BitVec 8) : Bytes :=
  -- a[inlen] ^= delim; a[rate - 1] = 0x80
  let a := (xorFrom a inp.length [delim]).setIfInBounds (rate - 1) 0x80
  xorin a inp inp.length

/-- The second loop of `hash` and the `setout` after it: what is at `out` afterwards. -/
def squeezeLoop (P : Bytes → Bytes) (rate : ℕ) :
    ℕ → Bytes → List (BitVec 8) → ℕ → Option (List (BitVec 8))
  | 0, _, _, _ => none
  | fuel + 1, a, out, outlen =>
    if rate ≤ outlen then
      (squeezeLoop P rate fuel (P a) (out.drop rate) (outlen - rate)).map
        (a.toList.take rate ++ ·)
    else some (setout a out outlen)

/-- `hash`, from the content `a` of its local array: what is at `out` afterwards, or
`none` if it never comes back.  The array is wiped at the end, which nobody sees. -/
def hash (P : Bytes → Bytes) (a : Bytes) (out : List (BitVec 8)) (outlen : ℕ)
    (inp : List (BitVec 8)) (rate : ℕ) (delim : BitVec 8) : Option (List (BitVec 8)) := do
  let (a, inp) ← absorbLoop P rate (inp.length + 1) a inp
  squeezeLoop P rate (outlen + 1) (P (padBlock a inp rate delim)) out outlen

/-- The two hash functions: the value returned, and what is at `out` afterwards. -/
def sha3 (bitSize : ℕ) (P : Bytes → Bytes) (a : Bytes) (out : List (BitVec 8)) (outlen : ℕ)
    (inp : List (BitVec 8)) : Option (ℤ × List (BitVec 8)) :=
  if bitSize / 8 < outlen then some (-1, out)
  else (hash P a out outlen inp (200 - bitSize / 4) 0x01).map fun out => (0, out)

/-- `sha3_256`. -/
def sha3_256 := sha3 256

/-- `sha3_512`. -/
def sha3_512 := sha3 512

/-! ## The loops -/

theorem xorin_eq_xorFrom (dst : Bytes) {src : List (BitVec 8)} {len : ℕ}
    (h : len ≤ src.length) : xorin dst src len = xorFrom dst 0 (src.take len) := by
  ext1 i hi
  rw [getElem_xorFrom, if_pos (Nat.zero_le i), Nat.sub_zero, xorin, Vector.getElem_ofFn]
  dsimp only
  by_cases hlt : i < len
  · rw [if_pos hlt, List.getD_eq_getElem _ _ (by omega),
      List.getD_eq_getElem _ _ (by rw [List.length_take]; omega), List.getElem_take]
    rfl
  · rw [if_neg hlt, List.getD_eq_default _ _ (by rw [List.length_take]; omega)]
    exact BitVec.xor_zero.symm

section Loops

variable {P : Bytes → Bytes} {rate : ℕ}

/-- **The first loop absorbs the full blocks.** -/
theorem absorbLoop_eq {fuel : ℕ} {inp : List (BitVec 8)} (hrate : 0 < rate)
    (hfuel : inp.length < fuel) (a : Bytes) :
    absorbLoop P rate fuel a inp =
      some (absorb P rate a inp, inp.drop (inp.length / rate * rate)) := by
  induction fuel generalizing a inp with
  | zero => exact absurd hfuel (Nat.not_lt_zero _)
  | succ fuel ih =>
    rw [absorbLoop]
    by_cases hle : rate ≤ inp.length
    · have htake : (inp.take rate).length = rate := by
        rw [List.length_take]
        omega
      have hdiv : inp.length / rate = (inp.length - rate) / rate + 1 := by
        conv_lhs => rw [show inp.length = inp.length - rate + rate by omega]
        exact Nat.add_div_right _ hrate
      rw [if_pos hle, ih (by rw [List.length_drop]; omega), xorin_eq_xorFrom a hle,
        ← absorb_of_length_eq hrate htake, List.take_append_drop, List.drop_drop,
        List.length_drop, hdiv, Nat.add_mul, Nat.one_mul, Nat.add_comm rate]
    · rw [if_neg hle, absorb_of_length_lt (by omega), Nat.div_eq_of_lt (by omega),
        Nat.zero_mul, List.drop_zero]

theorem squeezeLoop_of_lt {outlen : ℕ} (h : outlen < rate) (fuel : ℕ) (a : Bytes)
    (out : List (BitVec 8)) :
    squeezeLoop P rate (fuel + 1) a out outlen = some (setout a out outlen) := by
  rw [squeezeLoop, if_neg (by omega)]

/-- What `hash` writes, if the output stays below the rate. -/
theorem hash_eq {out inp : List (BitVec 8)} {outlen : ℕ} (hrate : 0 < rate)
    (h : outlen < rate) (a : Bytes) (delim : BitVec 8) :
    hash P a out outlen inp rate delim =
      some (setout (P (padBlock (absorb P rate a inp)
        (inp.drop (inp.length / rate * rate)) rate delim)) out outlen) := by
  rw [hash, absorbLoop_eq hrate (Nat.lt_succ_self _)]
  exact squeezeLoop_of_lt h outlen _ out

end Loops

/-! ## The padding -/

/-- The last block of the sponge: the rest of the message and the padding. -/
def spongeBlock (y : Bytes) (tail : List (BitVec 8)) (r : ℕ) : Bytes :=
  xorFrom (xorFrom (xorFrom y 0 tail) tail.length [0x01]) (r - 1) [0x80]

/-- The sponge, from the state after the full blocks. -/
theorem sponge_eq_spongeBlock {P : Bytes → Bytes} {r n : ℕ} (hn : n < r) (hr : r ≤ 200)
    (m : List (BitVec 8)) :
    sponge P r m n = (P (spongeBlock (absorb P r (Vector.replicate 200 0) m)
      (m.drop (m.length / r * r)) r)).toList.take n := by
  have hpos : 0 < r := by omega
  have htail : (m.drop (m.length / r * r)).length = m.length % r := by
    have := Nat.div_add_mod m.length r
    rw [Nat.mul_comm] at this
    rw [List.length_drop]
    omega
  rw [sponge_eq_of_absorbBytes hpos (absorbBytes_eq hpos m), squeeze_of_le (by omega) (by omega),
    spongeBlock, htail]

/-- **`hash` pads as the sponge does, except for the last byte of the rate**, which it
sets. -/
theorem getElem_padBlock (y : Bytes) {tail : List (BitVec 8)} {r i : ℕ}
    (htail : tail.length < r) (hr : r ≤ 200) (hi : i < 200) :
    (padBlock y tail r 0x01)[i] =
      if i = r - 1 then 0x80 else (spongeBlock y tail r)[i] := by
  rw [padBlock, xorin_eq_xorFrom _ (le_refl _), List.take_length, getElem_xorFrom,
    Vector.getElem_setIfInBounds hi]
  by_cases hlast : i = r - 1
  · rw [if_pos hlast.symm, if_pos hlast, if_pos (Nat.zero_le i),
      List.getD_eq_default _ _ (by omega)]
    rfl
  · rw [if_neg (Ne.symm hlast), if_neg hlast, spongeBlock, getElem_xorFrom_singleton,
      getElem_xorFrom_singleton, if_neg hlast, getElem_xorFrom_singleton, getElem_xorFrom]
    by_cases hdelim : i = tail.length
    · rw [if_pos hdelim, if_pos hdelim, BitVec.xor_assoc, BitVec.xor_assoc]
      congr 1
      exact BitVec.xor_comm _ _
    · rw [if_neg hdelim, if_neg hdelim]

/-- The byte that is lost. -/
theorem getElem_spongeBlock_last (y : Bytes) {tail : List (BitVec 8)} {r : ℕ}
    (htail : tail.length < r) (hr : r ≤ 200) :
    (spongeBlock y tail r)[r - 1] =
      y[r - 1] ^^^ (if tail.length + 1 = r then 0x01 else 0) ^^^ 0x80 := by
  have hbound : r - 1 < 200 := by omega
  rw [spongeBlock, getElem_xorFrom_singleton _ _ _ hbound, if_pos rfl,
    getElem_xorFrom_singleton _ _ _ hbound, getElem_xorFrom _ _ _ hbound,
    if_pos (Nat.zero_le _), List.getD_eq_default _ _ (by omega)]
  congr 1
  by_cases hfull : tail.length + 1 = r
  · rw [if_pos (by omega), if_pos hfull]
    exact congrArg (· ^^^ 1) BitVec.xor_zero
  · rw [if_neg (by omega), if_neg hfull]

/-- A message that stays two bytes below the rate is padded right. -/
theorem padBlock_eq_spongeBlock {m : List (BitVec 8)} {r : ℕ} (h : m.length + 1 < r)
    (hr : r ≤ 200) :
    padBlock (Vector.replicate 200 0) m r 0x01 = spongeBlock (Vector.replicate 200 0) m r := by
  ext1 i hi
  rw [getElem_padBlock _ (by omega) hr hi]
  by_cases hlast : i = r - 1
  · subst hlast
    rw [if_pos rfl, getElem_spongeBlock_last _ (by omega) hr, if_neg (by omega),
      Vector.getElem_replicate]
    rfl
  · rw [if_neg hlast]

/-! ## Longer messages -/

theorem counter_spongeBlock (y : Bytes) {tail : List (BitVec 8)} {r : ℕ}
    (htail : tail.length < r) (hr : r ≤ 192) : counter (spongeBlock y tail r) = counter y := by
  rw [spongeBlock, counter_xorFrom _ (by rw [List.length_singleton]; omega),
    counter_xorFrom _ (by rw [List.length_singleton]; omega), counter_xorFrom _ (by omega)]

theorem counter_padBlock (y : Bytes) {tail : List (BitVec 8)} {r : ℕ}
    (htail : tail.length < r) (hr : r ≤ 192) : counter (padBlock y tail r 0x01) = counter y := by
  rw [← counter_spongeBlock y htail hr]
  refine counter_congr fun i hi hge => ?_
  rw [getElem_padBlock y htail (by omega) hi, if_neg (by omega)]

/-- If the byte that is lost was not zero, the probe shows it. -/
theorem probe_padBlock_ne {y : Bytes} {tail : List (BitVec 8)} {r : ℕ} (hpos : 0 < r - 1)
    (htail : tail.length < r) (hr : r ≤ 192) (δ : BitVec 8)
    (hlost : y[r - 1] ^^^ (if tail.length + 1 = r then 0x01 else 0) ≠ 0) :
    (probe ⟨r - 1, by omega⟩ hpos (counter y) δ (padBlock y tail r 0x01))[0] ≠
      (probe ⟨r - 1, by omega⟩ hpos (counter y) δ (spongeBlock y tail r))[0] := by
  refine probe_getElem_zero_ne hpos δ (counter_padBlock y htail hr)
    (counter_spongeBlock y htail hr) ?_ ?_
  · rw [getElem_padBlock y htail (by omega), if_neg (by omega)]
  · dsimp only
    rw [getElem_padBlock y htail (by omega), if_pos rfl,
      getElem_spongeBlock_last y htail (by omega)]
    intro h
    apply hlost
    have hzero : (0x80 : BitVec 8) = 0 ^^^ 0x80 := rfl
    rw [hzero] at h
    exact ((BitVec.xor_left_inj _).mp h).symm

/-- **The padding goes wrong, and it shows.**  For every message that reaches the last
byte of the rate there is a permutation under which the outputs of `hash` and of the
sponge differ in their first byte. -/
theorem exists_perm_getElem_zero_ne {m : List (BitVec 8)} {r : ℕ} (hr : 2 ≤ r) (hr' : r ≤ 192)
    (hm : m.length < 2 ^ 64) (h : r ≤ m.length + 1) :
    ∃ P : Equiv.Perm Bytes,
      (P (padBlock (absorb P r (Vector.replicate 200 0) m) (m.drop (m.length / r * r)) r
        0x01))[0] ≠
      (P (spongeBlock (absorb P r (Vector.replicate 200 0) m) (m.drop (m.length / r * r))
        r))[0] := by
  have hpos : 0 < r - 1 := by omega
  have htail : (m.drop (m.length / r * r)).length < r := by
    have hmod := Nat.mod_lt m.length (show 0 < r by omega)
    have hdiv := Nat.div_add_mod m.length r
    rw [Nat.mul_comm] at hdiv
    rw [List.length_drop]
    omega
  -- with no full block the delimiter is lost, otherwise a byte that the probe sets
  obtain ⟨δ, hδ⟩ : ∃ δ, (absorbBlocks
      (probe ⟨r - 1, by omega⟩ hpos (BitVec.ofNat 64 (m.length / r)) δ) r
      (Vector.replicate 200 0) m (m.length / r))[r - 1] ^^^
        (if (m.drop (m.length / r * r)).length + 1 = r then 0x01 else 0) ≠ 0 := by
    cases hk : m.length / r with
    | zero =>
      rw [hk, Nat.zero_mul, List.drop_zero] at htail
      refine ⟨0, ?_⟩
      rw [absorbBlocks_zero, Vector.getElem_replicate, Nat.zero_mul, List.drop_zero,
        if_pos (by omega)]
      decide
    | succ k =>
      have hlt : m.length / r ≤ m.length := Nat.div_le_self _ _
      obtain ⟨δ, hδ⟩ := exists_getElem_absorbBlocks ⟨r - 1, by omega⟩ hpos hr' m (n := k)
        (by omega) 0x02
      refine ⟨δ, ?_⟩
      rw [hδ]
      split_ifs <;> decide
  have hshow := probe_padBlock_ne hpos htail hr' δ hδ
  rw [counter_absorbBlocks _ hpos hr'] at hshow
  exact ⟨_, hshow⟩

/-! ## When the outputs are right -/

/-- What the hash functions write, on an admitted `outlen`. -/
theorem sha3_eq {bitSize : ℕ} (hsize : bitSize = 256 ∨ bitSize = 512) (P : Bytes → Bytes)
    (a : Bytes) {out : List (BitVec 8)} {outlen : ℕ} (houtlen : outlen ≤ bitSize / 8)
    (m : List (BitVec 8)) :
    sha3 bitSize P a out outlen m =
      some (0, setout (P (padBlock (absorb P (200 - bitSize / 4) a m)
        (m.drop (m.length / (200 - bitSize / 4) * (200 - bitSize / 4))) (200 - bitSize / 4)
        0x01)) out outlen) := by
  rw [sha3, if_neg (by omega), hash_eq (by omega) (by omega)]
  rfl

/-- **The exact condition**, for both functions. -/
theorem sha3_outputs_iff {bitSize : ℕ} (hsize : bitSize = 256 ∨ bitSize = 512)
    {m : List (BitVec 8)} (out : List (BitVec 8)) {outlen : ℕ} (hm : m.length < 2 ^ 64)
    (houtlen : outlen ≤ bitSize / 8) :
    (∀ P : Equiv.Perm Bytes, sha3 bitSize P (Vector.replicate 200 0) out outlen m =
      some (0, sponge P (200 - bitSize / 4) m outlen ++ out.drop outlen)) ↔
    outlen = 0 ∨ m.length + 1 < 200 - bitSize / 4 := by
  constructor
  · intro h
    by_contra hnot
    obtain ⟨P, hP⟩ := exists_perm_getElem_zero_ne (r := 200 - bitSize / 4) (by omega) (by omega)
      hm (by omega)
    have heq := h P
    rw [sha3_eq hsize P _ houtlen, sponge_eq_spongeBlock (by omega) (by omega), setout] at heq
    have hbytes := List.append_cancel_right (Prod.mk.inj (Option.some.inj heq)).2
    have hfirst := congrArg (fun l : List (BitVec 8) => l.getD 0 0) hbytes
    rw [List.getD_eq_getElem _ _ (by rw [List.length_take, Vector.length_toList]; omega),
      List.getD_eq_getElem _ _ (by rw [List.length_take, Vector.length_toList]; omega),
      List.getElem_take, List.getElem_take, Vector.getElem_toList, Vector.getElem_toList] at hfirst
    exact hP hfirst
  · intro h P
    rw [sha3_eq hsize P _ houtlen, sponge_eq_spongeBlock (by omega) (by omega), setout]
    rcases h with rfl | hlt
    · rw [List.take_zero, List.take_zero]
    · rw [absorb_of_length_lt (by omega), Nat.div_eq_of_lt (by omega), Nat.zero_mul,
        List.drop_zero, padBlock_eq_spongeBlock hlt (by omega)]

/-- A permutation of the bytes, as a permutation of the lanes. -/
def onLanes (P : Bytes → Bytes) (s : Lanes) : Lanes := Keccak.ofBytes (P (toBytes s))

theorem onBytes_onLanes (P : Bytes → Bytes) : onBytes (onLanes P) = P := by
  funext s
  rw [onBytes, onLanes, toBytes_ofBytes, toBytes_ofBytes]

/-- **The hash functions of the kernel.**  On an input that the address space holds and
an admitted `outlen`, they write the bytes of the sponge, and so agree with
`kec_HashBuffer`, for every permutation *exactly when* nothing is asked for or the
message stays two bytes below the rate. -/
theorem sha3_sponge_iff (m out : List (BitVec 8)) (hm : m.length < 2 ^ 64) :
    (∀ outlen ≤ 32,
      (∀ P : Equiv.Perm Bytes, ∃ written,
        sha3_256 P (Vector.replicate 200 0) out outlen m = some (0, written) ∧
        written = sponge P 136 m outlen ++ out.drop outlen ∧
        kecHashBuffer (onLanes P) 256 m out outlen = some written) ↔
      outlen = 0 ∨ m.length + 1 < 136) ∧
    (∀ outlen ≤ 64,
      (∀ P : Equiv.Perm Bytes, ∃ written,
        sha3_512 P (Vector.replicate 200 0) out outlen m = some (0, written) ∧
        written = sponge P 72 m outlen ++ out.drop outlen ∧
        kecHashBuffer (onLanes P) 512 m out outlen = some written) ↔
      outlen = 0 ∨ m.length + 1 < 72) := by
  have hboth : ∀ bitSize, bitSize = 256 ∨ bitSize = 512 → ∀ outlen ≤ bitSize / 8,
      ((∀ P : Equiv.Perm Bytes, ∃ written,
        sha3 bitSize P (Vector.replicate 200 0) out outlen m = some (0, written) ∧
        written = sponge P (200 - bitSize / 4) m outlen ++ out.drop outlen ∧
        kecHashBuffer (onLanes P) bitSize m out outlen = some written) ↔
      outlen = 0 ∨ m.length + 1 < 200 - bitSize / 4) := by
    intro bitSize hsize outlen houtlen
    have hhost : ∀ P : Bytes → Bytes, kecHashBuffer (onLanes P) bitSize m out outlen =
        some (sponge P (200 - bitSize / 4) m outlen ++ out.drop outlen) := by
      intro P
      have h32 : 32 ∣ bitSize := by
        rcases hsize with rfl | rfl <;> decide
      rw [kecHashBuffer_of_dvd (onLanes P) h32 (by omega), onBytes_onLanes,
        Nat.min_eq_left houtlen]
    rw [← sha3_outputs_iff hsize out hm houtlen]
    constructor
    · intro h P
      obtain ⟨written, hwritten, rfl, -⟩ := h P
      exact hwritten
    · exact fun h P => ⟨_, h P, rfl, hhost P⟩
  exact ⟨hboth 256 (Or.inl rfl), hboth 512 (Or.inr rfl)⟩

/-- A message of three bytes is hashed right, by both functions. -/
theorem sha3_sponge_iff_threeBytes :
    (∀ P : Equiv.Perm Bytes, ∃ written,
      sha3_256 P (Vector.replicate 200 0) [] 32 [1, 2, 3] = some (0, written) ∧
      written = sponge P 136 [1, 2, 3] 32 ++ List.drop 32 [] ∧
      kecHashBuffer (onLanes P) 256 [1, 2, 3] [] 32 = some written) ∧
    (∀ P : Equiv.Perm Bytes, ∃ written,
      sha3_512 P (Vector.replicate 200 0) [] 64 [1, 2, 3] = some (0, written) ∧
      written = sponge P 72 [1, 2, 3] 64 ++ List.drop 64 [] ∧
      kecHashBuffer (onLanes P) 512 [1, 2, 3] [] 64 = some written) :=
  ⟨((sha3_sponge_iff [1, 2, 3] [] (by decide)).1 32 (by decide)).mpr (Or.inr (by decide)),
    ((sha3_sponge_iff [1, 2, 3] [] (by decide)).2 64 (by decide)).mpr (Or.inr (by decide))⟩

/-- Bytes `0` and `71` exchanged. -/
def swapFrontLast : Equiv.Perm Bytes where
  toFun s := s.swap 0 71
  invFun s := s.swap 0 71
  left_inv s := Vector.swap_swap _ _
  right_inv s := Vector.swap_swap _ _

/-- Seventy-one bytes under a permutation of two bytes: the delimiter is lost. -/
theorem sha3_512_loses_delimiter :
    sha3_512 swapFrontLast (Vector.replicate 200 0) [0] 1 (List.replicate 71 0) =
        some (0, [0x80]) ∧
      sponge swapFrontLast 72 (List.replicate 71 0) 1 = [0x81] := by
  decide +kernel

end Kernel
end FpgaEthash
