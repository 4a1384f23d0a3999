import FpgaEthash.Host.Keccakf

/-!
# The permutation of the kernel

`keccakf` of `kernel_func.cpp`, which makes two rounds in each turn of its loop, from `a` to
`E` and back.  Each round has five blocks.  A block sets the five words `B[i]` from a lane, an
entry of `D` and a rotation (`lines`), and mixes them into a row of lanes.

The third block of every round reads `D[5]`, and `D` has five entries.  All other accesses
are inside their arrays, by the types here.  What such a read gives is a parameter: `none` if
it may not happen, and then `keccakf` is `none` for each state.  And if it gives some value
each time, the code is still not Keccak-f[1600].  No line reads `a[5]`, since the fourth block
has `a[6]` for it, so lane 5 counts only in the parity of its column, and `D` is computed with
the neighbours exchanged.  The difference `unread` goes through a round without a trace.
-/

namespace FpgaEthash
namespace Kernel

open Keccak

/-! ## The function -/

/-- `rol`. -/
def rol (x : BitVec 64) (s : ℕ) : BitVec 64 := x <<< s ||| x >>> (64 - s)

/-- The table `rc`, which has the entries of `keccakf_rndc`. -/
def rcTable : Vector (BitVec 64) 24 := Host.keccakfRndc

/-- `B[y] = a[y] ^ a[y+5] ^ a[y+10] ^ a[y+15] ^ a[y+20]`, the line of the host. -/
def parityWords (a : Lanes) : Row := Host.columns a

/-- `D[i] = B[(i+1)%5] ^ rol(B[(i+4)%5], 1)`. -/
def dWords (B : Row) : Row := Vector.ofFn fun i : Fin 5 => B.get (i + 1) ^^^ rol (B.get (i + 4)) 1

/-- `D[i]`, where `stray` is what a read behind the array gives. -/
def readD (D : Row) (stray : Option (BitVec 64)) (i : ℕ) : Option (BitVec 64) :=
  if h : i < 5 then some (D.get ⟨i, h⟩) else stray

/-- The lines `B[i] = rol(a[k] ^ D[j], r)` of the five blocks, as `(k, j, r)`.  The very first
has no rotation. -/
def lines : Vector (Vector (Fin 25 × ℕ × ℕ) 5) 5 := #v[
  #v[(0, 0, 0), (6, 1, 44), (12, 2, 43), (18, 3, 21), (24, 4, 14)],
  #v[(3, 3, 28), (9, 4, 20), (10, 0, 3), (16, 1, 45), (22, 2, 61)],
  #v[(1, 1, 1), (7, 2, 6), (13, 3, 25), (19, 4, 8), (20, 5, 18)],
  #v[(4, 4, 27), (6, 0, 36), (11, 1, 10), (17, 2, 15), (23, 3, 56)],
  #v[(2, 2, 62), (8, 3, 55), (14, 4, 39), (15, 0, 41), (21, 1, 2)]]

def line (a : Lanes) (D : Row) (stray : Option (BitVec 64)) (l : Fin 25 × ℕ × ℕ) :
    Option (BitVec 64) :=
  (readD D stray l.2.1).map fun d => rol (a.get l.1 ^^^ d) l.2.2

/-- The words `B` of a block. -/
def blockWords (a : Lanes) (D : Row) (stray : Option (BitVec 64)) (b : Fin 5) : Option Row := do
  let b0 ← line a D stray ((lines.get b).get 0)
  let b1 ← line a D stray ((lines.get b).get 1)
  let b2 ← line a D stray ((lines.get b).get 2)
  let b3 ← line a D stray ((lines.get b).get 3)
  let b4 ← line a D stray ((lines.get b).get 4)
  return #v[b0, b1, b2, b3, b4]

/-- `B[i] ^ (~B[(i+1)%5] & B[(i+2)%5])`. -/
def mixUp (B : Row) (i : Fin 5) : BitVec 64 := B.get i ^^^ (~~~ B.get (i + 1) &&& B.get (i + 2))

/-- `B[i] ^ (~B[(i+4)%5] & B[(i+3)%5])`. -/
def mixDown (B : Row) (i : Fin 5) : BitVec 64 := B.get i ^^^ (~~~ B.get (i + 4) &&& B.get (i + 3))

/-- One round.  The lanes 1 to 4 are mixed by `mix`, the only point at which the two rounds of
a turn are different. -/
def halfTurn (mix : Row → Fin 5 → BitVec 64) (rc : BitVec 64) (stray : Option (BitVec 64))
    (a : Lanes) : Option Lanes := do
  let D := dWords (parityWords a)
  let B0 ← blockWords a D stray 0
  let B1 ← blockWords a D stray 1
  let B2 ← blockWords a D stray 2
  let B3 ← blockWords a D stray 3
  let B4 ← blockWords a D stray 4
  return ofLanes fun i b =>
    match b with
    | 0 => if i = 0 then mixUp B0 0 ^^^ rc else mix B0 i
    | 1 => mixDown B1 i
    | 2 => mixDown B2 i
    | 3 => mixDown B3 i
    | 4 => mixDown B4 i

/-- One turn of the loop, for `n = 2 * k`. -/
def turn (stray : Fin 24 → Option (BitVec 64)) (a : Lanes) (k : Fin 12) : Option Lanes := do
  let E ← halfTurn mixUp (rcTable.get ⟨2 * k, by omega⟩) (stray ⟨2 * k, by omega⟩) a
  halfTurn mixDown (rcTable.get ⟨2 * k + 1, by omega⟩) (stray ⟨2 * k + 1, by omega⟩) E

/-- `keccakf`, where `stray n` is what the read of `D[5]` in round `n` gives. -/
def keccakf (stray : Fin 24 → Option (BitVec 64)) (state : Bytes) : Option Bytes :=
  ((List.finRange 12).foldlM (turn stray) (ofBytes state)).map toBytes

/-! ## The read behind the array -/

theorem halfTurn_none (mix : Row → Fin 5 → BitVec 64) (rc : BitVec 64) (a : Lanes) :
    halfTurn mix rc none a = none := rfl

/-- If the read is not allowed, no state comes back. -/
theorem keccakf_stray_none (state : Bytes) : keccakf (fun _ => none) state = none := by
  rw [keccakf, List.finRange_succ, List.foldlM_cons, turn, halfTurn_none]
  rfl

/-! ## A difference that leaves no trace -/

/-- Two columns and lane 5, all their bits. -/
def unread : Lanes :=
  ofLanes fun x y => if x = 2 ∨ x = 3 ∨ (x = 0 ∧ y = 1) then BitVec.allOnes 64 else 0

theorem parityWords_eq (a : Lanes) : parityWords a = columnParity a := rfl

theorem get_dWords (B : Row) (i : Fin 5) :
    (dWords B).get i = B.get (i + 1) ^^^ (B.get (i + 4)).rotateLeft 1 := by
  rw [← Host.rotl64_eq _ (by decide)]
  exact Vector.getElem_ofFn _

theorem dWords_xorLanes (a d : Lanes) (i : Fin 5) :
    (dWords (parityWords (xorLanes a d))).get i =
      (dWords (parityWords a)).get i ^^^ (dWords (parityWords d)).get i := by
  simp only [get_dWords, parityWords_eq, columnParity_xorLanes, rotateLeft_xor]
  ac_rfl

/-- In every line the lane of `unread` is what `unread` makes of the entry of `D`, and zero
where the line reads behind `D`. -/
theorem get_unread : ∀ b i : Fin 5, unread.get ((lines.get b).get i).1 =
    if h : ((lines.get b).get i).2.1 < 5 then (dWords (parityWords unread)).get ⟨_, h⟩ else 0 := by
  decide +kernel

theorem line_unread (a : Lanes) (stray : Option (BitVec 64)) (b i : Fin 5) :
    line (xorLanes a unread) (dWords (parityWords (xorLanes a unread))) stray
        ((lines.get b).get i) =
      line a (dWords (parityWords a)) stray ((lines.get b).get i) := by
  rw [line, line, readD, readD, get_xorLanes, get_unread b i]
  by_cases h : ((lines.get b).get i).2.1 < 5
  · rw [dif_pos h, dif_pos h, dif_pos h, Option.map_some, Option.map_some, dWords_xorLanes,
      BitVec.xor_comm ((dWords (parityWords a)).get _), BitVec.xor_assoc, xor_cancel_left]
  · rw [dif_neg h, dif_neg h, dif_neg h]
    congr 1
    funext d
    rw [show a.get ((lines.get b).get i).1 ^^^ 0 = a.get ((lines.get b).get i).1 from
      BitVec.xor_zero]

theorem halfTurn_unread (mix : Row → Fin 5 → BitVec 64) (rc : BitVec 64)
    (stray : Option (BitVec 64)) (a : Lanes) :
    halfTurn mix rc stray (xorLanes a unread) = halfTurn mix rc stray a := by
  simp only [halfTurn, blockWords, line_unread]

theorem turn_unread (stray : Fin 24 → Option (BitVec 64)) (a : Lanes) (k : Fin 12) :
    turn stray (xorLanes a unread) k = turn stray a k := by
  rw [turn, turn, halfTurn_unread]

/-- The state with `unread` xored in. -/
def twin (state : Bytes) : Bytes := toBytes (xorLanes (ofBytes state) unread)

/-- **A state and its twin are not told apart**, whatever the stray reads give. -/
theorem keccakf_twin (stray : Fin 24 → Option (BitVec 64)) (state : Bytes) :
    keccakf stray (twin state) = keccakf stray state := by
  rw [keccakf, keccakf, twin, ofBytes_toBytes, List.finRange_succ, List.foldlM_cons,
    List.foldlM_cons, turn_unread]

theorem onBytes_keccakF_twin_ne (state : Bytes) :
    onBytes keccakF (twin state) ≠ onBytes keccakF state := by
  intro h
  rw [twin, onBytes_toBytes, onBytes] at h
  have hlanes := keccakF_injective (lanesEquivBytes.injective h)
  have h2 := lane_xorLanes (ofBytes state) unread 2 0
  rw [hlanes] at h2
  have hzero : lane unread 2 0 = 0 :=
    (BitVec.xor_right_inj (lane (ofBytes state) 2 0)).mp (h2.symm.trans BitVec.xor_zero.symm)
  exact absurd hzero (by decide)

/-- **The code is Keccak-f[1600] nowhere.**  On each state it reads behind `D`.  If these
reads give values, then of a state and its twin one at least has a wrong result. -/
theorem keccakf_not_keccakF (state : Bytes) :
    keccakf (fun _ => none) state = none ∧
      ∀ stray : Fin 24 → BitVec 64,
        keccakf (fun n => some (stray n)) state = some (onBytes keccakF state) →
          keccakf (fun n => some (stray n)) (twin state) ≠ some (onBytes keccakF (twin state)) := by
  refine ⟨keccakf_stray_none state, fun stray hstate htwin => ?_⟩
  rw [keccakf_twin, hstate] at htwin
  exact onBytes_keccakF_twin_ne state (Option.some.inj htwin).symm

/-- On the zero state, the last line of the third block reads `D[5]` in the first round. -/
theorem keccakf_reads_behind_D_zero :
    ((lines.get 2).get 4).2.1 = 5 ∧
      line (ofBytes (Vector.replicate 200 0))
          (dWords (parityWords (ofBytes (Vector.replicate 200 0)))) none
          ((lines.get 2).get 4) = none ∧
      keccakf (fun _ => none) (Vector.replicate 200 0) = none :=
  ⟨rfl, rfl, keccakf_stray_none _⟩

end Kernel
end FpgaEthash
