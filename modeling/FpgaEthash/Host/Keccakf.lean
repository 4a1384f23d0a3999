import FpgaEthash.Computation.Walk
import FpgaEthash.Keccak.Permutation

/-!
# The permutation of the host

`keccakf` of `fpga_ethash.cpp`.  Its loops over the tables for rho and pi, its chi and its
round constants are those of Keccak-f[1600].  Two things are not.

* The inner loop of theta adds the effect of column `i` to the lanes `i, …, i + 4`, and not
  to the five lanes `i, i + 5, …` of the column.
* The walk of rho and pi begins with `t = s[i]`, where `i` is what the loops of theta have
  left, and this is 5.  Lane 1 is dropped and lane 5 is used twice.

A round is therefore a round of Keccak-f[1600] in which `linearLayer` stands for theta
(`keccakfRound_eq`).  Since the rest of the round loses nothing, the two rounds agree on a
state exactly if the state is `Neutral`: theta leaves it alone, and lanes 1 and 5 are equal.
-/

namespace FpgaEthash
namespace Host

open Keccak

/-! ## The function -/

/-- `ROTL64`. -/
def rotl64 (x : BitVec 64) (y : ℕ) : BitVec 64 := x <<< y ||| x >>> (64 - y)

/-- `keccakf_rndc`. -/
def keccakfRndc : Vector (BitVec 64) 24 := #v[
  0x0000000000000001, 0x0000000000008082, 0x800000000000808a, 0x8000000080008000,
  0x000000000000808b, 0x0000000080000001, 0x8000000080008081, 0x8000000000008009,
  0x000000000000008a, 0x0000000000000088, 0x0000000080008009, 0x000000008000000a,
  0x000000008000808b, 0x800000000000008b, 0x8000000000008089, 0x8000000000008003,
  0x8000000000008002, 0x8000000000000080, 0x000000000000800a, 0x800000008000000a,
  0x8000000080008081, 0x8000000000008080, 0x0000000080000001, 0x8000000080008008]

/-- `keccakf_rotc`. -/
def keccakfRotc : Vector ℕ 24 := #v[
  1, 3, 6, 10, 15, 21, 28, 36, 45, 55, 2, 14, 27, 41, 56, 8, 25, 43, 62, 18, 39, 61, 20, 44]

/-- `keccakf_piln`. -/
def keccakfPiln : Vector (Fin 25) 24 := #v[
  10, 7, 11, 17, 18, 3, 5, 16, 8, 21, 24, 4, 15, 23, 19, 13, 12, 2, 20, 14, 22, 9, 6, 1]

/-- The first loop of theta: `bc[i] = s[i] ^ s[i+5] ^ s[i+10] ^ s[i+15] ^ s[i+20]`. -/
def columns (s : Lanes) : Row :=
  Vector.ofFn fun i : Fin 5 =>
    s[i.val] ^^^ s[i.val + 5] ^^^ s[i.val + 10] ^^^ s[i.val + 15] ^^^ s[i.val + 20]

/-- The word `t` of column `i`. -/
def thetaWord (bc : Row) (i : Fin 5) : BitVec 64 := bc.get (i + 4) ^^^ rotl64 (bc.get (i + 1)) 1

/-- Theta, with `s[j+i] ^= t` in its inner loop. -/
def thetaLoop (s : Lanes) : Lanes :=
  (List.finRange 5).foldl (fun s' (i : Fin 5) =>
    (List.finRange 5).foldl
      (fun s' (j : Fin 5) => xorLane s' (j + i) (thetaWord (columns s) i)) s') s

/-- The loop of rho and pi, which comes with `t`. -/
def rhoPiLoop (s : Lanes) (t : BitVec 64) : Lanes :=
  ((List.finRange 24).foldl (fun (s, t) i =>
    (s.set (keccakfPiln.get i) (rotl64 t (keccakfRotc.get i)), s.get (keccakfPiln.get i)))
    (s, t)).1

/-- Chi on the row with the lanes `5 * j, …, 5 * j + 4`, of which `bc` is a copy. -/
def chiRow (s : Lanes) (j : Fin 5) : Lanes :=
  let bc : Row := Vector.ofFn fun i => s.get (laneIndex i j)
  (List.finRange 5).foldl
    (fun s' (i : Fin 5) => xorLane s' (i + 5 * j) (~~~ bc.get (i + 1) &&& bc.get (i + 2))) s

/-- One turn of the outer loop. -/
def keccakfRound (s : Lanes) (round : Fin 24) : Lanes :=
  let s := thetaLoop s
  -- i == 5 after the loops of theta
  let s := rhoPiLoop s s[5]
  let s := (List.finRange 5).foldl chiRow s
  xorLane s 0 (keccakfRndc.get round)

/-- `keccakf`. -/
def keccakf (s : Lanes) : Lanes := (List.finRange 24).foldl keccakfRound s

/-! ## The steps that are right -/

theorem rotl64_eq (x : BitVec 64) {y : ℕ} (hy : y < 64) : rotl64 x y = x.rotateLeft y := by
  rw [rotl64, BitVec.rotateLeft_def, Nat.mod_eq_of_lt hy]

theorem keccakfRndc_get : ∀ round : Fin 24, keccakfRndc.get round = roundConstant round := by
  decide +kernel

/-- The walk of the two tables. -/
def piWalk : List (Fin 25 × ℕ) :=
  (List.finRange 24).map fun i => (keccakfPiln.get i, keccakfRotc.get i)

theorem rhoPiLoop_eq_walk (s : Lanes) (t : BitVec 64) :
    rhoPiLoop s t = (piWalk.foldl (Walk.move fun r x => rotl64 x r) (s, t)).1 := by
  rw [piWalk, List.foldl_map]
  rfl

/-- The walk goes backwards through the lanes that pi reads, and its rotations are those of
rho.  It begins behind lane 1. -/
theorem origin_piWalk : ∀ x y : Fin 5, Walk.origin piWalk none (laneIndex x y) =
    if x = 0 ∧ y = 0 then none
    else some (if x + 3 * y = 1 ∧ x = 0 then none
      else some (laneIndex (x + 3 * y) x), rhoOffset (x + 3 * y) x % 64) := by
  decide +kernel

theorem lane_set_one (s : Lanes) (t : BitVec 64) (x y : Fin 5) :
    lane (s.set 1 t) x y = if x = 1 ∧ y = 0 then t else lane s x y := by
  rw [lane_eq_getElem, Vector.getElem_set]
  by_cases h : x = 1 ∧ y = 0
  · rw [if_pos h, if_pos (by rw [h.1, h.2]; rfl)]
  · rw [if_neg h, if_neg (by omega)]
    rfl

/-- **The loop of rho and pi.**  It is rho and pi with `t` in the place of lane 1. -/
theorem rhoPiLoop_eq (s : Lanes) (t : BitVec 64) : rhoPiLoop s t = pi (rho (s.set 1 t)) := by
  refine ext_lane fun x y => ?_
  rw [rhoPiLoop_eq_walk, lane, Walk.get_foldl_move (by decide) s t (laneIndex x y),
    origin_piWalk, lane_pi, lane_rho, lane_set_one]
  by_cases h0 : x = 0 ∧ y = 0
  · obtain ⟨rfl, rfl⟩ := h0
    rw [if_pos ⟨rfl, rfl⟩, Option.elim_none, if_neg (by decide),
      show rhoOffset (0 + 3 * 0) 0 = 64 % 64 by decide, BitVec.rotateLeft_mod_eq_rotateLeft,
      rotateLeft_width]
    rfl
  · rw [if_neg h0]
    have hlt : rhoOffset (x + 3 * y) x % 64 < 64 := Nat.mod_lt _ (by decide)
    by_cases h1 : x + 3 * y = 1 ∧ x = 0
    · rw [if_pos h1, if_pos h1, Option.elim_some, Option.elim_none, rotl64_eq _ hlt,
        BitVec.rotateLeft_mod_eq_rotateLeft]
    · rw [if_neg h1, if_neg h1, Option.elim_some, Option.elim_some, rotl64_eq _ hlt,
        BitVec.rotateLeft_mod_eq_rotateLeft]
      rfl

theorem lane_foldl_xorLane {ι : Type*} (f : ι → ℕ) (v : ι → BitVec 64) (L : List ι)
    (s : Lanes) (x y : Fin 5) :
    lane (L.foldl (fun s i => xorLane s (f i) (v i)) s) x y =
      lane s x y ^^^ xorSum (L.filter fun i => f i = x + 5 * y) v :=
  getElem_foldl_xorLane f v L s (by omega)

/-- Which of the five lanes of row `j` is the lane at `x` and `y`. -/
theorem filter_row : ∀ j x y : Fin 5,
    ((List.finRange 5).filter fun i : Fin 5 => i + 5 * j.val = x + 5 * y.val) =
      if y = j then [x] else [] := by
  decide

theorem lane_chiRow (s : Lanes) (j x y : Fin 5) :
    lane (chiRow s j) x y = if y = j then lane (chi s) x y else lane s x y := by
  have hbc : ∀ i : Fin 5,
      (Vector.ofFn fun i : Fin 5 => s.get (laneIndex i j)).get i = lane s i j :=
    fun i => Vector.getElem_ofFn _
  rw [chiRow, lane_foldl_xorLane, filter_row]
  by_cases hy : y = j
  · rw [if_pos hy, if_pos hy, lane_chi, xorSum_cons, xorSum_nil, hbc, hbc, hy]
    exact congrArg _ BitVec.xor_zero
  · rw [if_neg hy, if_neg hy, xorSum_nil]
    exact BitVec.xor_zero

/-- A row is not touched before its turn, so that its turn sees the row of the beginning. -/
theorem lane_foldl_chiRow {js : List (Fin 5)} (hjs : js.Nodup) (s : Lanes) (x y : Fin 5) :
    lane (js.foldl chiRow s) x y = if y ∈ js then lane (chi s) x y else lane s x y := by
  induction js generalizing s with
  | nil => rw [List.foldl_nil, if_neg List.not_mem_nil]
  | cons j js ih =>
    obtain ⟨hj, hnodup⟩ := List.nodup_cons.mp hjs
    rw [List.foldl_cons, ih hnodup]
    by_cases hy : y = j
    · rw [if_neg (hy ▸ hj), lane_chiRow, if_pos hy, if_pos (hy ▸ List.mem_cons_self)]
    · have hchi : lane (chi (chiRow s j)) x y = lane (chi s) x y := by
        simp only [lane_chi, lane_chiRow, if_neg hy]
      rw [hchi, lane_chiRow, if_neg hy]
      by_cases hmem : y ∈ js
      · rw [if_pos hmem, if_pos (List.mem_cons_of_mem j hmem)]
      · rw [if_neg hmem, if_neg (List.not_mem_cons_of_ne_of_not_mem hy hmem)]

theorem foldl_chiRow_eq (s : Lanes) : (List.finRange 5).foldl chiRow s = chi s := by
  refine ext_lane fun x y => ?_
  rw [lane_foldl_chiRow (List.nodup_finRange 5), if_pos (List.mem_finRange y)]

/-! ## The step that is not -/

/-- Theta of the code, with lane 5 copied to lane 1. -/
def linearLayer (s : Lanes) : Lanes := (thetaLoop s).set 1 (thetaLoop s)[5]

/-- **A round**, but for theta. -/
theorem keccakfRound_eq (s : Lanes) (round : Fin 24) :
    keccakfRound s round = iota (chi (pi (rho (linearLayer s)))) round := by
  rw [keccakfRound, foldl_chiRow_eq, rhoPiLoop_eq, keccakfRndc_get]
  rfl

/-- The columns whose effect the code adds to lane `k`, with their turn of the inner loop. -/
def touching (k : ℕ) : List (Fin 5 × Fin 5) :=
  ((List.finRange 5).flatMap fun i => (List.finRange 5).map (Prod.mk i)).filter
    fun p => p.2.val + p.1.val = k

/-- The lanes from 9 on are not touched. -/
theorem touching_eq_nil : ∀ x y : Fin 5, 2 ≤ y → touching (x + 5 * y) = [] := by decide

/-- What the code adds to lane `k`, if `e` are the effects of the columns. -/
def smear (e : Fin 5 → BitVec 64) (k : ℕ) : BitVec 64 := xorSum (touching k) fun p => e p.1

theorem columns_eq (s : Lanes) : columns s = columnParity s := rfl

theorem thetaWord_columns (s : Lanes) (i : Fin 5) :
    thetaWord (columns s) i = (thetaEffect (columnParity s)).get i := by
  rw [thetaWord, columns_eq, rotl64_eq _ (by decide), get_thetaEffect, sub_eq_add_neg]
  rfl

theorem lane_thetaLoop (s : Lanes) (x y : Fin 5) :
    lane (thetaLoop s) x y =
      lane s x y ^^^ smear (thetaEffect (columnParity s)).get (x + 5 * y) := by
  have hpairs : thetaLoop s =
      ((List.finRange 5).flatMap fun i => (List.finRange 5).map (Prod.mk i)).foldl
        (fun s' (p : Fin 5 × Fin 5) => xorLane s' (p.2 + p.1) (thetaWord (columns s) p.1)) s := by
    simp only [thetaLoop, List.foldl_flatMap, List.foldl_map]
  rw [hpairs, lane_foldl_xorLane]
  simp only [thetaWord_columns]
  rfl

theorem smear_xor (e f : Fin 5 → BitVec 64) (k : ℕ) :
    smear (fun x => e x ^^^ f x) k = smear e k ^^^ smear f k := xorSum_xor _ _ _

theorem smear_eq_zero {e : Fin 5 → BitVec 64} (he : ∀ x, e x = 0) (k : ℕ) : smear e k = 0 :=
  xorSum_eq_zero fun p _ => he p.1

theorem lane_linearLayer (s : Lanes) (x y : Fin 5) :
    lane (linearLayer s) x y =
      if x = 1 ∧ y = 0 then lane (thetaLoop s) 0 1 else lane (thetaLoop s) x y :=
  lane_set_one _ _ x y

/-! ## Where the rounds agree -/

/-- Theta leaves the state alone, and lanes 1 and 5 are equal. -/
def Neutral (s : Lanes) : Prop := theta s = s ∧ lane s 1 0 = lane s 0 1

instance (s : Lanes) : Decidable (Neutral s) := inferInstanceAs (Decidable (_ ∧ _))

theorem theta_eq_self_iff (s : Lanes) :
    theta s = s ↔ ∀ x, (thetaEffect (columnParity s)).get x = 0 := by
  constructor
  · intro h x
    have hx := lane_theta s x 0
    rw [h] at hx
    exact (BitVec.xor_right_inj (lane s x 0)).mp (hx.symm.trans BitVec.xor_zero.symm)
  · intro h
    refine ext_lane fun x y => ?_
    rw [lane_theta, h]
    exact BitVec.xor_zero

theorem lane_thetaLoop_of_theta {s : Lanes} (h : theta s = s) (x y : Fin 5) :
    lane (thetaLoop s) x y = lane s x y := by
  rw [lane_thetaLoop, smear_eq_zero ((theta_eq_self_iff s).mp h)]
  exact BitVec.xor_zero

/-- The lanes from 10 to 14 are not touched by the code.  They show the effects, and once
these are zero nothing but the copy of lane 5 is left. -/
theorem linearLayer_eq_theta_iff (s : Lanes) : linearLayer s = theta s ↔ Neutral s := by
  constructor
  · intro h
    have htheta : theta s = s := by
      refine (theta_eq_self_iff s).mpr fun x => ?_
      have hx := lane_linearLayer s x 2
      rw [h, if_neg fun hxy => absurd hxy.2 (by decide), lane_thetaLoop, lane_theta, smear,
        touching_eq_nil x 2 (by decide), xorSum_nil] at hx
      exact (BitVec.xor_right_inj (lane s x 2)).mp hx
    refine ⟨htheta, ?_⟩
    have hone := lane_linearLayer s 1 0
    rwa [h, htheta, if_pos ⟨rfl, rfl⟩, lane_thetaLoop_of_theta htheta] at hone
  · rintro ⟨htheta, hone⟩
    refine ext_lane fun x y => ?_
    rw [lane_linearLayer, htheta, lane_thetaLoop_of_theta htheta, lane_thetaLoop_of_theta htheta]
    by_cases h : x = 1 ∧ y = 0
    · rw [if_pos h, h.1, h.2, hone]
    · rw [if_neg h]

/-- **One round.** -/
theorem keccakfRound_eq_rnd_iff (s : Lanes) (round : Fin 24) :
    keccakfRound s round = rnd s round ↔ Neutral s := by
  rw [keccakfRound_eq, rnd]
  exact (iota_chi_pi_rho_injective round).eq_iff.trans (linearLayer_eq_theta_iff s)

/-- The state after the first `k` rounds, where `f` is one round. -/
def afterRounds (f : Lanes → Fin 24 → Lanes) (k : ℕ) (s : Lanes) : Lanes :=
  ((List.finRange 24).take k).foldl f s

theorem afterRounds_zero (f : Lanes → Fin 24 → Lanes) (s : Lanes) : afterRounds f 0 s = s := rfl

theorem afterRounds_succ (f : Lanes → Fin 24 → Lanes) {k : ℕ} (hk : k < 24) (s : Lanes) :
    afterRounds f (k + 1) s = f (afterRounds f k s) ⟨k, hk⟩ := by
  rw [afterRounds, List.take_succ_eq_append_getElem (by rw [List.length_finRange]; exact hk),
    List.foldl_append, List.getElem_finRange]
  rfl

/-- **Many rounds.**  They agree after each round exactly if each round of Keccak-f[1600]
begins in a neutral state. -/
theorem afterRounds_eq_iff (s : Lanes) {n : ℕ} (hn : n ≤ 24) :
    (∀ k ≤ n, afterRounds keccakfRound k s = afterRounds rnd k s) ↔
      ∀ k < n, Neutral (afterRounds rnd k s) := by
  induction n with
  | zero =>
    constructor
    · exact fun _ k hk => absurd hk (Nat.not_lt_zero k)
    · intro _ k hk
      rw [Nat.le_zero.mp hk, afterRounds_zero, afterRounds_zero]
  | succ n ih =>
    -- One more round agrees exactly if it begins in a neutral state.
    have hstep : afterRounds keccakfRound n s = afterRounds rnd n s →
        (afterRounds keccakfRound (n + 1) s = afterRounds rnd (n + 1) s ↔
          Neutral (afterRounds rnd n s)) := by
      intro heq
      rw [afterRounds_succ _ (by omega), afterRounds_succ _ (by omega), heq]
      exact keccakfRound_eq_rnd_iff _ _
    constructor
    · intro h k hk
      rcases Nat.lt_succ_iff_lt_or_eq.mp hk with hlt | rfl
      · exact (ih (by omega)).mp (fun k hk => h k (by omega)) k hlt
      · exact (hstep (h k (by omega))).mp (h (k + 1) (by omega))
    · intro h k hk
      have hprev := (ih (by omega)).mpr fun k hk => h k (by omega)
      rcases Nat.lt_or_eq_of_le hk with hlt | rfl
      · exact hprev k (by omega)
      · exact (hstep (hprev n (by omega))).mpr (h n (by omega))

/-! ## States that the code confuses -/

/-- A difference that the first round of the code does not see. -/
def blindSpot (u : BitVec 64) : Lanes :=
  let v := u.rotateLeft 1
  let w := v.rotateLeft 1
  #v[u, v ^^^ w, u ^^^ v, v ^^^ w, u ^^^ v,
    v, u ^^^ v ^^^ w, 0, u ^^^ w, 0,
    0, 0, 0, 0, 0,
    0, 0, 0, 0, 0,
    0, 0, 0, 0, 0]

/-- The effects of the columns of `blindSpot u`. -/
def blindEffect (u : BitVec 64) : Row :=
  let v := u.rotateLeft 1
  let w := v.rotateLeft 1
  #v[u, u ^^^ w, u ^^^ v ^^^ w, u ^^^ w, u ^^^ w]

theorem columnParity_blindSpot (u : BitVec 64) (x : Fin 5) :
    (columnParity (blindSpot u)).get x = if x = 1 then u else u ^^^ u.rotateLeft 1 := by
  rw [get_columnParity]
  fin_cases x <;> simp [lane, laneIndex, blindSpot, Vector.get, BitVec.xor_comm, xor_left_comm]

theorem thetaEffect_blindSpot (u : BitVec 64) (x : Fin 5) :
    (thetaEffect (columnParity (blindSpot u))).get x = (blindEffect u).get x := by
  rw [get_thetaEffect, columnParity_blindSpot, columnParity_blindSpot, sub_eq_add_neg,
    show (-1 : Fin 5) = 4 from rfl]
  fin_cases x <;> simp [blindEffect, Vector.get, rotateLeft_xor, BitVec.xor_comm,
    xor_left_comm, xor_cancel_left]

/-- The lanes of `blindSpot u` are what the code adds to them, except for the one it drops. -/
theorem lane_blindSpot (u : BitVec 64) (x y : Fin 5) (hxy : ¬ (x = 1 ∧ y = 0)) :
    lane (blindSpot u) x y = smear (blindEffect u).get (x + 5 * y) := by
  by_cases hy : 2 ≤ y
  · rw [smear, touching_eq_nil x y hy, xorSum_nil]
    fin_cases y <;> fin_cases x <;> first | rfl | exact absurd hy (by decide)
  · have hy' : y = 0 ∨ y = 1 := by omega
    rcases hy' with rfl | rfl
    · fin_cases x <;> first
      | exact absurd ⟨rfl, rfl⟩ hxy
      | simp [lane, laneIndex, blindSpot, blindEffect, smear, touching, List.finRange_succ, xorSum,
          Vector.get, BitVec.xor_comm, xor_left_comm, xor_cancel_left]
    · fin_cases x <;>
        simp [lane, laneIndex, blindSpot, blindEffect, smear, touching, List.finRange_succ, xorSum,
          Vector.get, BitVec.xor_comm, xor_left_comm, xor_cancel_left]

theorem lane_thetaLoop_xorLanes_blindSpot (s : Lanes) (u : BitVec 64) {x y : Fin 5}
    (hxy : ¬ (x = 1 ∧ y = 0)) :
    lane (thetaLoop (xorLanes s (blindSpot u))) x y = lane (thetaLoop s) x y := by
  have hsmear : smear (thetaEffect (columnParity (xorLanes s (blindSpot u)))).get (x + 5 * y) =
      lane (blindSpot u) x y ^^^ smear (thetaEffect (columnParity s)).get (x + 5 * y) := by
    rw [lane_blindSpot u x y hxy, BitVec.xor_comm, ← smear_xor]
    congr 1
    funext x
    rw [thetaEffect_xorLanes, thetaEffect_blindSpot]
  rw [lane_thetaLoop, lane_thetaLoop, lane_xorLanes, hsmear, BitVec.xor_assoc, xor_cancel_left]

/-- **The first round of the code does not see the difference.** -/
theorem linearLayer_xorLanes_blindSpot (s : Lanes) (u : BitVec 64) :
    linearLayer (xorLanes s (blindSpot u)) = linearLayer s := by
  refine ext_lane fun x y => ?_
  rw [lane_linearLayer, lane_linearLayer]
  by_cases hxy : x = 1 ∧ y = 0
  · rw [if_pos hxy, if_pos hxy, lane_thetaLoop_xorLanes_blindSpot s u (by decide)]
  · rw [if_neg hxy, if_neg hxy, lane_thetaLoop_xorLanes_blindSpot s u hxy]

theorem keccakf_xorLanes_blindSpot (s : Lanes) (u : BitVec 64) :
    keccakf (xorLanes s (blindSpot u)) = keccakf s := by
  rw [keccakf, keccakf, List.finRange_succ, List.foldl_cons, List.foldl_cons, keccakfRound_eq,
    keccakfRound_eq, linearLayer_xorLanes_blindSpot]

theorem eq_zero_of_xorLanes_blindSpot {s : Lanes} {u : BitVec 64}
    (h : xorLanes s (blindSpot u) = s) : u = 0 := by
  have h0 : lane s 0 0 ^^^ u = lane s 0 0 := by
    have hlane := lane_xorLanes s (blindSpot u) 0 0
    rw [h] at hlane
    exact hlane.symm
  exact (BitVec.xor_right_inj (lane s 0 0)).mp (h0.trans BitVec.xor_zero.symm)

/-- **How far the code is Keccak-f[1600].**  After each of the first `n` rounds it agrees
exactly if each of these rounds begins in a neutral state; if all twenty-four do, the result is
right.  And of the `2 ^ 64` states that differ by a `blindSpot`, at most one has the right
result. -/
theorem keccakf_eq_keccakF_iff (s : Lanes) :
    (∀ n ≤ 24, (∀ k ≤ n, afterRounds keccakfRound k s = afterRounds rnd k s) ↔
      ∀ k < n, Neutral (afterRounds rnd k s)) ∧
    ((∀ k < 24, Neutral (afterRounds rnd k s)) → keccakf s = keccakF s) ∧
    ∀ u ≠ 0, keccakf s = keccakF s →
      keccakf (xorLanes s (blindSpot u)) ≠ keccakF (xorLanes s (blindSpot u)) := by
  refine ⟨fun n hn => afterRounds_eq_iff s hn, fun h => ?_, fun u hu hs hsu => hu ?_⟩
  · have hend := (afterRounds_eq_iff s le_rfl).mpr h 24 le_rfl
    rwa [afterRounds, afterRounds, List.take_of_length_le (by rw [List.length_finRange])] at hend
  · rw [keccakf_xorLanes_blindSpot, hs] at hsu
    exact eq_zero_of_xorLanes_blindSpot (keccakF_injective hsu).symm

/-- The zero state is neutral, and the state after its first round is not. -/
theorem keccakf_eq_keccakF_iff_zero :
    afterRounds keccakfRound 1 (Vector.replicate 25 0) =
        afterRounds rnd 1 (Vector.replicate 25 0) ∧
      ¬ ∀ k ≤ 2, afterRounds keccakfRound k (Vector.replicate 25 0) =
        afterRounds rnd k (Vector.replicate 25 0) := by
  have hiff := (keccakf_eq_keccakF_iff (Vector.replicate 25 0)).1
  constructor
  · refine (hiff 1 (by decide)).mpr (fun k hk => ?_) 1 le_rfl
    obtain rfl := Nat.lt_one_iff.mp hk
    decide +kernel
  · intro h
    exact absurd ((hiff 2 (by decide)).mp h 1 (by decide)) (by decide +kernel)

/-- The linear layer lane by lane, as it is evaluated below. -/
theorem linearLayer_eq_ofLanes (s : Lanes) :
    linearLayer s = ofLanes fun x y =>
      if x = 1 ∧ y = 0 then lane s 0 1 ^^^ smear (thetaEffect (columnParity s)).get 5
      else lane s x y ^^^ smear (thetaEffect (columnParity s)).get (x + 5 * y) := by
  refine ext_lane fun x y => ?_
  rw [lane_linearLayer, lane_ofLanes, lane_thetaLoop, lane_thetaLoop]
  rfl

/-- The first lane of the zero state. -/
theorem getElem_keccakf_zero :
    (keccakf (Vector.replicate 25 0))[0] = 0xf95d9f7d336a3d0a ∧
      (keccakF (Vector.replicate 25 0))[0] = 0xf1258f7940e1dde7 := by
  have hround : keccakfRound = fun s round => iota (chi (pi (rho (ofLanes fun x y =>
      if x = 1 ∧ y = 0 then lane s 0 1 ^^^ smear (thetaEffect (columnParity s)).get 5
      else lane s x y ^^^ smear (thetaEffect (columnParity s)).get (x + 5 * y))))) round := by
    funext s round
    rw [keccakfRound_eq, linearLayer_eq_ofLanes]
  rw [keccakf, hround]
  decide +kernel

/-- The code goes wrong on the zero state. -/
theorem keccakf_ne_keccakF_zero :
    keccakf (Vector.replicate 25 0) ≠ keccakF (Vector.replicate 25 0) := by
  intro h
  obtain ⟨hcode, hspec⟩ := getElem_keccakf_zero
  rw [h, hspec] at hcode
  exact absurd hcode (by decide)

end Host
end FpgaEthash
