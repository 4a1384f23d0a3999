import FpgaEthash.Keccak.Lanes
import Mathlib.Algebra.Group.Fin.Basic
import Mathlib.Algebra.GroupWithZero.Nat
import Mathlib.Data.Fintype.Basic
import Mathlib.Logic.Function.Iterate
import Mathlib.Tactic.FinCases

/-!
# The permutation Keccak-f[1600]

Twenty-four rounds of `iota ∘ chi ∘ pi ∘ rho ∘ theta` on the five by five lanes.  No
table is written down: the rotation offsets are read off the walk that visits the
twenty-four lanes outside the origin, and the round constants come out of the linear
feedback shift register.

`keccakF_injective` says that no two states are mapped to one.  For `rho`, `pi` and
`iota` there is nothing to show, and `chi` is a check of the thirty-two rows.  For
`theta`, which is linear, take a state that it sends to zero.  Its column parities
satisfy `c x = c (x - 1) ^^^ (c (x + 1)).rotateLeft 1`.  An equation of this shape holds
with step and rotation doubled as soon as it holds (`parity_double`), so after six
doublings the rotation has become trivial and only `c = 0` is left.
-/

namespace FpgaEthash
namespace Keccak

/-! ## Rotations -/

theorem rotateLeft_xor {w : ℕ} (x y : BitVec w) (r : ℕ) :
    (x ^^^ y).rotateLeft r = x.rotateLeft r ^^^ y.rotateLeft r := by
  ext i hi
  rw [BitVec.getElem_xor, BitVec.getElem_rotateLeft, BitVec.getElem_rotateLeft,
    BitVec.getElem_rotateLeft]
  split_ifs
  · exact BitVec.getElem_xor _
  · exact BitVec.getElem_xor _

/-- Where the bit at `i` comes from. -/
theorem getLsbD_rotateLeft_mod {w : ℕ} (x : BitVec w) (r : ℕ) {i : ℕ} (hi : i < w) :
    (x.rotateLeft r).getLsbD i = x.getLsbD ((i + (w - r % w)) % w) := by
  have hr : r % w < w := Nat.mod_lt _ (by omega)
  rw [BitVec.getLsbD_rotateLeft]
  by_cases hlt : i < r % w
  · rw [decide_eq_true hlt, cond_true, Nat.mod_eq_of_lt (show i + (w - r % w) < w by omega),
      Nat.add_comm]
  · rw [decide_eq_false hlt, cond_false, decide_eq_true hi, Bool.true_and,
      show i + (w - r % w) = i - r % w + w by omega, Nat.add_mod_right,
      Nat.mod_eq_of_lt (show i - r % w < w by omega)]

theorem rotateLeft_rotateLeft {w : ℕ} (x : BitVec w) (r s : ℕ) :
    (x.rotateLeft r).rotateLeft s = x.rotateLeft (r + s) := by
  refine BitVec.eq_of_getLsbD_eq fun i hi => ?_
  have hw : 0 < w := by omega
  rw [getLsbD_rotateLeft_mod _ _ hi, getLsbD_rotateLeft_mod _ _ (Nat.mod_lt _ hw),
    getLsbD_rotateLeft_mod _ _ hi, Nat.mod_add_mod, Nat.add_mod r s w]
  congr 1
  have hr : r % w < w := Nat.mod_lt _ hw
  have hs : s % w < w := Nat.mod_lt _ hw
  by_cases hlt : r % w + s % w < w
  · rw [Nat.mod_eq_of_lt hlt,
      show i + (w - s % w) + (w - r % w) = i + (w - (r % w + s % w)) + w by omega,
      Nat.add_mod_right]
  · rw [Nat.mod_eq_sub_mod (show r % w + s % w ≥ w by omega),
      Nat.mod_eq_of_lt (show r % w + s % w - w < w by omega),
      show i + (w - s % w) + (w - r % w) = i + (w - (r % w + s % w - w)) by omega]

theorem rotateLeft_width {w : ℕ} (x : BitVec w) : x.rotateLeft w = x := by
  refine BitVec.eq_of_getLsbD_eq fun i hi => ?_
  rw [getLsbD_rotateLeft_mod _ _ hi, Nat.mod_self, Nat.sub_zero, Nat.add_mod_right,
    Nat.mod_eq_of_lt hi]

theorem rotateLeft_injective {w : ℕ} (r : ℕ) :
    Function.Injective fun x : BitVec w => x.rotateLeft r := by
  intro x y (hxy : x.rotateLeft r = y.rotateLeft r)
  rcases Nat.eq_zero_or_pos w with rfl | hw
  · exact BitVec.eq_of_zero_length rfl
  -- Rotating on to a full turn brings both words back.
  have hback : ∀ z : BitVec w, (z.rotateLeft r).rotateLeft (w - r % w) = z := by
    intro z
    have hr : r % w < w := Nat.mod_lt _ hw
    rw [← BitVec.rotateLeft_mod_eq_rotateLeft (r := r), rotateLeft_rotateLeft,
      show r % w + (w - r % w) = w by omega, rotateLeft_width]
  rw [← hback x, ← hback y, hxy]

/-! ## Lanes by their coordinates -/

instance neZero_five : NeZero 5 := ⟨by decide⟩

instance neZero_twentyFive : NeZero 25 := ⟨by decide⟩

/-- Where the lane in column `x` of plane `y` is. -/
def laneIndex (x y : Fin 5) : Fin 25 := ⟨x + 5 * y, by omega⟩

/-- The lane in column `x` of plane `y`. -/
def lane (s : Lanes) (x y : Fin 5) : BitVec 64 := s.get (laneIndex x y)

/-- The state with the given lanes. -/
def ofLanes (g : Fin 5 → Fin 5 → BitVec 64) : Lanes := #v[
  g 0 0, g 1 0, g 2 0, g 3 0, g 4 0,
  g 0 1, g 1 1, g 2 1, g 3 1, g 4 1,
  g 0 2, g 1 2, g 2 2, g 3 2, g 4 2,
  g 0 3, g 1 3, g 2 3, g 3 3, g 4 3,
  g 0 4, g 1 4, g 2 4, g 3 4, g 4 4]

@[simp] theorem lane_ofLanes (g : Fin 5 → Fin 5 → BitVec 64) (x y : Fin 5) :
    lane (ofLanes g) x y = g x y := by
  fin_cases x <;> fin_cases y <;> rfl

theorem getElem_eq_lane (s : Lanes) {i : ℕ} (hi : i < 25) :
    s[i] = lane s ⟨i % 5, by omega⟩ ⟨i / 5, by omega⟩ := by
  have h : i = i % 5 + 5 * (i / 5) := by omega
  conv_lhs => arg 2; rw [h]
  rfl

theorem lane_eq_getElem (s : Lanes) (x y : Fin 5) : lane s x y = s[x.val + 5 * y.val] := rfl

theorem ext_lane {s t : Lanes} (h : ∀ x y, lane s x y = lane t x y) : s = t := by
  ext1 i hi
  rw [getElem_eq_lane s hi, getElem_eq_lane t hi, h]

/-- Two states xored lane by lane. -/
def xorLanes (s t : Lanes) : Lanes := ofLanes fun x y => lane s x y ^^^ lane t x y

@[simp] theorem lane_xorLanes (s t : Lanes) (x y : Fin 5) :
    lane (xorLanes s t) x y = lane s x y ^^^ lane t x y := by
  rw [xorLanes, lane_ofLanes]

theorem get_xorLanes (s t : Lanes) (i : Fin 25) :
    (xorLanes s t).get i = s.get i ^^^ t.get i := by
  show (xorLanes s t)[i.val] = s[i.val] ^^^ t[i.val]
  rw [getElem_eq_lane, getElem_eq_lane s, getElem_eq_lane t, lane_xorLanes]

theorem eq_of_xorLanes_eq_zero {s t : Lanes} (h : ∀ x y, lane (xorLanes s t) x y = 0) :
    s = t := by
  refine ext_lane fun x y => BitVec.xor_eq_zero_iff.mp ?_
  rw [← lane_xorLanes]
  exact h x y

/-! ## The five steps -/

/-- Five words, one for each column. -/
abbrev Row := Vector (BitVec 64) 5

/-- The parities of the columns. -/
def columnParity (s : Lanes) : Row :=
  Vector.ofFn fun x => lane s x 0 ^^^ lane s x 1 ^^^ lane s x 2 ^^^ lane s x 3 ^^^ lane s x 4

/-- What `theta` adds to a column: the parities of its two neighbours. -/
def thetaEffect (c : Row) : Row :=
  Vector.ofFn fun x => c.get (x - 1) ^^^ (c.get (x + 1)).rotateLeft 1

def theta (s : Lanes) : Lanes :=
  ofLanes fun x y => lane s x y ^^^ (thetaEffect (columnParity s)).get x

/-- The walk over the lanes along which the rotations grow. -/
def rhoWalk (p : Fin 5 × Fin 5) : Fin 5 × Fin 5 := (p.2, 2 * p.1 + 3 * p.2)

def rhoOffsets : List ((Fin 5 × Fin 5) × ℕ) :=
  (List.range 24).map fun t => (rhoWalk^[t] (1, 0), (t + 1) * (t + 2) / 2)

/-- The rotation of a lane.  The walk never comes to the origin, which stays in place. -/
def rhoOffset (x y : Fin 5) : ℕ := (rhoOffsets.lookup (x, y)).getD 0

def rho (s : Lanes) : Lanes := ofLanes fun x y => (lane s x y).rotateLeft (rhoOffset x y)

def pi (s : Lanes) : Lanes := ofLanes fun x y => lane s (x + 3 * y) x

def chi (s : Lanes) : Lanes :=
  ofLanes fun x y => lane s x y ^^^ (~~~ lane s (x + 1) y &&& lane s (x + 2) y)

/-- One step of the shift register with the feedback polynomial
`x^8 + x^6 + x^5 + x^4 + 1`. -/
def lfsrStep (R : BitVec 8) : BitVec 8 :=
  let shifted : BitVec 9 := R.setWidth 9 <<< 1
  (if shifted.getLsbD 8 then shifted ^^^ 0b001110001 else shifted).setWidth 8

/-- The bit that the register puts out at time `t`. -/
def rc (t : ℕ) : Bool := (lfsrStep^[t % 255] 1).getLsbD 0

/-- Seven bits of the register's output, at the positions `2 ^ j - 1`. -/
def roundConstant (ir : ℕ) : BitVec 64 :=
  (List.range 7).foldl
    (fun w j => if rc (j + 7 * ir) then w ||| (1 : BitVec 64) <<< (2 ^ j - 1) else w) 0

def iota (s : Lanes) (ir : Fin 24) : Lanes := xorLane s 0 (roundConstant ir)

/-- One round. -/
def rnd (s : Lanes) (ir : Fin 24) : Lanes := iota (chi (pi (rho (theta s)))) ir

/-- **Keccak-f[1600].** -/
def keccakF (s : Lanes) : Lanes := (List.finRange 24).foldl rnd s

/-! ## Their lanes -/

theorem get_columnParity (s : Lanes) (x : Fin 5) :
    (columnParity s).get x =
      lane s x 0 ^^^ lane s x 1 ^^^ lane s x 2 ^^^ lane s x 3 ^^^ lane s x 4 :=
  Vector.getElem_ofFn _

theorem get_thetaEffect (c : Row) (x : Fin 5) :
    (thetaEffect c).get x = c.get (x - 1) ^^^ (c.get (x + 1)).rotateLeft 1 :=
  Vector.getElem_ofFn _

theorem lane_theta (s : Lanes) (x y : Fin 5) :
    lane (theta s) x y = lane s x y ^^^ (thetaEffect (columnParity s)).get x := by
  rw [theta, lane_ofLanes]

theorem lane_rho (s : Lanes) (x y : Fin 5) :
    lane (rho s) x y = (lane s x y).rotateLeft (rhoOffset x y) := by
  rw [rho, lane_ofLanes]

theorem lane_pi (s : Lanes) (x y : Fin 5) : lane (pi s) x y = lane s (x + 3 * y) x := by
  rw [pi, lane_ofLanes]

theorem lane_chi (s : Lanes) (x y : Fin 5) :
    lane (chi s) x y = lane s x y ^^^ (~~~ lane s (x + 1) y &&& lane s (x + 2) y) := by
  rw [chi, lane_ofLanes]

/-! ## No two states are mapped to one -/

theorem rho_injective : Function.Injective rho := by
  intro s t hst
  refine ext_lane fun x y => ?_
  have h := lane_rho s x y
  rw [hst, lane_rho] at h
  exact (rotateLeft_injective (rhoOffset x y) h).symm

theorem pi_injective : Function.Injective pi := by
  intro s t hst
  refine ext_lane fun x y => ?_
  -- Three times two is one among the five coordinates.
  have hx : y + 3 * (2 * (x - y)) = x := by decide +revert
  have h := lane_pi s y (2 * (x - y))
  rw [hst, lane_pi, hx] at h
  exact h.symm

/-- On one row of bits, the five output bits fix the first input bit. -/
theorem chi_row_injective : ∀ a b c d e a' b' c' d' e' : Bool,
    (a ^^ (!b && c)) = (a' ^^ (!b' && c')) → (b ^^ (!c && d)) = (b' ^^ (!c' && d')) →
    (c ^^ (!d && e)) = (c' ^^ (!d' && e')) → (d ^^ (!e && a)) = (d' ^^ (!e' && a')) →
    (e ^^ (!a && b)) = (e' ^^ (!a' && b')) → a = a' := by
  decide

theorem chi_injective : Function.Injective chi := by
  intro s t hst
  refine ext_lane fun x y => ?_
  ext z hz
  have hbit : ∀ x : Fin 5,
      ((lane s x y)[z] ^^ (!(lane s (x + 1) y)[z] && (lane s (x + 2) y)[z])) =
        ((lane t x y)[z] ^^ (!(lane t (x + 1) y)[z] && (lane t (x + 2) y)[z])) := by
    intro x
    have h : lane (chi s) x y = lane (chi t) x y := by rw [hst]
    rw [lane_chi, lane_chi] at h
    simpa only [BitVec.getElem_xor, BitVec.getElem_and, BitVec.getElem_not] using
      congrArg (fun w : BitVec 64 => w[z]) h
  have h1 := hbit (x + 1)
  have h2 := hbit (x + 2)
  have h3 := hbit (x + 3)
  have h4 := hbit (x + 4)
  simp only [add_assoc, Fin.reduceAdd, add_zero] at h1 h2 h3 h4
  exact chi_row_injective _ _ _ _ _ _ _ _ _ _ (hbit x) h1 h2 h3 h4

theorem iota_injective (ir : Fin 24) : Function.Injective fun s => iota s ir := by
  intro s t (hst : iota s ir = iota t ir)
  have hback : ∀ s, xorLane (iota s ir) 0 (roundConstant ir) = s := by
    intro s
    rw [iota, xorLane_xorLane, BitVec.xor_self]
    exact xorLane_zero s 0
  rw [← hback s, ← hback t, hst]

/-! ## The parities that `theta` leaves alone -/

theorem columnParity_xorLanes (s t : Lanes) (x : Fin 5) :
    (columnParity (xorLanes s t)).get x = (columnParity s).get x ^^^ (columnParity t).get x := by
  simp only [get_columnParity, lane_xorLanes]
  ac_rfl

theorem thetaEffect_xorLanes (s t : Lanes) (x : Fin 5) :
    (thetaEffect (columnParity (xorLanes s t))).get x =
      (thetaEffect (columnParity s)).get x ^^^ (thetaEffect (columnParity t)).get x := by
  simp only [get_thetaEffect, columnParity_xorLanes, rotateLeft_xor]
  ac_rfl

/-- `theta` is linear. -/
theorem theta_xorLanes (s t : Lanes) : theta (xorLanes s t) = xorLanes (theta s) (theta t) := by
  refine ext_lane fun x y => ?_
  simp only [lane_theta, lane_xorLanes, thetaEffect_xorLanes]
  ac_rfl

/-- **Doubling.**  A recurrence over the columns holds at twice the distance with twice the
rotation: the two terms in the middle cancel. -/
theorem parity_double {w : ℕ} {c : Fin 5 → BitVec w} {j : Fin 5} {r : ℕ}
    (h : ∀ x, c x = c (x - j) ^^^ (c (x + j)).rotateLeft r) (x : Fin 5) :
    c x = c (x - (j + j)) ^^^ (c (x + (j + j))).rotateLeft (r + r) := by
  have hleft := h (x - j)
  have hright := h (x + j)
  rw [sub_sub, sub_add_cancel] at hleft
  rw [add_sub_cancel_right, add_assoc] at hright
  calc c x = c (x - j) ^^^ (c (x + j)).rotateLeft r := h x
    _ = (c (x - (j + j)) ^^^ (c x).rotateLeft r) ^^^
          (c x ^^^ (c (x + (j + j))).rotateLeft r).rotateLeft r := by rw [← hleft, ← hright]
    _ = c (x - (j + j)) ^^^ (((c x).rotateLeft r ^^^ (c x).rotateLeft r) ^^^
          (c (x + (j + j))).rotateLeft (r + r)) := by
        rw [rotateLeft_xor, rotateLeft_rotateLeft, BitVec.xor_assoc, BitVec.xor_assoc]
    _ = c (x - (j + j)) ^^^ (c (x + (j + j))).rotateLeft (r + r) := by
        rw [BitVec.xor_self, BitVec.zero_xor]

/-- Only the zero parities are what their neighbours make of them. -/
theorem parity_eq_zero {c : Fin 5 → BitVec 64}
    (h : ∀ x, c x = c (x - 1) ^^^ (c (x + 1)).rotateLeft 1) (x : Fin 5) : c x = 0 := by
  have h8 := parity_double (parity_double (parity_double h))
  have h64 := parity_double (parity_double (parity_double h8))
  simp only [Fin.reduceAdd, Nat.reduceAdd, rotateLeft_width] at h64
  have hsum : ∀ x, c x = c (x + 1) ^^^ c (x + 4) := by
    intro x
    have h := h64 x
    rwa [sub_eq_add_neg, show (-4 : Fin 5) = 1 from rfl] at h
  -- The first of these equations in the second leaves every other column equal.
  have htwo : ∀ x, c (x + 2) = c (x + 4) := by
    intro x
    have h0 := hsum x
    have h1 := hsum (x + 1)
    simp only [add_assoc, Fin.reduceAdd, add_zero] at h1
    rw [h1, BitVec.xor_comm (c (x + 2)), BitVec.xor_assoc] at h0
    refine BitVec.xor_eq_zero_iff.mp ((BitVec.xor_right_inj (c x)).mp ?_)
    rw [← h0, BitVec.xor_zero]
  have hone := htwo (x + 2)
  simp only [add_assoc, Fin.reduceAdd] at hone
  rw [hsum x, hone, BitVec.xor_self]
  rfl

/-- A state that `theta` sends to zero is zero: all lanes of a column are its effect, there
are five of them, and so the parity of the column is the effect as well. -/
theorem lane_eq_zero_of_theta {s : Lanes} (h : ∀ x y, lane (theta s) x y = 0) (x y : Fin 5) :
    lane s x y = 0 := by
  have hlane : ∀ x y, lane s x y = (thetaEffect (columnParity s)).get x := by
    intro x y
    rw [← BitVec.xor_eq_zero_iff, ← lane_theta]
    exact h x y
  have hparity : ∀ x, (columnParity s).get x = (thetaEffect (columnParity s)).get x := by
    intro x
    rw [get_columnParity, hlane x 0, hlane x 1, hlane x 2, hlane x 3, hlane x 4,
      BitVec.xor_self, BitVec.zero_xor, BitVec.xor_self, BitVec.zero_xor]
  rw [hlane, ← hparity]
  refine parity_eq_zero (c := (columnParity s).get) (fun x => ?_) x
  rw [hparity, get_thetaEffect]

theorem theta_injective : Function.Injective theta := by
  intro s t hst
  refine eq_of_xorLanes_eq_zero (lane_eq_zero_of_theta fun x y => ?_)
  rw [theta_xorLanes, hst, lane_xorLanes, BitVec.xor_self]
  rfl

/-! ## The rounds -/

/-- What follows `theta` in a round loses nothing. -/
theorem iota_chi_pi_rho_injective (ir : Fin 24) :
    Function.Injective fun s => iota (chi (pi (rho s))) ir :=
  (iota_injective ir).comp (chi_injective.comp (pi_injective.comp rho_injective))

theorem rnd_injective (ir : Fin 24) : Function.Injective fun s => rnd s ir :=
  (iota_chi_pi_rho_injective ir).comp theta_injective

theorem foldl_rnd_injective (irs : List (Fin 24)) :
    Function.Injective fun s => irs.foldl rnd s := by
  induction irs with
  | nil => exact Function.injective_id
  | cons ir irs ih => exact ih.comp (rnd_injective ir)

/-- **No two states are mapped to one.** -/
theorem keccakF_injective : Function.Injective keccakF := foldl_rnd_injective (List.finRange 24)

end Keccak
end FpgaEthash
