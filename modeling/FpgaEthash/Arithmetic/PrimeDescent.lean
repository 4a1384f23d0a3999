import Mathlib.Data.Nat.Prime.Basic
import Mathlib.Data.Nat.Prime.Factorial
import Mathlib.Algebra.Group.Nat.Even
import Mathlib.Tactic.Ring

/-!
# The first prime quotient, going down

A size is looked for among `s, s - 2u, s - 4u, …`: the first one whose quotient by the unit `u`
is a prime.  When `s` is an odd multiple of the unit the quotients are odd numbers, two apart,
and there is such a size (`exists_prime_sub`).

Trial division decides whether a quotient is a prime if it goes up to the square root.  One that
stops before it (`PassesBelowSqrt`) lets more odd numbers pass: the squares of primes and the
products of twin primes (`Deceptive`), and no others (`passesBelowSqrt_iff`).  A number `q` with
a divisor, but none below its root `r`, is `r * r`, `r * (r + 1)` or `r * (r + 2)`.

A table of such sizes is checked without any division loop.  A number above `k`, and below the
square of `k + 1`, is a prime exactly if it has no divisor in common with `k !`
(`prime_iff_coprime_factorial`), and that is one `gcd` (`isFirstBy`, `firstsBy`).
-/

namespace FpgaEthash
namespace PrimeDescent

/-- `x` is the first of `s, s - 2u, s - 4u, …` whose quotient by `u` is a prime. -/
def IsFirst (u s x : ℕ) : Prop :=
  ∃ k, 2 * u * k ≤ s ∧ x = s - 2 * u * k ∧ (x / u).Prime ∧
    ∀ j < k, ¬ ((s - 2 * u * j) / u).Prime

/-- No number from 2 up to the square root, the root excluded, divides `q`. -/
def PassesBelowSqrt (q : ℕ) : Prop := ∀ i, 2 ≤ i → i < q.sqrt → ¬ i ∣ q

/-- The square of a prime, or the product of twin primes. -/
def Deceptive (q : ℕ) : Prop :=
  ∃ p, p.Prime ∧ (q = p * p ∨ (p + 2).Prime ∧ q = p * (p + 2))

/-! ## The descent -/

theorem sub_mul_div {u : ℕ} (hu : 0 < u) (q j : ℕ) : (u * q - 2 * u * j) / u = q - 2 * j := by
  have hmul : u * q - 2 * u * j = u * (q - 2 * j) := by
    rw [Nat.mul_sub, Nat.mul_comm 2 u, Nat.mul_assoc]
  rw [hmul, Nat.mul_div_cancel_left _ hu]

/-- A descent that ends after `k` steps ends at the first prime quotient if that quotient is a
prime and none before it is. -/
theorem isFirst_iff {u : ℕ} (hu : 0 < u) {q k : ℕ} (hk : 2 * k < q) :
    IsFirst u (u * q) (u * q - 2 * u * k) ↔
      (q - 2 * k).Prime ∧ ∀ j < k, ¬ (q - 2 * j).Prime := by
  constructor
  · rintro ⟨k', hle, hx, hprime, hbefore⟩
    -- The two numbers of steps are the same: they lead to the same size.
    have hkk : k = k' := by
      have hle' : 2 * u * k ≤ u * q := by
        calc 2 * u * k = u * (2 * k) := by rw [Nat.mul_comm 2 u, Nat.mul_assoc]
          _ ≤ u * q := Nat.mul_le_mul_left u (by omega)
      have hsteps : 2 * u * k = 2 * u * k' := by omega
      exact Nat.eq_of_mul_eq_mul_left (by omega) hsteps
    subst hkk
    rw [sub_mul_div hu] at hprime
    refine ⟨hprime, fun j hj => ?_⟩
    have hnot := hbefore j hj
    rwa [sub_mul_div hu] at hnot
  · rintro ⟨hprime, hbefore⟩
    refine ⟨k, ?_, rfl, by rwa [sub_mul_div hu], fun j hj => ?_⟩
    · calc 2 * u * k = u * (2 * k) := by rw [Nat.mul_comm 2 u, Nat.mul_assoc]
        _ ≤ u * q := Nat.mul_le_mul_left u (by omega)
    · rw [sub_mul_div hu]
      exact hbefore j hj

/-- There is one first size at most. -/
theorem IsFirst.unique {u s x y : ℕ} (hx : IsFirst u s x) (hy : IsFirst u s y) : x = y := by
  obtain ⟨k, -, rfl, hprime, hbefore⟩ := hx
  obtain ⟨k', -, rfl, hprime', hbefore'⟩ := hy
  rcases Nat.lt_trichotomy k k' with hlt | rfl | hlt
  · exact absurd hprime (hbefore' k hlt)
  · rfl
  · exact absurd hprime' (hbefore k' hlt)

/-- A descent that does not move. -/
theorem isFirst_self_iff {u : ℕ} (hu : 0 < u) {q : ℕ} (hq : 0 < q) :
    IsFirst u (u * q) (u * q) ↔ q.Prime := by
  have h := isFirst_iff hu (k := 0) (q := q) (by omega)
  simpa using h

/-- **Going down from an odd number meets a prime**, three at the latest. -/
theorem exists_prime_sub {q : ℕ} (hodd : q % 2 = 1) (hq : 3 ≤ q) :
    ∃ k, 2 * k + 3 ≤ q ∧ (q - 2 * k).Prime := by
  refine ⟨(q - 3) / 2, by omega, ?_⟩
  rw [show q - 2 * ((q - 3) / 2) = 3 by omega]
  exact Nat.prime_three

/-! ## Trial division that stops early -/

/-- Between `p * p` and the next square there are two more multiples of `p`. -/
theorem le_add_two_of_mul_lt {p m : ℕ} (h : p * m < (p + 1) * (p + 1)) (hp : 1 < p) :
    m ≤ p + 2 := by
  by_contra hm
  have hmul : p * (p + 3) ≤ p * m := Nat.mul_le_mul_left p (by omega)
  have h1 : p * (p + 3) = p * p + 3 * p := by rw [Nat.mul_add, Nat.mul_comm p 3]
  have h2 : (p + 1) * (p + 1) = p * p + 2 * p + 1 := by ring
  omega

/-- An odd number that passes and is no prime is deceptive. -/
theorem deceptive_of_passes {q : ℕ} (hodd : q % 2 = 1) (hq : 3 ≤ q) (h : PassesBelowSqrt q)
    (hprime : ¬ q.Prime) : Deceptive q := by
  obtain ⟨p, hp⟩ : ∃ p, p = q.minFac := ⟨_, rfl⟩
  have hpprime : p.Prime := hp ▸ Nat.minFac_prime (by omega)
  have hdvd : p ∣ q := hp ▸ Nat.minFac_dvd q
  have hsq : p * p ≤ q := by
    have hle := Nat.minFac_sq_le_self (by omega) hprime
    rwa [← hp, Nat.pow_two] at hle
  -- The least divisor is the root itself, the only one that was not tried.
  have hroot : q.sqrt = p := by
    have hle : p ≤ q.sqrt := Nat.le_sqrt.mpr hsq
    have hge : ¬ p < q.sqrt := fun hlt => h p hpprime.two_le hlt hdvd
    omega
  obtain ⟨m, hm⟩ := hdvd
  have hpm : p ≤ m := by
    rw [hm] at hsq
    exact Nat.le_of_mul_le_mul_left hsq hpprime.pos
  have hm2 : m ≤ p + 2 := by
    refine le_add_two_of_mul_lt ?_ hpprime.one_lt
    rw [← hm, ← hroot]
    exact Nat.lt_succ_sqrt q
  obtain ⟨hpodd, hmodd⟩ : Odd p ∧ Odd m := Nat.odd_mul.mp (hm ▸ Nat.odd_iff.mpr hodd)
  rw [Nat.odd_iff] at hpodd hmodd
  obtain rfl | rfl : m = p ∨ m = p + 2 := by omega
  · exact ⟨m, hpprime, .inl hm⟩
  · refine ⟨p, hpprime, .inr ⟨?_, hm⟩⟩
    -- A divisor of the twin is one of the product, so it is at least `p`.
    by_contra htwin
    have hp2 := hpprime.two_le
    have hle : p ≤ (p + 2).minFac :=
      calc p = q.minFac := hp
        _ ≤ (p + 2).minFac := Nat.minFac_le_of_dvd (Nat.minFac_prime (by omega)).two_le
            ((Nat.minFac_dvd (p + 2)).trans (hm ▸ Nat.dvd_mul_left (p + 2) p))
    have hsq' := Nat.minFac_sq_le_self (by omega) htwin
    have hpp : p * p ≤ p + 2 := by
      rw [Nat.pow_two] at hsq'
      exact (Nat.mul_le_mul hle hle).trans hsq'
    have hp3 : 3 * p ≤ p * p := Nat.mul_le_mul_right p (by omega)
    omega

/-- A prime passes. -/
theorem passes_of_prime {q : ℕ} (h : q.Prime) : PassesBelowSqrt q := by
  intro i hi hlt hdvd
  have hself : q.sqrt ≤ q := Nat.sqrt_le_self q
  rcases (Nat.dvd_prime h).mp hdvd with h1 | hq
  · omega
  · omega

/-- A deceptive number passes: its root is the prime. -/
theorem passes_of_deceptive {q : ℕ} (h : Deceptive q) : PassesBelowSqrt q := by
  obtain ⟨p, hp, hq⟩ := h
  intro i hi hlt hdvd
  have hroot : q.sqrt = p := by
    rcases hq with rfl | ⟨-, rfl⟩
    · exact Nat.sqrt_eq p
    · refine Nat.eq_sqrt.mpr ⟨Nat.mul_le_mul_left p (by omega), ?_⟩ |>.symm
      have h2 : (p + 1) * (p + 1) = p * (p + 2) + 1 := by ring
      omega
  rw [hroot] at hlt
  have hcop : i.Coprime p := (Nat.coprime_of_lt_prime (by omega) hlt hp).symm
  rcases hq with rfl | ⟨htwin, rfl⟩
  · have hone : i = 1 := Nat.Coprime.eq_one_of_dvd hcop (hcop.dvd_of_dvd_mul_left hdvd)
    omega
  · rcases (Nat.dvd_prime htwin).mp (hcop.dvd_of_dvd_mul_left hdvd) with h1 | h2
    · omega
    · omega

/-- **What passes**: primes and deceptive numbers. -/
theorem passesBelowSqrt_iff {q : ℕ} (hodd : q % 2 = 1) (hq : 3 ≤ q) :
    PassesBelowSqrt q ↔ q.Prime ∨ Deceptive q := by
  constructor
  · intro h
    by_cases hprime : q.Prime
    · exact .inl hprime
    · exact .inr (deceptive_of_passes hodd hq h hprime)
  · rintro (h | h)
    · exact passes_of_prime h
    · exact passes_of_deceptive h

/-- No prime is deceptive. -/
theorem Deceptive.not_prime {q : ℕ} (h : Deceptive q) : ¬ q.Prime := by
  obtain ⟨p, hp, hq⟩ := h
  have hp1 := hp.one_lt
  rcases hq with rfl | ⟨-, rfl⟩
  · exact Nat.not_prime_mul (by omega) (by omega)
  · exact Nat.not_prime_mul (by omega) (by omega)

/-! ## The descent with the early stop -/

/-- On the way down from `q` no deceptive number stands before the first prime. -/
def Undeceived (q : ℕ) : Prop := ∀ j, (∀ i ≤ j, ¬ (q - 2 * i).Prime) → ¬ Deceptive (q - 2 * j)

/-- The start is the first number on the way. -/
theorem undeceived_of_prime {q : ℕ} (h : q.Prime) : Undeceived q :=
  fun j hj => absurd h (hj 0 (Nat.zero_le j))

theorem not_undeceived_of_deceptive {q : ℕ} (h : Deceptive q) : ¬ Undeceived q := by
  intro hq
  refine hq 0 (fun i hi => ?_) h
  rw [Nat.le_zero.mp hi]
  exact h.not_prime

/-- Where the early stop ends the descent: at an odd number that passes, and the first. -/
theorem exists_passes {q : ℕ} (hodd : q % 2 = 1) (hq : 3 ≤ q) :
    ∃ k, 2 * k + 3 ≤ q ∧ PassesBelowSqrt (q - 2 * k) ∧
      ∀ j < k, ¬ PassesBelowSqrt (q - 2 * j) := by
  classical
  obtain ⟨m, hm, hprime⟩ := exists_prime_sub hodd hq
  have hex : ∃ k, PassesBelowSqrt (q - 2 * k) := ⟨m, passes_of_prime hprime⟩
  have hle : Nat.find hex ≤ m := Nat.find_min' hex (passes_of_prime hprime)
  exact ⟨Nat.find hex, by omega, Nat.find_spec hex, fun j hj => Nat.find_min hex hj⟩

/-- **The early stop finds the first prime** exactly where nothing deceives it before. -/
theorem first_iff_undeceived {q k : ℕ} (hodd : q % 2 = 1) (hk : 2 * k + 3 ≤ q)
    (hpass : PassesBelowSqrt (q - 2 * k)) (hbefore : ∀ j < k, ¬ PassesBelowSqrt (q - 2 * j)) :
    ((q - 2 * k).Prime ∧ ∀ j < k, ¬ (q - 2 * j).Prime) ↔ Undeceived q := by
  constructor
  · rintro ⟨hprime, -⟩ j hj hdec
    have hjk : j < k := by
      by_contra hle
      exact hj k (by omega) hprime
    exact hbefore j hjk (passes_of_deceptive hdec)
  · intro h
    have hnone : ∀ j < k, ¬ (q - 2 * j).Prime := fun j hj hprime =>
      hbefore j hj (passes_of_prime hprime)
    refine ⟨?_, hnone⟩
    rcases (passesBelowSqrt_iff (by omega) (by omega)).mp hpass with hprime | hdec
    · exact hprime
    · have hupto : ∀ i ≤ k, ¬ (q - 2 * i).Prime := by
        intro i hi
        rcases Nat.lt_or_eq_of_le hi with hlt | rfl
        · exact hnone i hlt
        · exact hdec.not_prime
      exact absurd hdec (h k hupto)

/-! ## Tables of first sizes -/

/-- The product of the `2 ^ d` numbers from `lo` on, by halves. -/
def productFrom : ℕ → ℕ → ℕ
  | 0, lo => lo
  | d + 1, lo => productFrom d lo * productFrom d (lo + 2 ^ d)

theorem productFrom_eq_ascFactorial (d lo : ℕ) : productFrom d lo = lo.ascFactorial (2 ^ d) := by
  induction d generalizing lo with
  | zero => exact (Nat.mul_one lo).symm
  | succ d ih =>
    rw [productFrom, ih, ih, Nat.ascFactorial_mul_ascFactorial, Nat.pow_succ, Nat.mul_two]

theorem productFrom_one (d : ℕ) : productFrom d 1 = (2 ^ d).factorial := by
  rw [productFrom_eq_ascFactorial, Nat.one_ascFactorial]

/-- **A number is a prime if it shares no divisor with `k !`**, as long as its root is at most
`k` and it is itself more. -/
theorem prime_iff_coprime_factorial {n k : ℕ} (hlt : k < n) (hsq : n < (k + 1) * (k + 1))
    (hn : n ≠ 1) : n.Prime ↔ n.Coprime k.factorial := by
  rw [Nat.coprime_factorial_iff hn]
  constructor
  · intro hprime
    rwa [hprime.minFac_eq]
  · intro hmin
    by_contra hprime
    have hle := Nat.minFac_sq_le_self (by omega) hprime
    have hge : (k + 1) * (k + 1) ≤ n.minFac ^ 2 := by
      rw [Nat.pow_two]
      exact Nat.mul_le_mul hmin hmin
    omega

/-- Whether `x` is the first of `s, s - 2u, s - 4u, …` with a prime quotient, by the divisors that
the quotients share with `(2 ^ d) !`. -/
def isFirstBy (d u s x : ℕ) : Bool :=
  decide (x ≤ s) && (s - x) % (2 * u) == 0 && decide (2 ^ d < x / u) &&
    decide (s / u < (2 ^ d + 1) * (2 ^ d + 1)) && (x / u).gcd (productFrom d 1) == 1 &&
    (List.range ((s - x) / (2 * u))).all fun j =>
      ((s - 2 * u * j) / u).gcd (productFrom d 1) != 1

theorem isFirst_of_isFirstBy {d u s x : ℕ} (h : isFirstBy d u s x = true) : IsFirst u s x := by
  simp only [isFirstBy, Bool.and_eq_true, decide_eq_true_eq, beq_iff_eq, bne_iff_ne,
    List.all_eq_true, List.mem_range, productFrom_one, ne_eq] at h
  obtain ⟨⟨⟨⟨⟨hle, hmod⟩, hlow⟩, hhigh⟩, hcop⟩, hbefore⟩ := h
  have hpos : 0 < 2 ^ d := Nat.two_pow_pos d
  have hsteps : 2 * u * ((s - x) / (2 * u)) = s - x :=
    Nat.mul_div_cancel' (Nat.dvd_of_mod_eq_zero hmod)
  -- Every size on the way has a quotient between that of `x` and that of `s`.
  have hprime : ∀ y, x ≤ y → y ≤ s →
      ((y / u).Prime ↔ (y / u).Coprime (2 ^ d).factorial) := by
    intro y hxy hys
    have hge : x / u ≤ y / u := Nat.div_le_div_right hxy
    have hup : y / u ≤ s / u := Nat.div_le_div_right hys
    exact prime_iff_coprime_factorial (by omega) (by omega) (by omega)
  refine ⟨(s - x) / (2 * u), by omega, by omega, (hprime x le_rfl hle).mpr hcop, ?_⟩
  intro j hj
  have hroom : 2 * u * j ≤ s - x := by
    rw [← hsteps]
    exact Nat.mul_le_mul_left _ hj.le
  rw [hprime _ (by omega) (Nat.sub_le _ _)]
  exact hbefore j hj

/-- Whether the sizes of a table are first sizes, of starting sizes that grow from one to the
next. -/
def firstsBy (d u growth : ℕ) : ℕ → List ℕ → Bool
  | _, [] => true
  | s, x :: xs => isFirstBy d u s x && firstsBy d u growth (s + growth) xs

theorem isFirst_of_firstsBy {d u growth s : ℕ} {xs : List ℕ}
    (h : firstsBy d u growth s xs = true) {i : ℕ} (hi : i < xs.length) :
    IsFirst u (s + growth * i) xs[i] := by
  induction xs generalizing s i with
  | nil => exact absurd hi (Nat.not_lt_zero i)
  | cons x xs ih =>
    rw [firstsBy, Bool.and_eq_true] at h
    cases i with
    | zero => exact isFirst_of_isFirstBy h.1
    | succ i =>
      have hrest := ih h.2 (Nat.lt_of_succ_lt_succ hi)
      rw [List.getElem_cons_succ]
      rwa [show s + growth * (i + 1) = s + growth + growth * i by ring]

end PrimeDescent
end FpgaEthash
