import Interpolation.Binary64
import Mathlib.Tactic.Positivity
import Mathlib.Tactic.Ring

/-! Rounding depends on the number alone and not on how it is spelled as a quotient or as a decimal,
and a number that a float stands for is rounded to that float. The exponents that are settled
without the power are settled as the power would settle them. -/

namespace Interpolation.Binary64

theorem roundHalfEven_mul {k : Nat} (hk : 0 < k) (n d : Nat) :
    roundHalfEven (k * n) (k * d) = roundHalfEven n d := by
  have htwice : 2 * (k * (n % d)) = k * (2 * (n % d)) := by ring
  unfold roundHalfEven
  simp only [Nat.mul_div_mul_left n d hk, Nat.mul_mod_mul_left, htwice, Nat.mul_lt_mul_left hk,
    beq_iff_eq, Bool.and_eq_true, Bool.or_eq_true, decide_eq_true_eq,
    Nat.mul_right_inj (Nat.ne_of_gt hk)]

theorem roundHalfEven_exact {d : Nat} (hd : 0 < d) (q : Nat) : roundHalfEven (q * d) d = q := by
  have hne : ¬ (0 = d) := Nat.ne_of_lt hd
  unfold roundHalfEven
  simp [Nat.mul_div_cancel q hd, hne]

theorem roundHalfEven_of_small {n d : Nat} (h : 2 * n < d) : roundHalfEven n d = 0 := by
  have hlt : n < d := by omega
  have hle : ¬ d < 2 * n := by omega
  unfold roundHalfEven
  simp [Nat.div_eq_of_lt hlt, Nat.mod_eq_of_lt hlt, hle]

theorem nearest_eq (n d : Nat) : nearest n d = min infinity (((n / d).log2 - 52) * 2 ^ 52 +
    roundHalfEven n (d * 2 ^ ((n / d).log2 - 52))) := rfl

theorem units_of_lt {m : Nat} (h : m < 2 ^ 52) : units m = m :=
  if_pos h

theorem units_of_le {m : Nat} (h : 2 ^ 52 ≤ m) :
    units m = (2 ^ 52 + m % 2 ^ 52) * 2 ^ (m / 2 ^ 52 - 1) :=
  if_neg (Nat.not_lt.mpr h)

theorem nearest_mul {k : Nat} (hk : 0 < k) (n d : Nat) : nearest (k * n) (k * d) = nearest n d := by
  rw [nearest_eq, nearest_eq, Nat.mul_div_mul_left n d hk, Nat.mul_assoc, roundHalfEven_mul hk]

theorem nearest_of_small {n d : Nat} (h : 2 * n < d) : nearest n d = 0 := by
  have hlt : n < d := by omega
  have hscale : (n / d).log2 - 52 = 0 := by
    rw [Nat.div_eq_of_lt hlt]
    rfl
  rw [nearest_eq, hscale, Nat.pow_zero, Nat.mul_one, roundHalfEven_of_small h]
  exact Nat.min_eq_right (Nat.zero_le _)

theorem nearest_of_large {n : Nat} (h : 2099 ≤ n.log2) : nearest n 1 = infinity := by
  have hscale : 2047 ≤ n.log2 - 52 := by omega
  have hle : infinity ≤ (n.log2 - 52) * 2 ^ 52 := Nat.mul_le_mul_right (2 ^ 52) hscale
  rw [nearest_eq, Nat.div_one]
  exact Nat.min_eq_left (Nat.le_trans hle (Nat.le_add_right _ _))

theorem log2_units_of_le {m : Nat} (h : 2 ^ 52 ≤ m) :
    (units m).log2 - 52 = m / 2 ^ 52 - 1 := by
  have hr : m % 2 ^ 52 < 2 ^ 52 := Nat.mod_lt _ (by omega)
  have hpos : 0 < 2 ^ (m / 2 ^ 52 - 1) := Nat.two_pow_pos _
  have hlog : (units m).log2 = 52 + (m / 2 ^ 52 - 1) := by
    rw [units_of_le h]
    refine (Nat.log2_eq_iff ?_).mpr ⟨?_, ?_⟩
    · exact Nat.ne_of_gt (Nat.mul_pos (by omega) hpos)
    · rw [Nat.pow_add]
      exact Nat.mul_le_mul_right _ (Nat.le_add_right _ _)
    · have hexp : 52 + (m / 2 ^ 52 - 1) + 1 = 53 + (m / 2 ^ 52 - 1) := by omega
      rw [hexp, Nat.pow_add]
      exact Nat.mul_lt_mul_of_pos_right (by omega) hpos
  omega

theorem nearest_units_of_lt {m d : Nat} (h : m < 2 ^ 52) (hd : 0 < d) :
    nearest (units m * d) d = min infinity m := by
  have hscale : m.log2 - 52 = 0 := by
    by_cases hzero : m = 0
    · rw [hzero]
      rfl
    · have hlt := (Nat.log2_lt hzero).mpr h
      omega
  rw [nearest_eq, units_of_lt h, Nat.mul_div_cancel m hd, hscale, Nat.pow_zero, Nat.mul_one,
    roundHalfEven_exact hd, Nat.zero_mul, Nat.zero_add]

theorem nearest_units_of_le {m d : Nat} (h : 2 ^ 52 ≤ m) (hd : 0 < d) :
    nearest (units m * d) d = min infinity m := by
  have hpos : 0 < d * 2 ^ (m / 2 ^ 52 - 1) := Nat.mul_pos hd (Nat.two_pow_pos _)
  have hproduct : units m * d = (2 ^ 52 + m % 2 ^ 52) * (d * 2 ^ (m / 2 ^ 52 - 1)) := by
    rw [units_of_le h]
    ring
  have hdiv := Nat.div_add_mod m (2 ^ 52)
  have hone : 1 ≤ m / 2 ^ 52 := Nat.div_pos h (by omega)
  have hsum : (m / 2 ^ 52 - 1) * 2 ^ 52 + (2 ^ 52 + m % 2 ^ 52) = m := by
    omega
  rw [nearest_eq, Nat.mul_div_cancel _ hd, log2_units_of_le h, hproduct, roundHalfEven_exact hpos,
    hsum]

theorem nearest_units {m d : Nat} (hm : m < infinity) (hd : 0 < d) :
    nearest (units m * d) d = m := by
  have hmin : min infinity m = m := Nat.min_eq_right (Nat.le_of_lt hm)
  by_cases h : m < 2 ^ 52
  · rw [nearest_units_of_lt h hd, hmin]
  · rw [nearest_units_of_le (Nat.not_lt.mp h) hd, hmin]

theorem pow_eight_le_pow_ten (k : Nat) : 8 ^ k ≤ 10 ^ k :=
  Nat.pow_le_pow_left (by omega) k

/-- A number below a power of ten: its bits, three to a digit, bound its digits. -/
theorem lt_pow_ten (n : Nat) : n < 10 ^ (n.log2 / 3 + 1) := by
  have hexp : n.log2 + 1 ≤ 3 * (n.log2 / 3 + 1) := by omega
  calc
    n < 2 ^ (n.log2 + 1) := Nat.lt_log2_self
    _ ≤ 2 ^ (3 * (n.log2 / 3 + 1)) := Nat.pow_le_pow_right (by omega) hexp
    _ = 8 ^ (n.log2 / 3 + 1) := by rw [Nat.pow_mul]
    _ ≤ 10 ^ (n.log2 / 3 + 1) := pow_eight_le_pow_ten _

theorem nearest_of_large_exponent {c k a : Nat} (hc : 0 < c) (h : 2099 ≤ 3 * k + a) :
    nearest (c * 10 ^ k * 2 ^ a) 1 = infinity := by
  apply nearest_of_large
  have hpos : 0 < 10 ^ k := Nat.pow_pos (by omega)
  have hne : c * 10 ^ k * 2 ^ a ≠ 0 :=
    Nat.ne_of_gt (Nat.mul_pos (Nat.mul_pos hc hpos) (Nat.two_pow_pos _))
  apply (Nat.le_log2 hne).mpr
  calc
    2 ^ 2099 ≤ 2 ^ (3 * k + a) := Nat.pow_le_pow_right (by omega) h
    _ = 8 ^ k * 2 ^ a := by rw [Nat.pow_add, Nat.pow_mul]
    _ ≤ c * 10 ^ k * 2 ^ a := by
      apply Nat.mul_le_mul_right
      exact Nat.le_trans (pow_eight_le_pow_ten k) (Nat.le_mul_of_pos_left _ hc)

theorem nearest_of_small_exponent {c k a b : Nat} (ha : a + 1 ≤ 3 * b)
    (hk : c.log2 / 3 + 1 + b ≤ k) : nearest (c * 2 ^ a) (10 ^ k) = 0 := by
  apply nearest_of_small
  calc
    2 * (c * 2 ^ a) = c * 2 ^ (a + 1) := by rw [Nat.pow_succ]; ring
    _ < 10 ^ (c.log2 / 3 + 1) * 2 ^ (a + 1) :=
      Nat.mul_lt_mul_of_pos_right (lt_pow_ten c) (Nat.two_pow_pos _)
    _ ≤ 10 ^ (c.log2 / 3 + 1) * 2 ^ (3 * b) :=
      Nat.mul_le_mul_left _ (Nat.pow_le_pow_right (by omega) ha)
    _ = 10 ^ (c.log2 / 3 + 1) * 8 ^ b := by rw [Nat.pow_mul]
    _ ≤ 10 ^ (c.log2 / 3 + 1) * 10 ^ b := Nat.mul_le_mul_left _ (pow_eight_le_pow_ten b)
    _ = 10 ^ (c.log2 / 3 + 1 + b) := (Nat.pow_add 10 _ b).symm
    _ ≤ 10 ^ k := Nat.pow_le_pow_right (by omega) hk

theorem nearest_zero_mul {d : Nat} (hd : 0 < d) (a b : Nat) : nearest (0 * a * b) d = 0 := by
  rw [Nat.zero_mul, Nat.zero_mul]
  exact nearest_of_small hd

/-- Exponents that are out of all proportion are no exception. -/
theorem nearestDecimal_eq (c : Nat) (e : Int) : nearestDecimal c e =
    nearest (c * 10 ^ e.toNat * 2 ^ 1074) (10 ^ (-e).toNat) := by
  unfold nearestDecimal
  by_cases hzero : c = 0
  · subst hzero
    exact (nearest_zero_mul (Nat.pow_pos (by omega)) _ _).symm
  rw [if_neg (by simpa using hzero)]
  by_cases hlarge : 400 < e
  · have hneg : (-e).toNat = 0 := by omega
    rw [if_pos hlarge, hneg, Nat.pow_zero,
      nearest_of_large_exponent (Nat.pos_of_ne_zero hzero) (by omega)]
  rw [if_neg hlarge]
  by_cases hsmall : e + (c.log2 / 3 + 1 : Nat) < -400
  · have hpos : e.toNat = 0 := by omega
    rw [if_pos hsmall, hpos, Nat.pow_zero, Nat.mul_one,
      nearest_of_small_exponent (show 1074 + 1 ≤ 3 * 359 by omega) (by omega)]
  rw [if_neg hsmall]
  by_cases hsign : 0 ≤ e
  · have hneg : (-e).toNat = 0 := by omega
    rw [if_pos hsign, hneg, Nat.pow_zero]
    -- A power with a variable exponent is one that nobody tries to evaluate.
    generalize 1074 = bits
    rfl
  · have hpos : e.toNat = 0 := by omega
    rw [if_neg hsign, hpos, Nat.pow_zero, Nat.mul_one]
    generalize 1074 = bits
    rfl

theorem nearest_pow_ten (c a p q j : Nat) :
    nearest (c * 10 ^ (p + j) * a) (10 ^ (q + j)) = nearest (c * 10 ^ p * a) (10 ^ q) := by
  have hn : c * 10 ^ (p + j) * a = 10 ^ j * (c * 10 ^ p * a) := by
    rw [Nat.pow_add]
    ring
  have hd : 10 ^ (q + j) = 10 ^ j * 10 ^ q := by
    rw [Nat.pow_add, Nat.mul_comm]
  rw [hn, hd, nearest_mul (Nat.pow_pos (by omega))]

theorem nearestDecimal_mul_pow (c k : Nat) (e : Int) :
    nearestDecimal (c * 10 ^ k) e = nearestDecimal c (e + k) := by
  obtain ⟨j, hp, hq⟩ : ∃ j, k + e.toNat = (e + k).toNat + j ∧ (-e).toNat = (-(e + k)).toNat + j :=
    ⟨k + e.toNat - (e + k).toNat, by omega, by omega⟩
  rw [nearestDecimal_eq, nearestDecimal_eq, Nat.mul_assoc c, ← Nat.pow_add, hp, hq, nearest_pow_ten]

theorem nearest_units_pow {m : Nat} (hm : m < infinity) (k : Nat) :
    nearest (units m * 5 ^ k * 2 ^ k) (10 ^ k) = m := by
  rw [Nat.mul_assoc, ← Nat.mul_pow]
  exact nearest_units hm (Nat.pow_pos (by omega))

theorem nearestDecimal_units {m : Nat} (hm : m < infinity) :
    nearestDecimal (units m * Nat.pow 5 1074) (-1074) = m := by
  have hneg : (-1074 : Int).toNat = 0 := rfl
  have hplaces : (-(-1074) : Int).toNat = 1074 := rfl
  rw [nearestDecimal_eq, hneg, hplaces, Nat.pow_zero, Nat.mul_one]
  generalize 1074 = bits
  exact nearest_units_pow hm bits

end Interpolation.Binary64
