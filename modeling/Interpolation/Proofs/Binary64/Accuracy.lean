import Interpolation.Proofs.Binary64.Nearest

/-! The magnitudes stand for increasing numbers, and rounding picks one of the two neighbours of a
number: the lower one below their midpoint, the upper one above it, and at the midpoint the even
one. So no other magnitude is nearer, and a number is rounded to infinity from the midpoint between
the last finite magnitude and infinity on. -/

namespace Interpolation.Binary64

theorem units_scale {scale significand : Nat} (hscale : scale = 0 ∨ 2 ^ 52 ≤ significand)
    (hsignificand : significand ≤ 2 ^ 53) :
    units (scale * 2 ^ 52 + significand) = significand * 2 ^ scale := by
  by_cases hlow : significand < 2 ^ 52
  · obtain rfl : scale = 0 := by omega
    rw [Nat.zero_mul, Nat.zero_add, units_of_lt hlow, Nat.pow_zero, Nat.mul_one]
  · have hle : 2 ^ 52 ≤ scale * 2 ^ 52 + significand := by omega
    rw [units_of_le hle]
    by_cases hnext : significand = 2 ^ 53
    · have hdiv : (scale * 2 ^ 52 + significand) / 2 ^ 52 - 1 = scale + 1 := by omega
      have hmod : (scale * 2 ^ 52 + significand) % 2 ^ 52 = 0 := by omega
      rw [hdiv, hmod, hnext, Nat.pow_succ]
      ring
    · have hdiv : (scale * 2 ^ 52 + significand) / 2 ^ 52 - 1 = scale := by omega
      have hmod : 2 ^ 52 + (scale * 2 ^ 52 + significand) % 2 ^ 52 = significand := by omega
      rw [hdiv, hmod]

theorem exists_scale (m : Nat) : ∃ scale significand, m = scale * 2 ^ 52 + significand ∧
    (scale = 0 ∨ 2 ^ 52 ≤ significand) ∧ significand < 2 ^ 53 := by
  by_cases h : m < 2 ^ 52
  · exact ⟨0, m, by omega, .inl rfl, by omega⟩
  · exact ⟨m / 2 ^ 52 - 1, 2 ^ 52 + m % 2 ^ 52, by omega, .inr (by omega), by omega⟩

theorem units_lt_succ (m : Nat) : units m < units (m + 1) := by
  obtain ⟨scale, significand, rfl, hscale, hsignificand⟩ := exists_scale m
  have hpos : 0 < 2 ^ scale := Nat.two_pow_pos scale
  rw [Nat.add_assoc, units_scale hscale (Nat.le_of_lt hsignificand),
    units_scale (hscale.imp_right Nat.le_succ_of_le) hsignificand]
  exact Nat.mul_lt_mul_of_pos_right (Nat.lt_succ_self _) hpos

theorem units_strictMono : StrictMono units :=
  strictMono_nat_of_lt_succ units_lt_succ

theorem units_mul_le {a b : Nat} (h : a ≤ b) (d : Nat) : units a * d ≤ units b * d :=
  Nat.mul_le_mul_right d (units_strictMono.monotone h)

theorem units_mul_inj {a b d : Nat} (hd : 0 < d) (h : units a * d = units b * d) : a = b :=
  units_strictMono.injective (Nat.eq_of_mul_eq_mul_right hd h)

/-- The scale of a quotient: its significand fills 53 bits, unless the scale is the finest. -/
theorem quotient_on_scale (q : Nat) : (q.log2 - 52 = 0 ∨ 2 ^ 52 ≤ q / 2 ^ (q.log2 - 52)) ∧
    q / 2 ^ (q.log2 - 52) < 2 ^ 53 := by
  constructor
  · by_cases hscale : q.log2 ≤ 52
    · exact .inl (Nat.sub_eq_zero_of_le hscale)
    · right
      have hne : q ≠ 0 := by
        rintro rfl
        exact hscale (Nat.zero_le _)
      apply (Nat.le_div_iff_mul_le (Nat.two_pow_pos _)).mpr
      rw [← Nat.pow_add, Nat.add_sub_of_le (by omega)]
      exact Nat.log2_self_le hne
  · apply (Nat.div_lt_iff_lt_mul (Nat.two_pow_pos _)).mpr
    rw [← Nat.pow_add]
    exact Nat.lt_of_lt_of_le Nat.lt_log2_self (Nat.pow_le_pow_right (by omega) (by omega))

theorem roundHalfEven_cases (n d : Nat) :
    (roundHalfEven n d = n / d ∧ 2 * (n % d) ≤ d ∧ (2 * (n % d) = d → n / d % 2 = 0)) ∨
    (roundHalfEven n d = n / d + 1 ∧ d ≤ 2 * (n % d) ∧
      (2 * (n % d) = d → (n / d + 1) % 2 = 0)) := by
  unfold roundHalfEven
  simp only [Bool.or_eq_true, Bool.and_eq_true, decide_eq_true_eq, beq_iff_eq]
  split
  · exact .inr ⟨rfl, by omega, by omega⟩
  · exact .inl ⟨rfl, by omega, by omega⟩

/-- Rounding goes down up to the midpoint of the two neighbours and up from it on. -/
theorem nearest_cases (n : Nat) {d : Nat} (hd : 0 < d) : ∃ lower,
    units lower * d ≤ n ∧ n < units (lower + 1) * d ∧
      ((nearest n d = min infinity lower ∧ 2 * n ≤ (units lower + units (lower + 1)) * d ∧
          (2 * n = (units lower + units (lower + 1)) * d → lower % 2 = 0)) ∨
        (nearest n d = min infinity (lower + 1) ∧ (units lower + units (lower + 1)) * d ≤ 2 * n ∧
          (2 * n = (units lower + units (lower + 1)) * d → (lower + 1) % 2 = 0))) := by
  obtain ⟨hscale, hbound⟩ := quotient_on_scale (n / d)
  rw [nearest_eq]
  rw [Nat.div_div_eq_div_mul] at hscale hbound
  -- From here on only the bounds on the scale matter, not how it was found.
  generalize (n / d).log2 - 52 = scale at hscale hbound ⊢
  have hlower : units (scale * 2 ^ 52 + n / (d * 2 ^ scale)) * d =
      d * 2 ^ scale * (n / (d * 2 ^ scale)) := by
    rw [units_scale hscale (Nat.le_of_lt hbound)]
    ring
  have hupper : units (scale * 2 ^ 52 + n / (d * 2 ^ scale) + 1) * d =
      d * 2 ^ scale * (n / (d * 2 ^ scale)) + d * 2 ^ scale := by
    rw [Nat.add_assoc, units_scale (hscale.imp_right Nat.le_succ_of_le) hbound,
      Nat.succ_eq_add_one]
    ring
  have hdivision := Nat.div_add_mod n (d * 2 ^ scale)
  have hrest := Nat.mod_lt n (Nat.mul_pos hd (Nat.two_pow_pos scale))
  refine ⟨scale * 2 ^ 52 + n / (d * 2 ^ scale), by omega, by omega, ?_⟩
  rw [Nat.add_mul, hlower, hupper]
  rcases roundHalfEven_cases n (d * 2 ^ scale) with ⟨hround, hhalf, heven⟩ | ⟨hround, hhalf, heven⟩
  · left
    rw [hround]
    exact ⟨rfl, by omega, by omega⟩
  · right
    rw [hround, ← Nat.add_assoc]
    exact ⟨rfl, by omega, by omega⟩

theorem units_infinity : units infinity = 2 ^ 53 * 2 ^ 2045 := by
  have h : infinity = 2045 * 2 ^ 52 + 2 ^ 53 := by decide
  rw [h, units_scale (.inr (by omega)) (Nat.le_refl _)]

theorem units_pred_infinity : units (infinity - 1) = (2 ^ 53 - 1) * 2 ^ 2045 := by
  have h : infinity - 1 = 2045 * 2 ^ 52 + (2 ^ 53 - 1) := by decide
  rw [h, units_scale (.inr (by omega)) (Nat.sub_le _ _)]

/-- A number is rounded to a finite magnitude below the midpoint of the last one and infinity. At
the midpoint infinity is the even one. -/
theorem nearest_lt_infinity_iff (n : Nat) {d : Nat} (hd : 0 < d) :
    nearest n d < infinity ↔ 2 * n < (units (infinity - 1) + units infinity) * d := by
  have hlast : infinity - 1 + 1 = infinity := by decide
  have hodd : (infinity - 1) % 2 = 1 := by decide
  have hstep : units (infinity - 1) * d ≤ units infinity * d := units_mul_le (Nat.sub_le _ _) d
  obtain ⟨lower, hle, hlt, hround⟩ := nearest_cases n hd
  rw [Nat.add_mul] at hround ⊢
  -- The last magnitude is odd, so at the midpoint behind it the tie goes up.
  rcases hround with ⟨hround, hhalf, heven⟩ | ⟨hround, hhalf, heven⟩
  · rw [hround]
    constructor
    · intro hfinite
      by_cases hequal : lower = infinity - 1
      · rw [hequal, hlast] at hhalf heven
        omega
      · have hbelow : units (lower + 1) * d ≤ units (infinity - 1) * d := units_mul_le (by omega) d
        omega
    · intro hn
      by_contra hnot
      have habove : units infinity * d ≤ units lower * d := units_mul_le (by omega) d
      omega
  · rw [hround]
    constructor
    · intro hfinite
      have hbelow : units (lower + 1) * d ≤ units (infinity - 1) * d := units_mul_le (by omega) d
      omega
    · intro hn
      by_contra hnot
      have hbelow : units (infinity - 1) * d ≤ units lower * d := units_mul_le (by omega) d
      have habove : units infinity * d ≤ units (lower + 1) * d := units_mul_le (by omega) d
      omega

/-- No magnitude stands for a nearer number, and another one stands for a number as near only if the
magnitude chosen is even. -/
theorem nearest_is_nearest {n d : Nat} (hd : 0 < d) (hfinite : nearest n d < infinity) (m : Nat) :
    |(units (nearest n d) * d - n : ℤ)| ≤ |(units m * d - n : ℤ)| ∧
      (|(units m * d - n : ℤ)| = |(units (nearest n d) * d - n : ℤ)| →
        m = nearest n d ∨ nearest n d % 2 = 0) := by
  obtain ⟨lower, hle, hlt, hround⟩ := nearest_cases n hd
  -- The neighbours leave nothing between them, so any other number lies beyond one of them.
  have hbeyond : units m * d ≤ units lower * d ∨ units (lower + 1) * d ≤ units m * d :=
    (Nat.lt_or_ge lower m).symm.imp (units_mul_le · d) (units_mul_le · d)
  rw [Nat.add_mul] at hround
  simp only [← Nat.cast_mul, Int.abs_eq_natAbs]
  rcases hround with ⟨hround, hhalf, heven⟩ | ⟨hround, hhalf, heven⟩
  · have hlower : nearest n d = lower := by omega
    rw [hlower]
    refine ⟨by omega, fun hdistance => ?_⟩
    by_cases hsame : units m * d = units lower * d
    · exact .inl (units_mul_inj hd hsame)
    · exact .inr (heven (by omega))
  · have hupper : nearest n d = lower + 1 := by omega
    rw [hupper]
    refine ⟨by omega, fun hdistance => ?_⟩
    by_cases hsame : units m * d = units (lower + 1) * d
    · exact .inl (units_mul_inj hd hsame)
    · exact .inr (heven (by omega))

end Interpolation.Binary64
