import Interpolation.Proofs.Binary64.Accuracy
import Interpolation.Proofs.Binary64.Bits
import Mathlib.Algebra.Order.Field.Basic
import Mathlib.Algebra.Order.Ring.Rat
import Mathlib.Tactic.FieldSimp
import Mathlib.Tactic.Linarith

/-! A decimal numeral is an exact rational number, and a finite float is one. Rounding takes a
decimal to the float nearest to it, with its sign, unless the decimal reaches half a step beyond the
last finite float. -/

namespace Interpolation

def sign (negative : Bool) : ℚ :=
  if negative then -1 else 1

theorem abs_sign (negative : Bool) : |sign negative| = 1 := by
  cases negative <;> simp [sign]

def Decimal.toRat (number : Decimal) : ℚ :=
  sign number.negative * (number.coefficient * 10 ^ number.exponent)

namespace Binary64

def toRat (x : Binary64) : ℚ :=
  sign x.negative * (units x.magnitude / 2 ^ 1074)

/-- No finite float is nearer to the number, and another number as near belongs to a float only
where this float is even. -/
structure IsNearest (x : Binary64) (number : ℚ) : Prop where
  finite : x.isFinite = true
  least : ∀ y : Binary64, y.isFinite = true → |x.toRat - number| ≤ |y.toRat - number|
  even : ∀ y : Binary64, y.isFinite = true → |y.toRat - number| = |x.toRat - number| →
    y.toRat = x.toRat ∨ x.magnitude % 2 = 0

theorem abs_sign_sub (negative : Bool) (x y : ℚ) :
    |sign negative * x - sign negative * y| = |x - y| := by
  rw [← mul_sub, abs_mul, abs_sign, one_mul]

theorem abs_opposite_sub (negative : Bool) (x y : ℚ) :
    |sign (!negative) * x - sign negative * y| = |x + y| := by
  have hsign : sign (!negative) = -sign negative := by
    cases negative <;> simp [sign]
  have hsum : sign (!negative) * x - sign negative * y = -(sign negative * (x + y)) := by
    rw [hsign]
    ring
  rw [hsum, abs_neg, abs_mul, abs_sign, one_mul]

theorem abs_units_sub (u n : Nat) {d : Nat} (hd : 0 < d) :
    |(u : ℚ) / 2 ^ 1074 - n / (d * 2 ^ 1074)| = (|(u * d : ℤ) - n| : ℤ) / (d * 2 ^ 1074 : ℚ) := by
  have hd' : (0 : ℚ) < d := Nat.cast_pos.mpr hd
  have hpos : (0 : ℚ) < d * 2 ^ 1074 := mul_pos hd' (by positivity)
  have hquotient : (u : ℚ) / 2 ^ 1074 - n / (d * 2 ^ 1074) =
      ((u * d - n : ℤ) : ℚ) / (d * 2 ^ 1074) := by
    push_cast
    field_simp
  rw [hquotient, abs_div, abs_of_pos hpos, Int.cast_abs]

theorem exists_units_distance (y : Binary64) (negative : Bool) {v : ℚ} (hv : 0 ≤ v) :
    ∃ m, |(units m : ℚ) / 2 ^ 1074 - v| ≤ |y.toRat - sign negative * v| ∧
      (|y.toRat - sign negative * v| = |(units m : ℚ) / 2 ^ 1074 - v| →
        y.toRat = sign negative * (units m / 2 ^ 1074)) := by
  by_cases hsame : y.negative = negative
  · refine ⟨y.magnitude, ?_, fun _ => ?_⟩
    · rw [toRat, hsame, abs_sign_sub]
    · rw [toRat, hsame]
  · have hopposite : y.negative = !negative := Bool.eq_not.mpr hsame
    have hpos : (0 : ℚ) ≤ units y.magnitude / 2 ^ 1074 := by positivity
    have hzero : (units 0 : ℚ) / 2 ^ 1074 = 0 := by simp [units]
    refine ⟨0, ?_, ?_⟩
    · rw [toRat, hopposite, abs_opposite_sub, hzero, zero_sub, abs_neg, abs_of_nonneg hv,
        abs_of_nonneg (add_nonneg hpos hv)]
      exact le_add_of_nonneg_left hpos
    · rw [toRat, hopposite, abs_opposite_sub, hzero, zero_sub, abs_neg, abs_of_nonneg hv,
        abs_of_nonneg (add_nonneg hpos hv)]
      intro hdistance
      rw [add_eq_right.mp hdistance, mul_zero, mul_zero]

theorem nearest_distance_le {n d : Nat} (hd : 0 < d) (hfinite : nearest n d < infinity) (m : Nat) :
    |(units (nearest n d) : ℚ) / 2 ^ 1074 - n / (d * 2 ^ 1074)| ≤
        |(units m : ℚ) / 2 ^ 1074 - n / (d * 2 ^ 1074)| ∧
      (|(units m : ℚ) / 2 ^ 1074 - n / (d * 2 ^ 1074)| =
          |(units (nearest n d) : ℚ) / 2 ^ 1074 - n / (d * 2 ^ 1074)| →
        m = nearest n d ∨ nearest n d % 2 = 0) := by
  have hpos : (0 : ℚ) < d * 2 ^ 1074 := mul_pos (Nat.cast_pos.mpr hd) (by positivity)
  obtain ⟨hle, heven⟩ := nearest_is_nearest hd hfinite m
  rw [abs_units_sub _ _ hd, abs_units_sub _ _ hd]
  constructor
  · exact (div_le_div_iff_of_pos_right hpos).mpr (Int.cast_le.mpr hle)
  · intro hequal
    exact heven (Int.cast_inj.mp ((div_left_inj' hpos.ne').mp hequal))

theorem isNearest_of_quotient {x : Binary64} (hfinite : x.isFinite = true) {n d : Nat} (hd : 0 < d)
    (h : x.magnitude = nearest n d) :
    x.IsNearest (sign x.negative * (n / (d * 2 ^ 1074))) := by
  have hv : (0 : ℚ) ≤ n / (d * 2 ^ 1074) := by positivity
  have hself : |x.toRat - sign x.negative * (n / (d * 2 ^ 1074))| =
      |(units (nearest n d) : ℚ) / 2 ^ 1074 - n / (d * 2 ^ 1074)| := by
    rw [toRat, abs_sign_sub, h]
  have hbelow : nearest n d < infinity := h ▸ isFinite_iff.mp hfinite
  refine ⟨hfinite, fun y _ => ?_, fun y _ hequal => ?_⟩
  · obtain ⟨m, hm, -⟩ := exists_units_distance y x.negative hv
    rw [hself]
    exact (nearest_distance_le hd hbelow m).1.trans hm
  · obtain ⟨m, hm, hsame⟩ := exists_units_distance y x.negative hv
    obtain ⟨hle, heven⟩ := nearest_distance_le hd hbelow m
    rw [hself] at hequal
    rcases heven (le_antisymm (hequal ▸ hm) hle) with hmagnitude | hmagnitude
    · left
      rw [hsame (hequal.trans (le_antisymm hle (hequal ▸ hm))), hmagnitude, toRat, h]
    · right
      rw [h, hmagnitude]

theorem abs_sub_lt_of_between {a b c v : ℚ} (hab : a < b) (hbc : b < c)
    (h : |a - v| = |c - v|) : |b - v| < |a - v| := by
  rcases abs_eq_abs.mp h with hsame | hopposite
  · exact absurd (sub_left_inj.mp hsame) (hab.trans hbc).ne
  · have hneg : a - v < 0 := by linarith
    rw [abs_of_neg hneg]
    exact abs_lt.mpr ⟨by linarith, by linarith⟩

theorem quotient_units_lt {m n : Nat} (h : m < n) :
    (units m : ℚ) / 2 ^ 1074 < units n / 2 ^ 1074 :=
  (div_lt_div_iff_of_pos_right (by positivity)).mpr (Nat.cast_lt.mpr (units_strictMono h))

theorem IsNearest.magnitude_le {x y : Binary64} {number : ℚ} (hx : x.IsNearest number)
    (hy : y.IsNearest number) (hsign : x.negative = y.negative) : y.magnitude ≤ x.magnitude := by
  by_contra hlt
  have hlt := Nat.lt_of_not_le hlt
  obtain ⟨v, rfl⟩ : ∃ v, number = sign x.negative * v :=
    ⟨sign x.negative * number, by cases x.negative <;> simp [sign]⟩
  have hdistance := le_antisymm (hx.least y hy.finite) (hy.least x hx.finite)
  have hne : x.toRat ≠ y.toRat := by
    rw [toRat, toRat, ← hsign]
    cases x.negative <;> simpa [sign] using (quotient_units_lt hlt).ne
  -- Both are even, so that there is a float between them.
  have hxeven := (hx.even y hy.finite hdistance.symm).resolve_left hne.symm
  have hyeven := (hy.even x hx.finite hdistance).resolve_left hne
  have hbetween : x.magnitude + 1 < y.magnitude := by omega
  have hbelow : x.magnitude + 1 < infinity := hbetween.trans (isFinite_iff.mp hy.finite)
  have hmagnitude := magnitude_ofMagnitude x.negative hbelow.le
  have hleast := hx.least (ofMagnitude x.negative (x.magnitude + 1))
    (isFinite_iff.mpr (hmagnitude.symm ▸ hbelow))
  simp only [toRat, negative_ofMagnitude, hmagnitude, ← hsign, abs_sign_sub] at hdistance hleast
  have hnearer := abs_sub_lt_of_between (quotient_units_lt (Nat.lt_add_one x.magnitude))
    (quotient_units_lt hbetween) hdistance
  exact absurd hleast (not_le.mpr hnearer)

theorem IsNearest.unique {x y : Binary64} {number : ℚ} (hx : x.IsNearest number)
    (hy : y.IsNearest number) (hsign : x.negative = y.negative) : x = y := by
  have hmagnitude := le_antisymm (hy.magnitude_le hx hsign.symm) (hx.magnitude_le hy hsign)
  rw [← ofMagnitude_magnitude x, ← ofMagnitude_magnitude y, hsign, hmagnitude]

variable (number : Decimal)

theorem toRat_eq_quotient : number.toRat = sign number.negative *
    ((number.coefficient * 10 ^ number.exponent.toNat * 2 ^ 1074 : ℕ) /
      ((10 ^ (-number.exponent).toNat : ℕ) * 2 ^ 1074)) := by
  have hexponent : number.exponent =
      (number.exponent.toNat : ℤ) - ((-number.exponent).toNat : ℤ) := by omega
  have hpower : (10 : ℚ) ^ number.exponent =
      10 ^ number.exponent.toNat / 10 ^ (-number.exponent).toNat := by
    rw [← zpow_natCast, ← zpow_natCast, ← zpow_sub₀ (by norm_num), ← hexponent]
  rw [Decimal.toRat, hpower]
  simp only [Nat.cast_mul, Nat.cast_pow, Nat.cast_ofNat]
  rw [mul_div_mul_right _ _ (pow_ne_zero 1074 two_ne_zero), mul_div_assoc]

theorem abs_toRat : |number.toRat| =
    (number.coefficient * 10 ^ number.exponent.toNat * 2 ^ 1074 : ℕ) /
      ((10 ^ (-number.exponent).toNat : ℕ) * 2 ^ 1074) := by
  rw [toRat_eq_quotient, abs_mul, abs_sign, one_mul, abs_of_nonneg]
  positivity

theorem nearestDecimal_le_infinity (c : Nat) (e : ℤ) : nearestDecimal c e ≤ infinity := by
  rw [nearestDecimal_eq, nearest_eq]
  exact Nat.min_le_left _ _

theorem magnitude_ofDecimal :
    (ofDecimal number).magnitude = nearestDecimal number.coefficient number.exponent :=
  magnitude_ofMagnitude _ (nearestDecimal_le_infinity _ _)

theorem negative_ofDecimal : (ofDecimal number).negative = number.negative :=
  negative_ofMagnitude _ _

/-- The midpoint of the last finite float and the one that infinity takes the place of. -/
theorem midpoint_infinity : ((units (infinity - 1) + units infinity : ℕ) : ℚ) =
    2 * ((2 ^ 1024 - 2 ^ 970) * 2 ^ 1074) := by
  have htop : (2 : ℚ) ^ 1024 = 2 ^ 54 * 2 ^ 970 := by rw [← pow_add]
  have hscale : (2 : ℚ) ^ 2045 = 2 * (2 ^ 970 * 2 ^ 1074) := by rw [← pow_add, ← pow_succ']
  rw [units_pred_infinity, units_infinity, htop, Nat.cast_add, Nat.cast_mul, Nat.cast_mul,
    Nat.cast_pow _ 2045, Nat.cast_ofNat, hscale]
  generalize (2 : ℚ) ^ 970 = step
  generalize (2 : ℚ) ^ 1074 = units
  norm_num
  ring

/-- A decimal is rounded to a finite float below half a step beyond the last one. -/
theorem isFinite_ofDecimal_iff :
    (ofDecimal number).isFinite = true ↔ |number.toRat| < 2 ^ 1024 - 2 ^ 970 := by
  have hd : 0 < 10 ^ (-number.exponent).toNat := Nat.pow_pos (by omega)
  rw [isFinite_iff, magnitude_ofDecimal, nearestDecimal_eq, nearest_lt_infinity_iff _ hd, abs_toRat]
  generalize number.coefficient * 10 ^ number.exponent.toNat * 2 ^ 1074 = n
  generalize 10 ^ (-number.exponent).toNat = d at hd ⊢
  have hpos : (0 : ℚ) < d * 2 ^ 1074 := mul_pos (Nat.cast_pos.mpr hd) (by positivity)
  have hmiddle : (2 : ℚ) * ((2 ^ 1024 - 2 ^ 970) * 2 ^ 1074) * d =
      2 * ((2 ^ 1024 - 2 ^ 970) * (d * 2 ^ 1074)) := by
    rw [mul_assoc, mul_assoc (2 ^ 1024 - 2 ^ 970), mul_comm (2 ^ 1074)]
  rw [div_lt_iff₀ hpos, ← @Nat.cast_lt ℚ, Nat.cast_mul, Nat.cast_mul, midpoint_infinity,
    Nat.cast_ofNat, hmiddle]
  exact mul_lt_mul_iff_of_pos_left two_pos

theorem isNearest_ofDecimal (h : (ofDecimal number).isFinite = true) :
    (ofDecimal number).IsNearest number.toRat := by
  rw [toRat_eq_quotient, ← negative_ofDecimal]
  apply isNearest_of_quotient h (Nat.pow_pos (by omega))
  rw [magnitude_ofDecimal, nearestDecimal_eq]

/-- Rounding is told by the sign, by the range of the finite floats, and by being nearest. -/
theorem eq_ofDecimal_iff {x : Binary64} :
    (ofDecimal number).isFinite = true ∧ x = ofDecimal number ↔
    |number.toRat| < 2 ^ 1024 - 2 ^ 970 ∧ x.negative = number.negative ∧
      x.IsNearest number.toRat := by
  rw [← isFinite_ofDecimal_iff]
  constructor
  · rintro ⟨hfinite, rfl⟩
    exact ⟨hfinite, negative_ofDecimal number, isNearest_ofDecimal number hfinite⟩
  · rintro ⟨hfinite, hnegative, hnearest⟩
    refine ⟨hfinite, hnearest.unique (isNearest_ofDecimal number hfinite) ?_⟩
    rw [hnegative, negative_ofDecimal]

end Binary64

end Interpolation
