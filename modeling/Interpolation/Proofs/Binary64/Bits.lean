import Interpolation.Binary64

/-! A float is its sign and its magnitude. -/

namespace Interpolation.Binary64

theorem ofMagnitude_magnitude (x : Binary64) : ofMagnitude x.negative x.magnitude = x := by
  obtain ⟨bits⟩ := x
  have hlow : BitVec.ofNat 63 (bits.setWidth 63).toNat = bits.setWidth 63 := BitVec.ofNat_toNat 63 _
  have hbits : BitVec.ofBool bits.msb ++ bits.setWidth 63 = bits := by
    rw [BitVec.ofBool_append]
    exact BitVec.cons_msb_setWidth bits
  unfold ofMagnitude magnitude negative
  rw [hlow, hbits]

theorem negative_ofMagnitude (negative : Bool) (m : Nat) :
    (ofMagnitude negative m).negative = negative := by
  unfold ofMagnitude Binary64.negative
  rw [BitVec.msb_append]
  simp

theorem magnitude_ofMagnitude (negative : Bool) {m : Nat} (h : m ≤ infinity) :
    (ofMagnitude negative m).magnitude = m := by
  have hbits : infinity < 2 ^ 63 := by decide
  have hlow : (BitVec.ofNat 63 m).toNat = m := by
    rw [BitVec.toNat_ofNat, Nat.mod_eq_of_lt (Nat.lt_of_le_of_lt h hbits)]
  unfold ofMagnitude magnitude
  rw [BitVec.setWidth_append]
  simpa using hlow

theorem beq_self (x : Binary64) : (x == x) = !x.isNaN := by
  change (!x.isNaN && !x.isNaN && (x.bits == x.bits || (x.magnitude == 0 && x.magnitude == 0))) = _
  rw [Bool.and_self, beq_self_eq_true, Bool.true_or, Bool.and_true]

/-- Equal numbers are the same float, or zeros of either sign. -/
theorem eq_or_zeros_of_beq {x y : Binary64} (h : (x == y) = true) :
    x = y ∨ ∃ negative, x = ofMagnitude negative 0 ∧ y = ofMagnitude (!negative) 0 := by
  change (!x.isNaN && !y.isNaN &&
    (x.bits == y.bits || (x.magnitude == 0 && y.magnitude == 0))) = true at h
  obtain ⟨-, hsame⟩ := Bool.and_eq_true_iff.mp h
  rcases Bool.or_eq_true_iff.mp hsame with hbits | hzeros
  · left
    cases x
    cases y
    exact congrArg mk (beq_iff_eq.mp hbits)
  · obtain ⟨hx, hy⟩ := Bool.and_eq_true_iff.mp hzeros
    have hfirst := ofMagnitude_magnitude x
    have hsecond := ofMagnitude_magnitude y
    rw [beq_iff_eq.mp hx] at hfirst
    rw [beq_iff_eq.mp hy] at hsecond
    by_cases hsign : y.negative = x.negative
    · left
      rw [← hfirst, ← hsecond, hsign]
    · right
      exact ⟨x.negative, hfirst.symm, by rw [← Bool.eq_not.mpr hsign, hsecond]⟩

theorem ofDecimal_eq {x : Binary64} {n : Nat} {e : Int} (h : nearestDecimal n e = x.magnitude) :
    ofDecimal ⟨x.negative, n, e⟩ = x := by
  unfold ofDecimal
  rw [h, ofMagnitude_magnitude]

theorem isFinite_iff {x : Binary64} : x.isFinite = true ↔ x.magnitude < infinity := by
  simp [isFinite]

theorem magnitude_eq_infinity {x : Binary64} (hfinite : x.isFinite = false)
    (hnan : x.isNaN = false) :
    x.magnitude = infinity := by
  have hge : ¬ x.magnitude < infinity := by simpa [isFinite] using hfinite
  have hle : ¬ infinity < x.magnitude := by simpa [isNaN] using hnan
  omega

theorem isNaN_of_isFinite {x : Binary64} (h : x.isFinite = true) : x.isNaN = false := by
  have hlt := isFinite_iff.mp h
  simp only [isNaN, decide_eq_false_iff_not]
  omega

theorem isNaN_nan : nan.isNaN = true := by
  decide

end Interpolation.Binary64
