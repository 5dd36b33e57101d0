import Interpolation.Binary64
import Interpolation.Proofs.Binary64.Nearest

/-! Whatever grid it is found on, and whichever way ties go, the decimal chosen for a finite float
is rounded to that float. That none is shorter is not shown here. -/

namespace Interpolation.Binary64

theorem nearestDecimal_of_onGrid {tie : Tie} {magnitude count : Nat} {number : Nat × Int}
    (h : onGrid tie magnitude count = some number) :
    nearestDecimal number.1 number.2 = magnitude := by
  unfold onGrid at h
  obtain ⟨coefficient, hfind, hnumber⟩ := Option.map_eq_some_iff.mp h
  have hcheck := List.find?_some hfind
  rw [← hnumber]
  exact beq_iff_eq.mp hcheck

theorem nearestDecimal_dropZeros (count : Nat) (number : Nat × Int) :
    nearestDecimal (dropZeros count number).1 (dropZeros count number).2 =
      nearestDecimal number.1 number.2 := by
  induction count generalizing number with
  | zero => rfl
  | succ count ih =>
    obtain ⟨coefficient, exponent⟩ := number
    unfold dropZeros
    split
    · rename_i hzero
      have hmod : coefficient % 10 = 0 := beq_iff_eq.mp hzero
      have hten : coefficient / 10 * 10 ^ 1 = coefficient := by omega
      have hexpand := nearestDecimal_mul_pow (coefficient / 10) 1 exponent
      rw [hten] at hexpand
      rw [ih, hexpand]
      rfl
    · rfl

theorem nearestDecimal_zero (exponent : Int) : nearestDecimal 0 exponent = 0 :=
  if_pos rfl

theorem shortest_zero (tie : Tie) : shortest tie 0 = (0, 0) :=
  if_pos rfl

/-- Before the last zeros are dropped: the number of the first grid that has one. -/
def found (tie : Tie) (magnitude : Nat) : Nat × Int :=
  ((List.range 17).findSome? fun count => onGrid tie magnitude (count + 1)).getD
    (units magnitude * Nat.pow 5 1074, -1074)

theorem shortest_of_ne_zero {magnitude : Nat} (h : magnitude ≠ 0) (tie : Tie) :
    shortest tie magnitude = dropZeros (Nat.toDigits 10 (found tie magnitude).1).length
      (found tie magnitude) :=
  if_neg (by simpa using h)

theorem nearestDecimal_found {magnitude : Nat} (h : magnitude < infinity) (tie : Tie) :
    nearestDecimal (found tie magnitude).1 (found tie magnitude).2 = magnitude := by
  unfold found
  cases hgrid : (List.range 17).findSome? fun count => onGrid tie magnitude (count + 1) with
  | some number =>
    obtain ⟨count, -, hcount⟩ := List.exists_of_findSome?_eq_some hgrid
    rw [Option.getD_some]
    exact nearestDecimal_of_onGrid hcount
  | none =>
    rw [Option.getD_none]
    exact nearestDecimal_units h

theorem nearestDecimal_shortest {magnitude : Nat} (h : magnitude < infinity) (tie : Tie) :
    nearestDecimal (shortest tie magnitude).1 (shortest tie magnitude).2 = magnitude := by
  by_cases hzero : magnitude = 0
  · rw [hzero, shortest_zero, nearestDecimal_zero]
  · rw [shortest_of_ne_zero hzero, nearestDecimal_dropZeros, nearestDecimal_found h]

end Interpolation.Binary64
