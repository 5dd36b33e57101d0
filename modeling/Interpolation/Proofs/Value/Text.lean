import Interpolation.Proofs.Binary64.Shortest
import Interpolation.Proofs.Context.Equality
import Interpolation.Proofs.Value.Recognition

/-! Recognition keeps the text, so no two texts are recognised as equal values. The other way round,
a number is written as a text in which the same number is recognised. -/

namespace Interpolation.Value

open Decimal

theorem toText_recognize (raw : String) : (recognize raw).toText = raw := by
  generalize hvalue : recognize raw = value
  cases recognize_eq_iff.mp hvalue with
  | boolean b h => exact h.symm
  | integer n h => rfl
  | float number hinteger h => rfl
  | text htruth hinteger hfloat => rfl

theorem isFinite_of_recognize {raw : String} {x : Binary64} {source : Option String}
    (h : recognize raw = .float x source) : x.isFinite = true := by
  obtain ⟨-, -, number, -, -, hnearest⟩ := recognize_eq_float_iff.mp h
  exact hnearest.finite

theorem source?_of_recognize {raw : String} {x : Binary64} {source : Option String}
    (h : recognize raw = .float x source) : source = some raw :=
  (recognize_eq_float_iff.mp h).1

theorem recognize_beq_self (raw : String) : (recognize raw == recognize raw) = true := by
  rw [beq_self]
  cases h : recognize raw with
  | float x source =>
    have hnan := Binary64.isNaN_of_isFinite (isFinite_of_recognize h)
    rw [isNaN, hnan]
    rfl
  | _ => rfl

theorem not_isBareZero_recognize (raw : String) : ¬ (recognize raw).IsBareZero := by
  rintro ⟨negative, hzero⟩
  cases source?_of_recognize hzero

theorem recognize_beq_iff {raw other : String} :
    (recognize raw == recognize other) = true ↔ raw = other := by
  constructor
  · intro h
    have htext := (toText_eq_iff_of_beq h).mpr fun hzero =>
      absurd hzero (not_isBareZero_recognize raw)
    rwa [toText_recognize, toText_recognize] at htext
  · rintro rfl
    exact recognize_beq_self raw

theorem exists_toText {x : Binary64} (h : x.isFinite = true) : ∃ coefficient exponent,
    x.toText = (if x.negative then ['-'] else []) ++ plain coefficient exponent ∧
      Binary64.nearestDecimal coefficient exponent = x.magnitude := by
  refine ⟨_, _, ?_, Binary64.nearestDecimal_shortest (Binary64.isFinite_iff.mp h) .up⟩
  unfold Binary64.toText
  rw [Binary64.isNaN_of_isFinite h, h]
  cases x.negative <;> rfl

theorem exists_floatText {x : Binary64} (h : x.isFinite = true) : ∃ coefficient exponent,
    floatText x = (if x.negative then ['-'] else []) ++ positional coefficient exponent ∧
      Binary64.nearestDecimal coefficient exponent = x.magnitude := by
  obtain ⟨coefficient, exponent, htext, hnearest⟩ := exists_toText h
  refine ⟨coefficient, exponent, ?_, hnearest⟩
  have hpoint : x.toText.contains '.' = decide (exponent < 0) := by
    rw [htext, ← contains_plain coefficient exponent]
    cases x.negative <;> simp
  unfold floatText
  dsimp only
  rw [← plain_fraction, ← List.append_assoc, ← htext, hpoint, h]
  by_cases hexponent : exponent < 0
  · simp [hexponent]
  · simp [hexponent]

theorem recognize_toText_ofInteger (n : Int64) :
    recognize (ofInteger n).toText = .integer n (some (ofInteger n).toText) := by
  have hnumeral : IntegerNumeral (ofInteger n).toText.toList n.toInt :=
    Decimal.integer?_eq_some_iff.mp (integer?_toString n.toInt)
  have hspells : SpellsInteger (ofInteger n).toText n.toInt :=
    ⟨hnumeral, n.le_toInt, Int.le_sub_one_of_lt n.toInt_lt⟩
  exact recognize_eq_iff.mpr (.integer n hspells)

theorem recognize_toText_ofFloat {x : Binary64} (h : x.isFinite = true) :
    recognize (ofFloat x).toText = .float x (some (ofFloat x).toText) ∧
    ∃ whole fraction, IsDigits whole ∧ whole ≠ [] ∧ IsDigits fraction ∧ fraction ≠ [] ∧
      (ofFloat x).toText.toList =
        (if x.negative then ['-'] else []) ++ whole ++ '.' :: fraction := by
  obtain ⟨coefficient, exponent, htext, hnearest⟩ := exists_floatText h
  obtain ⟨whole, fraction, hwhole, hne, hfraction, hne', hpositional, hvalue⟩ :=
    exists_positional coefficient exponent
  have hlist : (ofFloat x).toText.toList =
      (if x.negative then ['-'] else []) ++ whole ++ '.' :: fraction := by
    rw [List.append_assoc, ← hpositional, ← htext]
    exact String.toList_ofList
  refine ⟨?_, whole, fraction, hwhole, hne, hfraction, hne', hlist⟩
  have hnumeral := Numeral.mk (.of_negative x.negative) (.point hwhole hne hfraction) .none
  rw [List.append_nil, ← List.append_assoc, ← hlist, Int.zero_sub] at hnumeral
  have hx := Binary64.ofDecimal_eq (hvalue.trans hnearest)
  -- The point keeps the text from being taken for an integer, which would come first.
  have hinteger : ∀ n, ¬ SpellsInteger (ofFloat x).toText n := by
    intro n hn
    apply hn.1.point_not_mem
    rw [hlist]
    simp
  have hspells : SpellsFloat (ofFloat x).toText _ :=
    ⟨hnumeral, (Binary64.isFinite_ofDecimal_iff _).mp (hx.symm ▸ h)⟩
  have hrecognized := Recognized.float _ hinteger hspells
  rw [hx] at hrecognized
  exact recognize_eq_iff.mpr hrecognized

/-- A constructed value keeps its kind and its payload when its text is recognised: every integer,
every truth value, and every finite float to the bit. A finite float is never written as an integer
or with an exponent. -/
theorem recognize_toText :
    (∀ n, recognize (ofInteger n).toText = .integer n (some (ofInteger n).toText)) ∧
    (∀ b, recognize (boolean b).toText = .boolean b) ∧
    ∀ x, x.isFinite = true →
      recognize (ofFloat x).toText = .float x (some (ofFloat x).toText) ∧
      ∃ whole fraction, IsDigits whole ∧ whole ≠ [] ∧ IsDigits fraction ∧ fraction ≠ [] ∧
        (ofFloat x).toText.toList =
          (if x.negative then ['-'] else []) ++ whole ++ '.' :: fraction :=
  ⟨recognize_toText_ofInteger, fun b => recognize_eq_iff.mpr (.boolean b rfl),
    fun _ => recognize_toText_ofFloat⟩

/-- The negative zero, and the least of all positive floats. -/
theorem recognize_toText_tiny :
    recognize (ofFloat (.ofMagnitude true 0)).toText =
      .float (.ofMagnitude true 0) (some (ofFloat (.ofMagnitude true 0)).toText) ∧
    recognize (ofFloat (.ofMagnitude false 1)).toText =
      .float (.ofMagnitude false 1) (some (ofFloat (.ofMagnitude false 1)).toText) := by
  obtain ⟨-, -, hfloat⟩ := recognize_toText
  exact ⟨(hfloat (.ofMagnitude true 0) (by decide)).1,
    (hfloat (.ofMagnitude false 1) (by decide)).1⟩

example : (ofFloat (.ofMagnitude true 0)).toText = "-0.0" := by decide +kernel

end Interpolation.Value
