import Interpolation.Context
import Interpolation.Proofs.Binary64.Bits
import Interpolation.Proofs.Name

/-! Floats are compared as numbers, so that no NaN is equal to itself and the two zeros are equal.
But for that equal values are the same, and have the same text. Contexts are equal when they bind
the same names, to equal values, and have equal defaults. -/

namespace Interpolation

namespace Value

def isNaN : Value → Bool
  | float x _ => x.isNaN
  | _ => false

theorem beq_self (value : Value) : (value == value) = !value.isNaN := by
  cases value with
  | text content => exact beq_self_eq_true content
  | integer n source =>
    exact Bool.and_eq_true_iff.mpr ⟨beq_self_eq_true n, beq_self_eq_true source⟩
  | float x source =>
    change ((x == x) && (source == source)) = !x.isNaN
    rw [Binary64.beq_self, beq_self_eq_true, Bool.and_true]
  | boolean b => exact beq_self_eq_true b

/-- A zero, of either sign, of which no text was kept. -/
def IsBareZero (value : Value) : Prop :=
  ∃ negative, value = ofFloat (.ofMagnitude negative 0)

theorem IsBareZero.source? {value : Value} (h : value.IsBareZero) : value.source? = none := by
  obtain ⟨negative, rfl⟩ := h
  rfl

theorem toText_of_source {value : Value} {raw : String} (h : value.source? = some raw) :
    value.toText = raw := by
  cases value with
  | integer n source =>
    obtain rfl : source = some raw := h
    rfl
  | float x source =>
    obtain rfl : source = some raw := h
    rfl
  | _ => cases h

theorem eq_or_zeros_of_beq {value other : Value} (h : (value == other) = true) :
    value = other ∨ ∃ negative source, value = float (.ofMagnitude negative 0) source ∧
      other = float (.ofMagnitude (!negative) 0) source := by
  -- Values of different kinds are never equal, and all but floats are equal only to themselves.
  cases value with
  | text content =>
    cases other with
    | text content' => exact .inl (congrArg text (beq_iff_eq.mp h))
    | _ => cases h
  | integer n source =>
    cases other with
    | integer n' source' =>
      obtain ⟨hn, hsource⟩ := Bool.and_eq_true_iff.mp h
      left
      rw [beq_iff_eq.mp hn, beq_iff_eq.mp hsource]
    | _ => cases h
  | float x source =>
    cases other with
    | float x' source' =>
      obtain ⟨hx, hsource⟩ := Bool.and_eq_true_iff.mp h
      obtain rfl : source = source' := beq_iff_eq.mp hsource
      rcases Binary64.eq_or_zeros_of_beq hx with rfl | ⟨negative, rfl, rfl⟩
      · exact .inl rfl
      · exact .inr ⟨negative, source, rfl, rfl⟩
    | _ => cases h
  | boolean b =>
    cases other with
    | boolean b' => exact .inl (congrArg boolean (beq_iff_eq.mp h))
    | _ => cases h

theorem toText_zero_ne (negative : Bool) :
    (ofFloat (.ofMagnitude negative 0)).toText ≠ (ofFloat (.ofMagnitude (!negative) 0)).toText := by
  cases negative <;> decide +kernel

/-- Equal values have the same text, except for zeros of either sign of which no text was kept. -/
theorem toText_eq_iff_of_beq {value other : Value} (h : (value == other) = true) :
    value.toText = other.toText ↔ (value.IsBareZero → value = other) := by
  rcases eq_or_zeros_of_beq h with rfl | ⟨negative, source, hvalue, hother⟩
  · exact iff_of_true rfl fun _ => rfl
  · cases source with
    | some raw =>
      have hsource : value.source? = some raw := congrArg source? hvalue
      have hsource' : other.source? = some raw := congrArg source? hother
      apply iff_of_true
      · rw [toText_of_source hsource, toText_of_source hsource']
      · intro hzero
        rw [hzero.source?] at hsource
        cases hsource
    | none =>
      have hne : value.toText ≠ other.toText := by
        rw [hvalue, hother]
        exact toText_zero_ne negative
      exact iff_of_false hne fun hsame => hne (congrArg toText (hsame ⟨negative, hvalue⟩))

theorem map_toText_eq_of_beq {value? other? : Option Value} (h : (value? == other?) = true)
    (hzero : ∀ value, value? = some value → value.IsBareZero → other? = some value) :
    value?.map toText = other?.map toText := by
  cases value? with
  | none =>
    cases other? with
    | none => rfl
    | some other => cases h
  | some value =>
    cases other? with
    | none => cases h
    | some other =>
      apply congrArg some
      apply (toText_eq_iff_of_beq h).mpr
      intro hbare
      exact (Option.some.inj (hzero value rfl hbare)).symm

end Value

namespace Context

variable {first second : Context}

theorem beq_iff : (first == second) = true ↔
    (∀ name, (first.get? name == second.get? name) = true) ∧
      (first.default == second.default) = true := by
  change ((first.bindings == second.bindings) && (first.default == second.default)) = true ↔ _
  rw [Bool.and_eq_true_iff, NameMap.beq_iff]
  exact Iff.rfl

theorem beq_self_iff {context : Context} : (context == context) = true ↔
    context.default.isNaN = false ∧
      ∀ name value, context.get? name = some value → value.isNaN = false := by
  change ((context.bindings == context.bindings) && (context.default == context.default)) = true ↔ _
  simp only [Bool.and_eq_true_iff, NameMap.beq_self_iff, Value.beq_self, Bool.not_eq_true']
  exact and_comm

theorem contains_eq_of_beq (h : (first == second) = true) (name : String) :
    first.contains name = second.contains name :=
  NameMap.isSome_eq_of_beq ((beq_iff.mp h).1 name)

end Context

end Interpolation
