import Interpolation.Proofs.Binary64.Bits
import Interpolation.Proofs.Binary64.Shortest
import Interpolation.Proofs.Yaml.Meaning
import Interpolation.Settings.Writer

/-! A float is written as a text that means the same float. Only a NaN loses its payload. -/

namespace Interpolation.Settings

open Yaml Yaml.Meaning

/-- A written magnitude: it begins with a digit, has a mark that no integer has, and reads back. -/
structure Writes (text : List Char) (magnitude : Nat) : Prop where
  first : ∃ c rest, text = c :: rest ∧ c.isDigit = true
  numeral : IsNumeral text
  mark : HasMark text
  read : ∃ n e, Decimal.ofText? text = some ⟨false, n, e⟩ ∧ Binary64.nearestDecimal n e = magnitude

theorem writes_positional (coefficient : Nat) (exponent : Int) :
    Writes (Decimal.positional coefficient exponent)
      (Binary64.nearestDecimal coefficient exponent) := by
  obtain ⟨whole, fraction, hwhole, hne, hfraction, -, htext, hvalue⟩ :=
    Decimal.exists_positional coefficient exponent
  obtain ⟨c, tail, rfl⟩ := List.exists_cons_of_ne_nil hne
  have hread := Decimal.ofText?_point hwhole hne hfraction Decimal.Ending.nil
  rw [List.append_nil] at hread
  rw [htext]
  refine ⟨⟨c, _, rfl, hwhole c List.mem_cons_self⟩, ⟨by simp, ?_⟩, Or.inl (by simp), _, _,
    hread, ?_⟩
  · intro d hd
    rcases List.mem_append.mp hd with hd | hd
    · exact isNumeralChar_of_isDigit (hwhole d hd)
    · rcases List.mem_cons.mp hd with rfl | hd
      · rfl
      · exact isNumeralChar_of_isDigit (hfraction d hd)
  · rw [Int.zero_sub]
    exact hvalue

theorem exponential_of_single {coefficient : Nat} {exponent : Int} {c : Char}
    (h : Nat.toDigits 10 coefficient = [c]) :
    exponential coefficient exponent = [c] ++ 'e' :: (toString exponent).toList := by
  have hexponent : exponent + ([c].length : Nat) - 1 = exponent := by
    rw [List.length_singleton]
    omega
  unfold exponential
  rw [h]
  simp only [hexponent]

theorem exponential_of_cons {coefficient : Nat} {exponent : Int} {c d : Char} {rest : List Char}
    (h : Nat.toDigits 10 coefficient = c :: d :: rest) :
    exponential coefficient exponent =
      [c] ++ '.' :: (d :: rest ++ 'e' :: (toString (exponent + (d :: rest).length)).toList) := by
  have hexponent : exponent + ((c :: d :: rest).length : Nat) - 1 =
      exponent + ((d :: rest).length : Nat) := by
    simp only [List.length_cons]
    omega
  unfold exponential
  rw [h]
  simp only [hexponent]
  rfl

theorem isNumeralChar_exponent {n : Int} {c : Char} (h : c ∈ 'e' :: (toString n).toList) :
    isNumeralChar c = true := by
  rcases List.mem_cons.mp h with rfl | h
  · rfl
  · exact (isNumeral_toString n).2 c h

theorem writes_exponential (coefficient : Nat) (exponent : Int) :
    Writes (exponential coefficient exponent) (Binary64.nearestDecimal coefficient exponent) := by
  have hdigits := isDigits_toDigits coefficient
  have hvalue := @Nat.ofDigitChars_ten_toDigits coefficient
  -- A single digit has no point behind it, so it is the exponent that marks the float.
  match h : Nat.toDigits 10 coefficient with
  | [] => exact absurd h Nat.toDigits_ne_nil
  | [c] =>
    rw [h] at hdigits hvalue
    have hc : c.isDigit = true := hdigits c List.mem_cons_self
    have hread := Decimal.ofText?_whole hdigits (List.cons_ne_nil c [])
      (Decimal.Ending.exponent exponent)
    rw [hvalue] at hread
    rw [exponential_of_single h]
    refine ⟨⟨c, _, rfl, hc⟩, ⟨by simp, ?_⟩, Or.inr (by simp), _, _, hread, rfl⟩
    intro d hd
    rcases List.mem_cons.mp hd with rfl | hd
    · exact isNumeralChar_of_isDigit hc
    · exact isNumeralChar_exponent hd
  | c :: d :: rest =>
    rw [h] at hdigits hvalue
    have hc : c.isDigit = true := hdigits c List.mem_cons_self
    have htail : IsDigits (d :: rest) := fun x hx => hdigits x (List.mem_cons_of_mem c hx)
    have hread := @Decimal.ofText?_point [c] (d :: rest) _ _ (by simpa [IsDigits] using hc)
      (List.cons_ne_nil c []) htail (Decimal.Ending.exponent (exponent + (d :: rest).length))
    rw [List.singleton_append, List.singleton_append, hvalue, Int.add_sub_cancel] at hread
    rw [exponential_of_cons h]
    refine ⟨⟨c, _, rfl, hc⟩, ⟨by simp, ?_⟩, Or.inl (by simp), _, _, hread, rfl⟩
    intro x hx
    rcases List.mem_cons.mp hx with rfl | hx
    · exact isNumeralChar_of_isDigit hc
    · rcases List.mem_cons.mp hx with rfl | hx
      · rfl
      · rcases List.mem_append.mp hx with hx | hx
        · exact isNumeralChar_of_isDigit (htail x hx)
        · exact isNumeralChar_exponent hx

theorem writes_magnitudeText {m : Nat} (h : m < Binary64.infinity) :
    Writes (magnitudeText m) m := by
  have hshortest := Binary64.nearestDecimal_shortest h .even
  unfold magnitudeText
  split
  rename_i coefficient exponent heq
  rw [heq] at hshortest
  dsimp only at hshortest ⊢
  split
  · exact hshortest ▸ writes_positional coefficient exponent
  · exact hshortest ▸ writes_exponential coefficient exponent

theorem floatText_of_finite {x : Binary64} (h : x.isFinite = true) :
    floatText x =
      if x.negative then '-' :: magnitudeText x.magnitude else magnitudeText x.magnitude := by
  have hnan := Binary64.isNaN_of_isFinite h
  unfold floatText
  simp only [hnan, h, Bool.false_eq_true, if_false, if_true]

theorem floatText_numeral {x : Binary64} (h : x.isFinite = true) :
    IsNumeral (floatText x) ∧ HasMark (floatText x) ∧
      ∃ number, Decimal.ofText? (floatText x) = some number ∧ Binary64.ofDecimal number = x := by
  have hwrites := writes_magnitudeText (Binary64.isFinite_iff.mp h)
  obtain ⟨n, e, hread, hvalue⟩ := hwrites.read
  rw [floatText_of_finite h]
  -- The sign is read off before the digits, so it only has to be put in front.
  cases hnegative : x.negative with
  | false =>
    have hx := Binary64.ofDecimal_eq hvalue
    rw [hnegative] at hx
    exact ⟨hwrites.numeral, hwrites.mark, _, hread, hx⟩
  | true =>
    have hx := Binary64.ofDecimal_eq hvalue
    rw [hnegative] at hx
    obtain ⟨c, rest, htext, hc⟩ := hwrites.first
    rw [htext] at hread
    have hnegated := Decimal.ofText?_negative hc hread
    rw [← htext] at hnegated
    refine ⟨⟨List.cons_ne_nil _ _, ?_⟩, ?_, _, hnegated, hx⟩
    · intro d hd
      rcases List.mem_cons.mp hd with rfl | hd
      · rfl
      · exact hwrites.numeral.2 d hd
    · exact hwrites.mark.imp (List.mem_cons_of_mem _) (List.mem_cons_of_mem _)

theorem ofPlain?_finite {x : Binary64} (h : x.isFinite = true) :
    ofPlain? (String.ofList (floatText x)) = some (.float x) := by
  obtain ⟨hnumeral, hmark, number, hread, hx⟩ := floatText_numeral h
  have hlist := @String.toList_ofList (floatText x)
  rw [← hlist] at hnumeral hmark hread
  rw [← hx] at h
  rw [ofPlain?_decimal hnumeral hmark hread h, hx]

theorem floatText_of_isNaN {x : Binary64} (h : x.isNaN = true) : floatText x = ".nan".toList := by
  unfold floatText
  rw [h]
  rfl

theorem floatText_of_infinite {x : Binary64} (hfinite : x.isFinite = false)
    (hnan : x.isNaN = false) :
    floatText x = if x.negative then "-.inf".toList else ".inf".toList := by
  unfold floatText
  simp only [hfinite, hnan, Bool.false_eq_true, if_false]
  rfl

theorem ofPlain?_inf :
    ofPlain? (String.ofList ".inf".toList) =
      some (.float (.ofMagnitude false Binary64.infinity)) := rfl

theorem ofPlain?_negative_inf :
    ofPlain? (String.ofList "-.inf".toList) =
      some (.float (.ofMagnitude true Binary64.infinity)) := rfl

theorem ofPlain?_nan : ofPlain? (String.ofList ".nan".toList) = some (.float .nan) := rfl

theorem ofPlain?_infinite {x : Binary64} (hfinite : x.isFinite = false) (hnan : x.isNaN = false) :
    ofPlain? (String.ofList (floatText x)) = some (.float x) := by
  have hx := Binary64.ofMagnitude_magnitude x
  rw [Binary64.magnitude_eq_infinity hfinite hnan] at hx
  rw [floatText_of_infinite hfinite hnan]
  cases hnegative : x.negative with
  | false =>
    rw [hnegative] at hx
    exact hx ▸ ofPlain?_inf
  | true =>
    rw [hnegative] at hx
    exact hx ▸ ofPlain?_negative_inf

/-- A float that stands plainly is that float, and any NaN is the one NaN. -/
theorem ofPlain?_floatText (x : Binary64) : ofPlain? (String.ofList (floatText x)) =
    some (.float (if x.isNaN then .nan else x)) := by
  cases hnan : x.isNaN with
  | true =>
    rw [floatText_of_isNaN hnan]
    exact ofPlain?_nan
  | false =>
    cases hfinite : x.isFinite with
    | true => exact ofPlain?_finite hfinite
    | false => exact ofPlain?_infinite hfinite hnan

theorem ofPlain?_truthText (b : Bool) :
    ofPlain? (String.ofList (truthText b)) = some (.boolean b) := by
  cases b with
  | false => rfl
  | true => rfl

end Interpolation.Settings
