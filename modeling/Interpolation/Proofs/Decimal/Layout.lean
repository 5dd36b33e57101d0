import Interpolation.Proofs.Binary64.Nearest
import Interpolation.Proofs.Decimal.Numeral

/-! A decimal may be spelled with a point, with an exponent or with both. Each spelling is read as a
number equal to the one that was written, though perhaps expanded. -/

namespace Interpolation.Decimal

/-- What may stand behind the last digit: nothing, or an exponent. -/
structure Ending (rest : List Char) (exponent : Int) : Prop where
  read : exponent? rest = some exponent
  digit : rest.head?.any Char.isDigit = false
  point : rest.head? ≠ some '.'

theorem Ending.nil : Ending [] 0 :=
  ⟨rfl, rfl, by simp⟩

theorem Ending.exponent (n : Int) : Ending ('e' :: (toString n).toList) n :=
  ⟨integer?_toString n, rfl, by simp⟩

theorem splitFraction_of_ne {text : List Char} (h : text.head? ≠ some '.') :
    splitFraction text = ([], text) := by
  cases text with
  | nil => rfl
  | cons c rest =>
    rw [splitFraction]
    rintro rest heq
    rw [(List.cons.inj heq).1] at h
    exact h rfl

theorem splitFraction_point {fraction rest : List Char} (hfraction : IsDigits fraction)
    (hrest : rest.head?.any Char.isDigit = false) :
    splitFraction ('.' :: (fraction ++ rest)) = (fraction, rest) := by
  rw [splitFraction, takeWhile_isDigit hfraction rest hrest, dropWhile_isDigit hfraction rest hrest]

theorem ofText?_eq {text body : List Char} {negative : Bool}
    (hsign : splitSign text = (negative, body)) {whole fraction ending : List Char}
    (hwhole : body.takeWhile Char.isDigit = whole)
    (hsplit : splitFraction (body.dropWhile Char.isDigit) = (fraction, ending))
    (hne : whole ≠ [] ∨ fraction ≠ []) {exponent : Int}
    (hexponent : exponent? ending = some exponent) :
    ofText? text =
      some ⟨negative, Nat.ofDigitChars 10 (whole ++ fraction) 0, exponent - fraction.length⟩ := by
  have hempty : (whole.isEmpty && fraction.isEmpty) = false := by
    rw [Bool.and_eq_false_iff, List.isEmpty_eq_false_iff, List.isEmpty_eq_false_iff]
    exact hne
  unfold ofText?
  simp only [hsign, hwhole, hsplit, hexponent, hempty, Bool.false_eq_true, if_false,
    Option.map_some]

variable {whole fraction rest : List Char} {exponent : Int}

theorem ofText?_whole (hwhole : IsDigits whole) (hne : whole ≠ []) (hrest : Ending rest exponent) :
    ofText? (whole ++ rest) = some ⟨false, Nat.ofDigitChars 10 whole 0, exponent⟩ := by
  have hsplit : splitFraction ((whole ++ rest).dropWhile Char.isDigit) = ([], rest) := by
    rw [dropWhile_isDigit hwhole rest hrest.digit, splitFraction_of_ne hrest.point]
  have h := ofText?_eq (splitSign_of_isDigits hwhole rest hne)
    (takeWhile_isDigit hwhole rest hrest.digit) hsplit (.inl hne) hrest.read
  simpa using h

theorem ofText?_point (hwhole : IsDigits whole) (hne : whole ≠ []) (hfraction : IsDigits fraction)
    (hrest : Ending rest exponent) : ofText? (whole ++ '.' :: (fraction ++ rest)) =
      some ⟨false, Nat.ofDigitChars 10 (whole ++ fraction) 0, exponent - fraction.length⟩ := by
  have hsplit : splitFraction ((whole ++ '.' :: (fraction ++ rest)).dropWhile Char.isDigit) =
      (fraction, rest) := by
    rw [dropWhile_isDigit hwhole _ rfl, splitFraction_point hfraction hrest.digit]
  exact ofText?_eq (splitSign_of_isDigits hwhole _ hne) (takeWhile_isDigit hwhole _ rfl) hsplit
    (.inl hne) hrest.read

theorem ofText?_negative {c : Char} {text : List Char} (hc : c.isDigit = true) {n : Nat} {e : Int}
    (h : ofText? (c :: text) = some ⟨false, n, e⟩) :
    ofText? ('-' :: c :: text) = some ⟨true, n, e⟩ := by
  have hsign := @splitSign_of_isDigits [c] (by simpa [IsDigits] using hc) text
    (List.cons_ne_nil c [])
  rw [List.singleton_append] at hsign
  unfold ofText? at h ⊢
  simp only [hsign] at h
  simp only [splitSign]
  split
  · rename_i hempty
    rw [if_pos hempty] at h
    cases h
  · rename_i hempty
    rw [if_neg hempty] at h
    obtain ⟨exponent, hexponent, heq⟩ := Option.map_eq_some_iff.mp h
    cases heq
    rw [hexponent, Option.map_some]

/-- The digits with zeros in front, one more at least than there are places behind the point. -/
def padded (coefficient places : Nat) : List Char :=
  List.replicate (places + 1 - (Nat.toDigits 10 coefficient).length) '0' ++
    Nat.toDigits 10 coefficient

theorem isDigits_padded (coefficient places : Nat) : IsDigits (padded coefficient places) :=
  (isDigits_zeros _).append (isDigits_toDigits coefficient)

theorem length_padded (coefficient places : Nat) : places < (padded coefficient places).length := by
  simp only [padded, List.length_append, List.length_replicate]
  omega

theorem ofDigitChars_padded (coefficient places : Nat) :
    Nat.ofDigitChars 10 (padded coefficient places) 0 = coefficient := by
  rw [padded, Nat.ofDigitChars_append, Nat.ofDigitChars_replicate_zero, Nat.mul_zero,
    Nat.ofDigitChars_ten_toDigits]

theorem positional_of_nonneg {coefficient : Nat} {exponent : Int} (h : 0 ≤ exponent) :
    positional coefficient exponent =
      (Nat.toDigits 10 coefficient ++ List.replicate exponent.toNat '0') ++ '.' :: ['0'] := by
  simp [positional, h]

theorem positional_of_neg {coefficient : Nat} {exponent : Int} (h : exponent < 0) :
    positional coefficient exponent =
      (padded coefficient (-exponent).toNat).take
          ((padded coefficient (-exponent).toNat).length - (-exponent).toNat) ++
        '.' :: (padded coefficient (-exponent).toNat).drop
          ((padded coefficient (-exponent).toNat).length - (-exponent).toNat) :=
  if_neg (by omega)

theorem exists_positional (coefficient : Nat) (exponent : Int) : ∃ whole fraction,
    IsDigits whole ∧ whole ≠ [] ∧ IsDigits fraction ∧ fraction ≠ [] ∧
    positional coefficient exponent = whole ++ '.' :: fraction ∧
    Binary64.nearestDecimal (Nat.ofDigitChars 10 (whole ++ fraction) 0) (-fraction.length) =
      Binary64.nearestDecimal coefficient exponent := by
  -- A nonnegative exponent is spelled by zeros, and one more stands behind the point.
  by_cases h : 0 ≤ exponent
  · refine ⟨_, _, (isDigits_toDigits _).append (isDigits_zeros _), by simp, isDigits_zeros 1,
      List.cons_ne_nil _ _, positional_of_nonneg h, ?_⟩
    have hvalue : Nat.ofDigitChars 10 (Nat.toDigits 10 coefficient ++
        List.replicate exponent.toNat '0' ++ List.replicate 1 '0') 0 =
        coefficient * 10 ^ (exponent.toNat + 1) := by
      rw [List.append_assoc, ← List.replicate_add, Nat.ofDigitChars_append,
        Nat.ofDigitChars_ten_toDigits, Nat.ofDigitChars_replicate_zero, Nat.mul_comm]
    have hexponent : -((List.replicate 1 '0').length : Int) + (exponent.toNat + 1 : Nat) =
        exponent := by
      rw [List.length_replicate]
      omega
    rw [hvalue, Binary64.nearestDecimal_mul_pow, hexponent]
  · have hneg : exponent < 0 := Int.not_le.mp h
    have hlength := length_padded coefficient (-exponent).toNat
    have hdigits := isDigits_padded coefficient (-exponent).toNat
    refine ⟨_, _, fun c hc => hdigits c (List.mem_of_mem_take hc), ?_,
      fun c hc => hdigits c (List.mem_of_mem_drop hc), ?_, positional_of_neg hneg, ?_⟩
    · apply List.ne_nil_of_length_pos
      rw [List.length_take]
      omega
    · apply List.ne_nil_of_length_pos
      rw [List.length_drop]
      omega
    · have hexponent : -((List.drop ((padded coefficient (-exponent).toNat).length -
          (-exponent).toNat) (padded coefficient (-exponent).toNat)).length : Int) = exponent := by
        rw [List.length_drop]
        omega
      rw [List.take_append_drop, ofDigitChars_padded, hexponent]

theorem contains_plain (coefficient : Nat) (exponent : Int) :
    (plain coefficient exponent).contains '.' = decide (exponent < 0) := by
  by_cases h : exponent < 0
  · obtain ⟨whole, fraction, -, -, -, -, htext, -⟩ := exists_positional coefficient exponent
    rw [plain, if_neg (by omega), htext]
    simp [h]
  · have hdigits : IsDigits (Nat.toDigits 10 coefficient ++ List.replicate exponent.toNat '0') :=
      (isDigits_toDigits coefficient).append (isDigits_zeros exponent.toNat)
    rw [plain, if_pos (Int.not_lt.mp h), decide_eq_false h]
    by_contra hpoint
    have hmem := List.contains_iff_mem.mp (Bool.of_not_eq_false hpoint)
    exact absurd (hdigits '.' hmem) (by decide)

/-- The fraction that plain notation drops is put back. -/
theorem plain_fraction (coefficient : Nat) (exponent : Int) :
    plain coefficient exponent ++ (if exponent < 0 then [] else ['.', '0']) =
      positional coefficient exponent := by
  by_cases h : exponent < 0
  · rw [plain, if_neg (by omega), if_pos h, List.append_nil]
  · rw [plain, if_pos (Int.not_lt.mp h), if_neg h, positional_of_nonneg (Int.not_lt.mp h)]

end Interpolation.Decimal
