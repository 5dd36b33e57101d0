import Interpolation.Proofs.Decimal.Layout

/-! Which texts are numerals, and what they spell, as rules that say nothing about where digits end.
The readers of numerals accept exactly what the grammar derives. -/

namespace Interpolation.Decimal

inductive Sign : List Char → Bool → Prop
  | none : Sign [] false
  | plus : Sign ['+'] false
  | minus : Sign ['-'] true

inductive IntegerNumeral : List Char → Int → Prop
  | digits {sign digits negative} (hsign : Sign sign negative) (hdigits : IsDigits digits)
    (hne : digits ≠ []) :
    IntegerNumeral (sign ++ digits)
      (if negative then -(Nat.ofDigitChars 10 digits 0 : Int) else Nat.ofDigitChars 10 digits 0)

/-- Digits on one side of a point at least, the number that they spell without the point, and how
many of them stand behind it. -/
inductive Mantissa : List Char → Nat → Nat → Prop
  | whole {whole} (hwhole : IsDigits whole) (hne : whole ≠ []) :
    Mantissa whole (Nat.ofDigitChars 10 whole 0) 0
  | point {whole fraction} (hwhole : IsDigits whole) (hne : whole ≠ [])
    (hfraction : IsDigits fraction) :
    Mantissa (whole ++ '.' :: fraction) (Nat.ofDigitChars 10 (whole ++ fraction) 0) fraction.length
  | fraction {fraction} (hfraction : IsDigits fraction) (hne : fraction ≠ []) :
    Mantissa ('.' :: fraction) (Nat.ofDigitChars 10 fraction 0) fraction.length

inductive Exponent : List Char → Int → Prop
  | none : Exponent [] 0
  | small {text n} (h : IntegerNumeral text n) : Exponent ('e' :: text) n
  | capital {text n} (h : IntegerNumeral text n) : Exponent ('E' :: text) n

inductive Numeral : List Char → Decimal → Prop
  | mk {sign mantissa ending negative coefficient places exponent} (hsign : Sign sign negative)
    (hmantissa : Mantissa mantissa coefficient places) (hexponent : Exponent ending exponent) :
    Numeral (sign ++ (mantissa ++ ending)) ⟨negative, coefficient, exponent - places⟩

theorem exists_digit_of_ne_nil {digits : List Char} (h : IsDigits digits) (hne : digits ≠ []) :
    ∃ c ∈ digits, c.isDigit = true := by
  obtain ⟨c, rest, rfl⟩ := List.exists_cons_of_ne_nil hne
  exact ⟨c, List.mem_cons_self, h c List.mem_cons_self⟩

theorem Mantissa.exists_digit {text : List Char} {coefficient places : Nat}
    (h : Mantissa text coefficient places) : ∃ c ∈ text, c.isDigit = true := by
  cases h with
  | whole hwhole hne => exact exists_digit_of_ne_nil hwhole hne
  | point hwhole hne hfraction =>
    obtain ⟨c, hc, hdigit⟩ := exists_digit_of_ne_nil hwhole hne
    exact ⟨c, List.mem_append_left _ hc, hdigit⟩
  | fraction hfraction hne =>
    obtain ⟨c, hc, hdigit⟩ := exists_digit_of_ne_nil hfraction hne
    exact ⟨c, List.mem_cons_of_mem _ hc, hdigit⟩

theorem Numeral.exists_digit {text : List Char} {number : Decimal} (h : Numeral text number) :
    ∃ c ∈ text, c.isDigit = true := by
  obtain ⟨hsign, hmantissa, hexponent⟩ := h
  obtain ⟨c, hc, hdigit⟩ := hmantissa.exists_digit
  exact ⟨c, List.mem_append_right _ (List.mem_append_left _ hc), hdigit⟩

theorem Sign.splitSign {sign : List Char} {negative : Bool} (h : Sign sign negative) {c : Char}
    (hplus : c ≠ '+') (hminus : c ≠ '-') (rest : List Char) :
    splitSign (sign ++ c :: rest) = (negative, c :: rest) := by
  cases h with
  | none => exact splitSign_of_ne hplus hminus rest
  | plus => rfl
  | minus => rfl

theorem Sign.of_negative (negative : Bool) : Sign (if negative then ['-'] else []) negative := by
  cases negative with
  | false => exact .none
  | true => exact .minus

theorem exists_sign (text : List Char) :
    ∃ sign, Sign sign (splitSign text).1 ∧ text = sign ++ (splitSign text).2 := by
  unfold splitSign
  split
  · exact ⟨['+'], .plus, rfl⟩
  · exact ⟨['-'], .minus, rfl⟩
  · exact ⟨[], .none, rfl⟩

theorem integer?_eq_some_iff {text : List Char} {n : Int} :
    integer? text = some n ↔ IntegerNumeral text n := by
  constructor
  · intro h
    obtain ⟨sign, hsign, htext⟩ := exists_sign text
    unfold integer? at h
    dsimp only at h
    split at h
    · rename_i hdigits
      obtain ⟨hne, hdigits⟩ := isDigits_iff.mp hdigits
      rw [htext, ← Option.some.inj h]
      exact .digits hsign hdigits hne
    · cases h
  · rintro ⟨hsign, hdigits, hne⟩
    rename_i sign digits negative
    have hall : isDigits digits = true := isDigits_iff.mpr ⟨hne, hdigits⟩
    obtain ⟨c, rest, rfl⟩ := List.exists_cons_of_ne_nil hne
    have hc := hdigits c List.mem_cons_self
    unfold integer?
    rw [hsign.splitSign (ne_of_isDigit hc rfl) (ne_of_isDigit hc rfl)]
    simp only [hall, if_true]

theorem IntegerNumeral.unique {text : List Char} {m n : Int} (hm : IntegerNumeral text m)
    (hn : IntegerNumeral text n) : m = n :=
  Option.some.inj ((integer?_eq_some_iff.mpr hm).symm.trans (integer?_eq_some_iff.mpr hn))

theorem IntegerNumeral.point_not_mem {text : List Char} {n : Int} (h : IntegerNumeral text n) :
    '.' ∉ text := by
  obtain ⟨hsign, hdigits, hne⟩ := h
  intro hpoint
  rcases List.mem_append.mp hpoint with hpoint | hpoint
  · cases hsign <;> revert hpoint <;> decide
  · exact absurd (hdigits '.' hpoint) (by decide)

theorem exponent?_eq_some_iff {text : List Char} {n : Int} :
    exponent? text = some n ↔ Exponent text n := by
  constructor
  · intro h
    cases text with
    | nil =>
      obtain rfl : 0 = n := Option.some.inj h
      exact .none
    | cons c rest =>
      have hread : (if c == 'e' || c == 'E' then integer? rest else none) = some n := h
      split at hread
      · rename_i hmark
        have hinteger := integer?_eq_some_iff.mp hread
        simp only [Bool.or_eq_true, beq_iff_eq] at hmark
        rcases hmark with rfl | rfl
        · exact .small hinteger
        · exact .capital hinteger
      · cases hread
  · intro h
    cases h with
    | none => rfl
    | small h => exact integer?_eq_some_iff.mpr h
    | capital h => exact integer?_eq_some_iff.mpr h

theorem Exponent.ending {text : List Char} {n : Int} (h : Exponent text n) : Ending text n := by
  refine ⟨exponent?_eq_some_iff.mpr h, ?_, ?_⟩
  · cases h <;> rfl
  · cases h <;> simp

theorem Mantissa.exists_first {text : List Char} {coefficient places : Nat}
    (h : Mantissa text coefficient places) :
    ∃ c rest, text = c :: rest ∧ c ≠ '+' ∧ c ≠ '-' := by
  have hdigits : ∀ {digits : List Char}, IsDigits digits → digits ≠ [] → ∀ more : List Char,
      ∃ c rest, digits ++ more = c :: rest ∧ c ≠ '+' ∧ c ≠ '-' := by
    intro digits hdigits hne more
    obtain ⟨c, rest, rfl⟩ := List.exists_cons_of_ne_nil hne
    have hc := hdigits c List.mem_cons_self
    exact ⟨c, rest ++ more, rfl, ne_of_isDigit hc rfl, ne_of_isDigit hc rfl⟩
  cases h with
  | whole hwhole hne => exact List.append_nil text ▸ hdigits hwhole hne []
  | point hwhole hne hfraction => exact hdigits hwhole hne _
  | fraction hfraction hne => exact ⟨'.', _, rfl, by decide, by decide⟩

theorem Mantissa.exists_split {mantissa ending : List Char} {coefficient places : Nat}
    (h : Mantissa mantissa coefficient places) {exponent : Int} (hending : Ending ending exponent) :
    ∃ whole fraction, (mantissa ++ ending).takeWhile Char.isDigit = whole ∧
      splitFraction ((mantissa ++ ending).dropWhile Char.isDigit) = (fraction, ending) ∧
      (whole ≠ [] ∨ fraction ≠ []) ∧ coefficient = Nat.ofDigitChars 10 (whole ++ fraction) 0 ∧
      places = fraction.length := by
  cases h with
  | whole hwhole hne =>
    refine ⟨mantissa, [], takeWhile_isDigit hwhole _ hending.digit, ?_, .inl hne, by simp, rfl⟩
    rw [dropWhile_isDigit hwhole _ hending.digit, splitFraction_of_ne hending.point]
  | @point whole fraction hwhole hne hfraction =>
    rw [List.append_assoc, List.cons_append]
    refine ⟨whole, fraction, takeWhile_isDigit hwhole _ rfl, ?_, .inl hne, rfl, rfl⟩
    rw [dropWhile_isDigit hwhole _ rfl, splitFraction_point hfraction hending.digit]
  | @fraction fraction hfraction hne =>
    exact ⟨[], fraction, rfl, splitFraction_point hfraction hending.digit, .inr hne, rfl, rfl⟩

theorem ofText?_of_numeral {text : List Char} {number : Decimal} (h : Numeral text number) :
    ofText? text = some number := by
  obtain ⟨hsign, hmantissa, hexponent⟩ := h
  obtain ⟨whole, fraction, hwhole, hsplit, hne, rfl, rfl⟩ :=
    hmantissa.exists_split hexponent.ending
  obtain ⟨c, rest, rfl, hplus, hminus⟩ := hmantissa.exists_first
  exact ofText?_eq (hsign.splitSign hplus hminus _) hwhole hsplit hne hexponent.ending.read

theorem isDigits_takeWhile (text : List Char) : IsDigits (text.takeWhile Char.isDigit) :=
  List.all_eq_true.mp (List.all_takeWhile)

theorem exists_mantissa {body whole fraction ending : List Char}
    (hwhole : body.takeWhile Char.isDigit = whole)
    (hsplit : splitFraction (body.dropWhile Char.isDigit) = (fraction, ending))
    (hne : whole ≠ [] ∨ fraction ≠ []) :
    ∃ mantissa, Mantissa mantissa (Nat.ofDigitChars 10 (whole ++ fraction) 0) fraction.length ∧
      body = mantissa ++ ending := by
  have hbody : body = whole ++ body.dropWhile Char.isDigit := by
    rw [← hwhole, List.takeWhile_append_dropWhile]
  have hdigits : IsDigits whole := hwhole ▸ isDigits_takeWhile body
  generalize body.dropWhile Char.isDigit = rest at hbody hsplit
  unfold splitFraction at hsplit
  split at hsplit
  · rename_i more
    obtain ⟨hfraction, hending⟩ := Prod.mk.inj hsplit
    have hmore : more = fraction ++ ending := by
      rw [← hfraction, ← hending, List.takeWhile_append_dropWhile]
    have hfraction' : IsDigits fraction := hfraction ▸ isDigits_takeWhile more
    rw [hbody, hmore]
    -- The two spellings with a point differ in whether a digit stands in front of it.
    by_cases hempty : whole = []
    · subst hempty
      exact ⟨_, .fraction hfraction' (hne.resolve_left fun h => h rfl), rfl⟩
    · exact ⟨_, .point hdigits hempty hfraction', by simp⟩
  · obtain ⟨rfl, rfl⟩ := Prod.mk.inj hsplit
    refine ⟨whole, ?_, hbody⟩
    rw [List.append_nil]
    exact .whole hdigits (hne.resolve_right fun h => h rfl)

/-- The decimals read are those that the grammar derives. -/
theorem ofText?_eq_some_iff {text : List Char} {number : Decimal} :
    ofText? text = some number ↔ Numeral text number := by
  refine ⟨fun h => ?_, ofText?_of_numeral⟩
  obtain ⟨sign, hsign, htext⟩ := exists_sign text
  unfold ofText? at h
  dsimp only at h
  split at h
  · cases h
  · rename_i hempty
    obtain ⟨exponent, hexponent, hnumber⟩ := Option.map_eq_some_iff.mp h
    have hne : (splitSign text).2.takeWhile Char.isDigit ≠ [] ∨
        (splitFraction ((splitSign text).2.dropWhile Char.isDigit)).1 ≠ [] := by
      simpa only [Bool.and_eq_true, List.isEmpty_iff, Decidable.not_and_iff_not_or_not] using hempty
    obtain ⟨mantissa, hmantissa, hbody⟩ := exists_mantissa rfl rfl hne
    rw [htext, hbody, ← hnumber]
    exact .mk hsign hmantissa (exponent?_eq_some_iff.mp hexponent)

theorem Numeral.unique {text : List Char} {number other : Decimal} (h : Numeral text number)
    (hother : Numeral text other) : number = other :=
  Option.some.inj ((ofText?_of_numeral h).symm.trans (ofText?_of_numeral hother))

end Interpolation.Decimal
