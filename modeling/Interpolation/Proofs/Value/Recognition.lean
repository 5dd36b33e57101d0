import Interpolation.Proofs.Binary64.Rational
import Interpolation.Proofs.Decimal.Grammar
import Interpolation.Value

/-! The kind of a text is told by the grammar of numerals and by the ranges of the numbers that
these spell. Recognition tries one kind after the other; here each kind has its own condition. -/

namespace Interpolation

open Decimal

theorem Decimal.IntegerNumeral.exists_numeral {text : List Char} {n : Int}
    (h : IntegerNumeral text n) : ∃ number, Numeral text number ∧ number.toRat = n := by
  obtain @⟨front, digits, negative, hsign, hdigits, hne⟩ := h
  refine ⟨⟨negative, Nat.ofDigitChars 10 digits 0, 0 - (0 : Nat)⟩, ?_, ?_⟩
  · have h := Numeral.mk hsign (.whole hdigits hne) .none
    rwa [List.append_nil] at h
  · cases negative <;> simp [toRat, sign]

namespace Binary64

theorem isFinite_eq_false_of_ofWord? {word : List Char} {m : Nat} (h : ofWord? word = some m)
    (negative : Bool) : (ofMagnitude negative m).isFinite = false := by
  have hcases : m = infinity ∨ m = nan.magnitude := by
    unfold ofWord? at h
    dsimp only at h
    split at h
    · exact .inl (Option.some.inj h).symm
    · split at h
      · exact .inr (Option.some.inj h).symm
      · cases h
  rcases hcases with rfl | rfl
  · cases negative <;> decide
  · cases negative <;> decide

end Binary64

namespace Value

def SpellsInteger (raw : String) (n : Int) : Prop :=
  IntegerNumeral raw.toList n ∧ -2 ^ 63 ≤ n ∧ n ≤ 2 ^ 63 - 1

/-- A numeral of a number within half a step of the finite floats. -/
def SpellsFloat (raw : String) (number : Decimal) : Prop :=
  Numeral raw.toList number ∧ |number.toRat| < 2 ^ 1024 - 2 ^ 970

theorem integer?_eq_some_iff {raw : String} {n : Int64} :
    integer? raw = some n ↔ SpellsInteger raw n.toInt := by
  have hmin : Int64.minValue.toInt = -2 ^ 63 := rfl
  have hmax : Int64.maxValue.toInt = 2 ^ 63 - 1 := rfl
  unfold SpellsInteger integer?
  rw [← Decimal.integer?_eq_some_iff, hmin, hmax]
  constructor
  · intro h
    split at h
    · rename_i value hread
      split at h
      · rename_i hrange
        have hvalue : n.toInt = value := by
          rw [← Option.some.inj h]
          exact Int64.toInt_ofInt_of_le hrange.1 (Int.lt_of_le_sub_one hrange.2)
        rw [hvalue]
        exact ⟨hread, hrange⟩
      · cases h
    · cases h
  · rintro ⟨hread, hrange⟩
    simp only [hread, hrange, and_self, if_true, Int64.ofInt_toInt]

theorem float?_eq_some_iff {raw : String} {x : Binary64} :
    float? raw = some x ↔ ∃ number, SpellsFloat raw number ∧ x = .ofDecimal number := by
  unfold SpellsFloat float? Binary64.ofText?
  constructor
  · intro h
    split at h
    · obtain ⟨hread, hfinite⟩ := Option.filter_eq_some_iff.mp h
      split at hread
      · rename_i number hnumber
        rw [← Option.some.inj hread] at hfinite
        exact ⟨number, ⟨ofText?_eq_some_iff.mp hnumber,
          (Binary64.isFinite_ofDecimal_iff number).mp hfinite⟩, (Option.some.inj hread).symm⟩
      · obtain ⟨m, hword, hx⟩ := Option.map_eq_some_iff.mp hread
        rw [← hx, Binary64.isFinite_eq_false_of_ofWord? hword] at hfinite
        cases hfinite
    · cases h
  · rintro ⟨number, ⟨hnumeral, hrange⟩, rfl⟩
    have hdigit : raw.toList.any Char.isDigit = true := List.any_eq_true.mpr hnumeral.exists_digit
    have hfinite := (Binary64.isFinite_ofDecimal_iff number).mpr hrange
    rw [if_pos hdigit, ofText?_eq_some_iff.mpr hnumeral, Option.filter_some, if_pos hfinite]

inductive Recognized (raw : String) : Value → Prop
  | boolean (b : Bool) (h : raw = if b then "true" else "false") : Recognized raw (.boolean b)
  | integer (n : Int64) (h : SpellsInteger raw n.toInt) : Recognized raw (.integer n (some raw))
  | float (number : Decimal) (hinteger : ∀ n, ¬ SpellsInteger raw n) (h : SpellsFloat raw number) :
    Recognized raw (.float (.ofDecimal number) (some raw))
  | text (hboolean : ∀ b : Bool, raw ≠ if b then "true" else "false")
    (hinteger : ∀ n, ¬ SpellsInteger raw n) (hfloat : ∀ number, ¬ SpellsFloat raw number) :
    Recognized raw (.text raw)

theorem integer?_eq_none_iff {raw : String} :
    integer? raw = none ↔ ∀ n, ¬ SpellsInteger raw n := by
  rw [Option.eq_none_iff_forall_ne_some]
  constructor
  · intro h n hn
    have hvalue := Int64.toInt_ofInt_of_le hn.2.1 (Int.lt_of_le_sub_one hn.2.2)
    exact h (.ofInt n) (integer?_eq_some_iff.mpr (hvalue.symm ▸ hn))
  · intro h n hn
    exact h n.toInt (integer?_eq_some_iff.mp hn)

theorem float?_eq_none_iff {raw : String} :
    float? raw = none ↔ ∀ number, ¬ SpellsFloat raw number := by
  rw [Option.eq_none_iff_forall_ne_some]
  constructor
  · intro h number hnumber
    exact h (.ofDecimal number) (float?_eq_some_iff.mpr ⟨number, hnumber, rfl⟩)
  · intro h x hx
    obtain ⟨number, hnumber, -⟩ := float?_eq_some_iff.mp hx
    exact h number hnumber

theorem ne_truth_of_exists_digit {raw : String} (h : ∃ c ∈ raw.toList, c.isDigit = true)
    (b : Bool) : raw ≠ if b then "true" else "false" := by
  have hnone : (if b then "true" else "false").toList.any Char.isDigit = false := by
    cases b <;> decide
  rintro rfl
  rw [List.any_eq_true.mpr h] at hnone
  cases hnone

theorem recognize_of_ne_truth {raw : String} (h : ∀ b : Bool, raw ≠ if b then "true" else "false") :
    recognize raw = match integer? raw with
      | some n => integer n (some raw)
      | none => match float? raw with
        | some x => float x (some raw)
        | none => text raw := by
  have htrue : raw ≠ "true" := h true
  have hfalse : raw ≠ "false" := h false
  exact (if_neg htrue).trans (if_neg hfalse)

theorem recognized_recognize (raw : String) : Recognized raw (recognize raw) := by
  -- The kinds are tried in the order of the definition, each one after all others have failed.
  by_cases htrue : raw = "true"
  · rw [recognize, if_pos htrue]
    exact .boolean true htrue
  by_cases hfalse : raw = "false"
  · rw [recognize, if_neg htrue, if_pos hfalse]
    exact .boolean false hfalse
  have htruth : ∀ b : Bool, raw ≠ if b then "true" else "false" := by
    rintro (_ | _)
    · exact hfalse
    · exact htrue
  rw [recognize_of_ne_truth htruth]
  cases hinteger : integer? raw with
  | some n => exact .integer n (integer?_eq_some_iff.mp hinteger)
  | none =>
    have hinteger := integer?_eq_none_iff.mp hinteger
    cases hfloat : float? raw with
    | some x =>
      obtain ⟨number, hnumber, rfl⟩ := float?_eq_some_iff.mp hfloat
      exact .float number hinteger hnumber
    | none => exact .text htruth hinteger (float?_eq_none_iff.mp hfloat)

/-- Recognition is told by the conditions of the kinds. -/
theorem recognize_eq_iff {raw : String} {value : Value} :
    recognize raw = value ↔ Recognized raw value := by
  constructor
  · rintro rfl
    exact recognized_recognize raw
  · intro h
    cases h with
    | boolean b h =>
      subst h
      cases b <;> rfl
    | integer n h =>
      obtain ⟨number, hnumeral, -⟩ := h.1.exists_numeral
      rw [recognize_of_ne_truth (ne_truth_of_exists_digit hnumeral.exists_digit),
        integer?_eq_some_iff.mpr h]
    | float number hinteger h =>
      rw [recognize_of_ne_truth (ne_truth_of_exists_digit h.1.exists_digit),
        integer?_eq_none_iff.mpr hinteger, float?_eq_some_iff.mpr ⟨number, h, rfl⟩]
    | text htruth hinteger hfloat =>
      rw [recognize_of_ne_truth htruth, integer?_eq_none_iff.mpr hinteger,
        float?_eq_none_iff.mpr hfloat]

theorem recognize_eq_float_iff {raw : String} {x : Binary64} {source : Option String} :
    recognize raw = .float x source ↔ source = some raw ∧ (∀ n, ¬ SpellsInteger raw n) ∧
      ∃ number, SpellsFloat raw number ∧ x.negative = number.negative ∧
        x.IsNearest number.toRat := by
  rw [recognize_eq_iff]
  constructor
  · intro h
    cases h with
    | float number hinteger h =>
      have hfinite := (Binary64.isFinite_ofDecimal_iff number).mpr h.2
      exact ⟨rfl, hinteger, number, h, ((Binary64.eq_ofDecimal_iff number).mp ⟨hfinite, rfl⟩).2⟩
  · rintro ⟨rfl, hinteger, number, h, hx⟩
    rw [((Binary64.eq_ofDecimal_iff number).mpr ⟨h.2, hx⟩).2]
    exact .float number hinteger h

theorem recognize_of_large {raw : String} {n : Int} (hnumeral : IntegerNumeral raw.toList n)
    (hlarge : n < -2 ^ 63 ∨ 2 ^ 63 - 1 < n) :
    (|(n : ℚ)| < 2 ^ 1024 - 2 ^ 970 → ∃ x, recognize raw = .float x (some raw) ∧ x.IsNearest n) ∧
    (2 ^ 1024 - 2 ^ 970 ≤ |(n : ℚ)| → recognize raw = .text raw) := by
  have hinteger : ∀ m, ¬ SpellsInteger raw m := by
    rintro m ⟨hm, hmin, hmax⟩
    obtain rfl := hm.unique hnumeral
    omega
  obtain ⟨number, hnumber, hvalue⟩ := hnumeral.exists_numeral
  constructor
  · intro hrange
    have hfloat : SpellsFloat raw number := ⟨hnumber, hvalue.symm ▸ hrange⟩
    refine ⟨.ofDecimal number, recognize_eq_iff.mpr (.float number hinteger hfloat), ?_⟩
    rw [← hvalue]
    exact Binary64.isNearest_ofDecimal number
      ((Binary64.isFinite_ofDecimal_iff number).mpr hfloat.2)
  · intro hrange
    refine recognize_eq_iff.mpr (.text ?_ hinteger ?_)
    · exact ne_truth_of_exists_digit hnumber.exists_digit
    · rintro other ⟨hother, hbelow⟩
      rw [hother.unique hnumber, hvalue] at hbelow
      exact absurd hbelow (not_lt.mpr hrange)

/-- A word for infinity or for "not a number", in letters of either case, perhaps with a sign. -/
def SpellsWord (raw : String) : Prop :=
  ∃ sign negative word, Sign sign negative ∧ raw.toList = sign ++ word ∧
    word.map Char.toLower ∈ ["inf".toList, "infinity".toList, "nan".toList]

theorem toLower_of_isDigit {c : Char} (h : c.isDigit = true) : c.toLower = c := by
  have hrange : 48 ≤ c.val ∧ c.val ≤ 57 := by simpa [Char.isDigit] using h
  have hupper : ¬ (c.val ≥ 65 ∧ c.val ≤ 90) := by
    rintro ⟨hlower, -⟩
    exact absurd (UInt32.le_trans hlower hrange.2) (by decide)
  exact dif_neg hupper

theorem SpellsWord.not_exists_digit {raw : String} (h : SpellsWord raw) :
    ¬ ∃ c ∈ raw.toList, c.isDigit = true := by
  obtain ⟨sign, negative, word, hsign, hraw, hword⟩ := h
  have hsigns : sign.any Char.isDigit = false := by
    cases hsign <;> decide
  -- The lower case of a digit is the digit, so none was lost in lowering the word.
  have hletters : (word.map Char.toLower).any Char.isDigit = false := by
    have hall : ["inf".toList, "infinity".toList, "nan".toList].all
        (fun letters => !letters.any Char.isDigit) = true := by
      decide
    exact Bool.eq_false_of_not_eq_true' (List.all_eq_true.mp hall _ hword)
  rintro ⟨c, hc, hdigit⟩
  rw [hraw] at hc
  rcases List.mem_append.mp hc with hc | hc
  · exact List.any_eq_false.mp hsigns c hc hdigit
  · have hlower : c ∈ word.map Char.toLower :=
      List.mem_map.mpr ⟨c, hc, toLower_of_isDigit hdigit⟩
    exact List.any_eq_false.mp hletters c hlower hdigit

theorem SpellsWord.ne_truth {raw : String} (h : SpellsWord raw) (b : Bool) :
    raw ≠ if b then "true" else "false" := by
  obtain ⟨sign, negative, word, hsign, hraw, hword⟩ := h
  rintro rfl
  cases hsign with
  | none =>
    rw [List.nil_append] at hraw
    rw [← hraw] at hword
    cases b <;> revert hword <;> decide
  | plus => cases b <;> cases hraw
  | minus => cases b <;> cases hraw

theorem recognize_of_spellsWord {raw : String} (h : SpellsWord raw) :
    recognize raw = .text raw := by
  refine recognize_eq_iff.mpr (.text h.ne_truth ?_ ?_)
  · intro n hn
    obtain ⟨number, hnumber, -⟩ := hn.1.exists_numeral
    exact h.not_exists_digit hnumber.exists_digit
  · intro number hnumber
    exact h.not_exists_digit hnumber.1.exists_digit

/-- Recognition classifies texts exactly. The two words are truth values; a numeral of an integer of
64 bits is this integer; any other numeral is the float nearest to it, if it lies within half a step
of the finite floats; and all else is text. So a large integer becomes a float or text, and a word
for infinity or for "not a number" is text. -/
theorem recognize_classifies (raw : String) :
    (∀ b, recognize raw = .boolean b ↔ raw = if b then "true" else "false") ∧
    (∀ v source, recognize raw = .integer v source ↔
      source = some raw ∧ ∃ n, SpellsInteger raw n ∧ v.toInt = n) ∧
    (∀ x source, recognize raw = .float x source ↔
      source = some raw ∧ (∀ n, ¬ SpellsInteger raw n) ∧ ∃ number, SpellsFloat raw number ∧
        x.negative = number.negative ∧ x.IsNearest number.toRat) ∧
    (∀ content, recognize raw = .text content ↔
      content = raw ∧ raw ≠ "true" ∧ raw ≠ "false" ∧ (∀ n, ¬ SpellsInteger raw n) ∧
        ∀ number, ¬ SpellsFloat raw number) ∧
    (∀ n, IntegerNumeral raw.toList n → n < -2 ^ 63 ∨ 2 ^ 63 - 1 < n →
      (|(n : ℚ)| < 2 ^ 1024 - 2 ^ 970 → ∃ x, recognize raw = .float x (some raw) ∧ x.IsNearest n) ∧
      (2 ^ 1024 - 2 ^ 970 ≤ |(n : ℚ)| → recognize raw = .text raw)) ∧
    (SpellsWord raw → recognize raw = .text raw) := by
  refine ⟨fun b => ?_, fun v source => ?_, fun x source => recognize_eq_float_iff,
    fun content => ?_, fun n => recognize_of_large, recognize_of_spellsWord⟩
  · rw [recognize_eq_iff]
    constructor
    · intro h
      cases h with
      | boolean b h => exact h
    · exact .boolean b
  · rw [recognize_eq_iff]
    constructor
    · intro h
      cases h with
      | integer v h => exact ⟨rfl, v.toInt, h, rfl⟩
    · rintro ⟨rfl, n, h, rfl⟩
      exact .integer v h
  · rw [recognize_eq_iff]
    constructor
    · intro h
      cases h with
      | text htruth hinteger hfloat => exact ⟨rfl, htruth true, htruth false, hinteger, hfloat⟩
    · rintro ⟨rfl, htrue, hfalse, hinteger, hfloat⟩
      refine .text ?_ hinteger hfloat
      rintro (_ | _)
      · exact hfalse
      · exact htrue

/-- The first integer beyond 64 bits, and a word with a sign. -/
theorem recognize_classifies_beyond :
    (IntegerNumeral "9223372036854775808".toList (2 ^ 63) ∧ ∃ x,
      recognize "9223372036854775808" = .float x (some "9223372036854775808") ∧
        x.IsNearest (2 ^ 63 : Int)) ∧
    SpellsWord "-NaN" ∧ recognize "-NaN" = .text "-NaN" := by
  have hnumeral : IntegerNumeral "9223372036854775808".toList (2 ^ 63) :=
    Decimal.integer?_eq_some_iff.mp (by decide)
  have hword : SpellsWord "-NaN" := ⟨['-'], true, "NaN".toList, .minus, rfl, by decide⟩
  have hsum : (2 : ℚ) ^ 63 + 2 ^ 970 < 2 ^ 1024 :=
    calc (2 : ℚ) ^ 63 + 2 ^ 970 < 2 ^ 970 + 2 ^ 970 :=
          add_lt_add_left (pow_lt_pow_right₀ one_lt_two (by decide)) _
      _ = 2 ^ 971 := by rw [← mul_two, ← pow_succ]
      _ ≤ 2 ^ 1024 := pow_le_pow_right₀ one_le_two (by decide)
  have hrange : |((2 ^ 63 : Int) : ℚ)| < 2 ^ 1024 - 2 ^ 970 := by
    rw [Int.cast_pow, Int.cast_ofNat, abs_of_pos (by positivity)]
    exact lt_sub_iff_add_lt.mpr hsum
  obtain ⟨-, -, -, -, hlarge, -⟩ := recognize_classifies "9223372036854775808"
  exact ⟨⟨hnumeral, (hlarge _ hnumeral (.inr (by decide))).1 hrange⟩, hword,
    (recognize_classifies "-NaN").2.2.2.2.2 hword⟩

example : recognize "007" = .integer 7 (some "007") := rfl

end Value

end Interpolation
