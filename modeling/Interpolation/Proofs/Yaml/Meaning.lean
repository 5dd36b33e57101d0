import Interpolation.Proofs.Decimal.Layout
import Interpolation.Yaml.Resolution

/-! A numeral that stands plainly is the number that it spells: it is neither nothing nor a truth
value, an integer needs its digits only, and what has a point or an exponent is a float. -/

namespace Interpolation.Yaml.Meaning

def isNumeralChar (c : Char) : Bool :=
  c.isDigit || c == '-' || c == '.' || c == 'e'

def IsNumeral (text : List Char) : Prop :=
  text ≠ [] ∧ ∀ c ∈ text, isNumeralChar c = true

theorem isNumeralChar_of_isDigit {c : Char} (h : c.isDigit = true) : isNumeralChar c = true := by
  simp [isNumeralChar, h]

variable {text : List Char}

/-- A numeral is no word with another character in it. -/
theorem IsNumeral.beq_word (h : IsNumeral text) (word : List Char)
    (hword : word.all isNumeralChar = false) : (text == word) = false := by
  rw [beq_eq_false_iff_ne]
  rintro rfl
  exact Bool.noConfusion ((List.all_eq_true.mpr h.2).symm.trans hword)

theorem isNumeral_toString (n : Int) : IsNumeral (toString n).toList := by
  rw [Decimal.toList_toString]
  constructor
  · simp
  · intro c hc
    rcases List.mem_append.mp hc with hc | hc
    · split at hc
      · rw [List.mem_singleton.mp hc]
        rfl
      · cases hc
    · exact isNumeralChar_of_isDigit (isDigits_toDigits _ c hc)

theorem isNull_of_isNumeral (h : IsNumeral text) : isNull text = false := by
  have hempty : text.isEmpty = false := List.isEmpty_eq_false_iff.mpr h.1
  unfold isNull
  rw [hempty, h.beq_word ['~'] rfl, h.beq_word "null".toList rfl, h.beq_word "Null".toList rfl,
    h.beq_word "NULL".toList rfl]
  rfl

theorem boolean?_of_isNumeral (h : IsNumeral text) : boolean? text = none := by
  unfold boolean?
  rw [h.beq_word "true".toList rfl, h.beq_word "True".toList rfl, h.beq_word "TRUE".toList rfl,
    h.beq_word "false".toList rfl, h.beq_word "False".toList rfl, h.beq_word "FALSE".toList rfl]
  rfl

theorem ofPlain?_of_isNumeral {content : String} (h : IsNumeral content.toList) :
    ofPlain? content = (number? content.toList).map (·.getD (Meaning.text content)) := by
  unfold ofPlain?
  simp only [isNull_of_isNumeral h, boolean?_of_isNumeral h, Bool.false_eq_true, if_false]

theorem magnitude?_of_isNumeralChar (h : ∀ c ∈ text, isNumeralChar c = true) :
    magnitude? text = natural? 10 text := by
  unfold magnitude?
  split
  · exact absurd (h 'x' (by simp)) (by decide)
  · exact absurd (h 'o' (by simp)) (by decide)
  · exact absurd (h 'b' (by simp)) (by decide)
  · rfl

theorem magnitude?_toDigits (n : Nat) : magnitude? (Nat.toDigits 10 n) = some n := by
  have hdigits := isDigits_toDigits n
  have hempty : (Nat.toDigits 10 n).isEmpty = false :=
    List.isEmpty_eq_false_iff.mpr Nat.toDigits_ne_nil
  rw [magnitude?_of_isNumeralChar fun c hc => isNumeralChar_of_isDigit (hdigits c hc), natural?,
    hempty, Text.ofDigits?_ten hdigits, Nat.ofDigitChars_ten_toDigits]
  rfl

theorem isPadded_toString (n : Int) : isPadded (toString n).toList = false := by
  unfold isPadded
  rw [Decimal.splitSign_toString]
  by_cases h : n.natAbs < 10
  · rw [Nat.toDigits_of_lt_base h]
    rfl
  · have hhead := beq_eq_false_iff_ne.mpr (head?_toDigits (Nat.not_lt.mp h))
    simp only [hhead, Bool.and_false, Bool.false_and]

theorem integer?_toString (n : Int) : integer? (toString n).toList = some n := by
  unfold integer?
  rw [isPadded_toString, Decimal.splitSign_toString]
  simp only [Bool.false_eq_true, if_false, magnitude?_toDigits, decide_eq_true_eq, bind,
    Option.bind_some, pure, Option.map_some]
  by_cases h : n < 0
  · rw [if_pos h]
    have hneg : -(n.natAbs : Int) = n := by omega
    rw [hneg]
  · rw [if_neg h]
    have hpos : (n.natAbs : Int) = n := by omega
    rw [hpos]

theorem size_of_int64 (n : Int64) : size n.toInt = .small := by
  have hlower := n.le_toInt
  have hupper := n.toInt_lt
  cases hn : n.toInt with
  | ofNat k =>
    have hk : k < Nat.pow 2 64 := by
      rw [hn] at hupper
      have : Int.ofNat k = (k : Int) := rfl
      simp only [Nat.pow_eq]
      omega
    exact if_pos hk
  | negSucc k =>
    have hk : k < Nat.pow 2 63 := by
      rw [hn] at hlower
      simp only [Nat.pow_eq]
      omega
    exact if_pos hk

theorem ofPlain?_integer (n : Int64) {content : String}
    (hcontent : content.toList = (toString n.toInt).toList) :
    ofPlain? content = some (.integer n.toInt) := by
  have hnumeral : IsNumeral content.toList := hcontent ▸ isNumeral_toString n.toInt
  rw [ofPlain?_of_isNumeral hnumeral, hcontent]
  unfold number?
  rw [integer?_toString]
  simp only [size_of_int64]
  rfl

def HasMark (text : List Char) : Prop :=
  '.' ∈ text ∨ 'e' ∈ text

theorem foldlM_digitValue?_eq_none {digits : List Char} {c : Char} (hc : c ∈ digits)
    (hvalue : Text.digitValue? 10 c = none) (n : Nat) :
    digits.foldlM (fun n c => (Text.digitValue? 10 c).map (10 * n + ·)) n = none := by
  induction digits generalizing n with
  | nil => cases hc
  | cons d rest ih =>
    rw [List.foldlM_cons]
    cases hd : Text.digitValue? 10 d with
    | none => rfl
    | some value =>
      rcases List.mem_cons.mp hc with rfl | hc
      · rw [hvalue] at hd
        cases hd
      · exact ih hc _

theorem natural?_eq_none {digits : List Char} (h : HasMark digits) : natural? 10 digits = none := by
  have hnone : Text.ofDigits? 10 digits = none := by
    rcases h with h | h
    · exact foldlM_digitValue?_eq_none h rfl 0
    · exact foldlM_digitValue?_eq_none h rfl 0
  unfold natural?
  rw [hnone, ite_self]

theorem mem_splitSign {c : Char} (hplus : c ≠ '+') (hminus : c ≠ '-') (h : c ∈ text) :
    c ∈ (Decimal.splitSign text).2 := by
  unfold Decimal.splitSign
  split
  · exact (List.mem_cons.mp h).resolve_left hplus
  · exact (List.mem_cons.mp h).resolve_left hminus
  · exact h

theorem mem_of_mem_splitSign {c : Char} (h : c ∈ (Decimal.splitSign text).2) : c ∈ text := by
  unfold Decimal.splitSign at h
  split at h
  · exact List.mem_cons_of_mem _ h
  · exact List.mem_cons_of_mem _ h
  · exact h

theorem HasMark.splitSign (h : HasMark text) : HasMark (Decimal.splitSign text).2 := by
  rcases h with h | h
  · exact Or.inl (mem_splitSign (by decide) (by decide) h)
  · exact Or.inr (mem_splitSign (by decide) (by decide) h)

theorem HasMark.not_all (h : HasMark text) : text.all Char.isDigit = false := by
  rw [List.all_eq_false]
  rcases h with h | h
  · exact ⟨'.', h, by decide⟩
  · exact ⟨'e', h, by decide⟩

theorem isPadded_of_hasMark (h : HasMark text) : isPadded text = false := by
  unfold isPadded
  simp only [h.splitSign.not_all, Bool.and_false]

theorem integer?_of_hasMark (h : IsNumeral text) (hmark : HasMark text) : integer? text = none := by
  have hchars : ∀ c ∈ (Decimal.splitSign text).2, isNumeralChar c = true :=
    fun c hc => h.2 c (mem_of_mem_splitSign hc)
  unfold integer?
  simp only [isPadded_of_hasMark hmark, magnitude?_of_isNumeralChar hchars,
    natural?_eq_none hmark.splitSign, Bool.false_eq_true, if_false, bind, Option.bind_none,
    Option.map_none]

theorem float?_of_isNumeral (h : IsNumeral text) :
    float? text = ((Decimal.ofText? text).map Binary64.ofDecimal).filter Binary64.isFinite := by
  unfold float?
  rw [h.beq_word ".inf".toList rfl, h.beq_word ".Inf".toList rfl, h.beq_word ".INF".toList rfl,
    h.beq_word "+.inf".toList rfl, h.beq_word "+.Inf".toList rfl, h.beq_word "+.INF".toList rfl,
    h.beq_word "-.inf".toList rfl, h.beq_word "-.Inf".toList rfl, h.beq_word "-.INF".toList rfl,
    h.beq_word ".nan".toList rfl, h.beq_word ".NaN".toList rfl, h.beq_word ".NAN".toList rfl]
  rfl

theorem ofPlain?_decimal {content : String} (h : IsNumeral content.toList)
    (hmark : HasMark content.toList) {number : Decimal}
    (hnumber : Decimal.ofText? content.toList = some number)
    (hfinite : (Binary64.ofDecimal number).isFinite = true) :
    ofPlain? content = some (.float (Binary64.ofDecimal number)) := by
  rw [ofPlain?_of_isNumeral h]
  unfold number?
  rw [isPadded_of_hasMark hmark, integer?_of_hasMark h hmark, float?_of_isNumeral h, hnumber]
  simp only [Option.map_some, Option.filter_some, hfinite, Bool.false_eq_true, if_false, if_true]
  rfl

end Interpolation.Yaml.Meaning
