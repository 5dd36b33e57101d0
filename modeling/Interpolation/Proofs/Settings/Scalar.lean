import Interpolation.Proofs.Settings.Number
import Interpolation.Proofs.Yaml.Name
import Interpolation.Settings.Reader

/-! A scalar is written in a style and with a content that mean this scalar again: truth values and
numbers stand plainly, and text that would be read as one of them does not. -/

namespace Interpolation

open Yaml

namespace Yaml

theorem isSafe_of_isDigit {c : Char} (h : c.isDigit = true) : IsSafe c := by
  have hrange : '0' ≤ c ∧ c ≤ '9' := by
    simpa [Char.isDigit, Char.le_def] using h
  have hlow : 48 ≤ c.toNat := hrange.1
  have hhigh : c.toNat ≤ 57 := hrange.2
  refine ⟨?_, ?_, ne_of_isDigit h rfl, ne_of_isDigit h rfl, ne_of_isDigit h rfl⟩
  · simp only [Double.isPrintable, Bool.or_eq_true, Bool.and_eq_true, decide_eq_true_eq, beq_iff_eq,
      bne_iff_ne]
    omega
  · exact isBreak_eq_false (ne_of_isDigit h rfl) (ne_of_isDigit h rfl) (ne_of_isDigit h rfl)

theorem isSafe_of_isNumeralChar {c : Char} (h : Meaning.isNumeralChar c = true) : IsSafe c := by
  simp only [Meaning.isNumeralChar, Bool.or_eq_true, beq_iff_eq] at h
  rcases h with ((h | rfl) | rfl) | rfl
  · exact isSafe_of_isDigit h
  · exact ⟨rfl, rfl, by decide, by decide, by decide⟩
  · exact ⟨rfl, rfl, by decide, by decide, by decide⟩
  · exact ⟨rfl, rfl, by decide, by decide, by decide⟩

theorem beginsWithIndicator_digit {c : Char} (h : c.isDigit = true) (rest : List Char) :
    Scalar.beginsWithIndicator (c :: rest) = false := by
  have hlist : "#,[]\x7b\x7d&*!|>'\"%@`".toList.contains c = false := by
    rw [← Bool.not_eq_true, List.contains_iff_mem]
    intro hmem
    have hdigit : "#,[]\x7b\x7d&*!|>'\"%@`".toList.all (!·.isDigit) = true := rfl
    have hc := List.all_eq_true.mp hdigit c hmem
    rw [h] at hc
    cases hc
  have hquestion : (c == '?') = false := beq_eq_false_iff_ne.mpr (ne_of_isDigit h rfl)
  have hcolon : (c == ':') = false := beq_eq_false_iff_ne.mpr (ne_of_isDigit h rfl)
  have hdash : (c == '-') = false := beq_eq_false_iff_ne.mpr (ne_of_isDigit h rfl)
  unfold Scalar.beginsWithIndicator
  split
  · rename_i heq
    exact absurd (List.cons.inj heq).1 (ne_of_isDigit h rfl)
  · rename_i heq
    exact absurd (List.cons.inj heq).1 (ne_of_isDigit h rfl)
  · rename_i heq
    cases heq
  · rename_i heq
    cases heq
    rw [hlist, hquestion, hcolon, hdash]
    rfl

theorem beginsWithIndicator_negative {c : Char} (h : c.isDigit = true) (rest : List Char) :
    Scalar.beginsWithIndicator ('-' :: c :: rest) = false := by
  have hblank : isBlank c = false := by
    unfold isBlank
    rw [beq_eq_false_iff_ne.mpr (ne_of_isDigit h rfl),
      beq_eq_false_iff_ne.mpr (ne_of_isDigit h rfl)]
    rfl
  have hword : endsWord (c :: rest) = false :=
    Bool.or_eq_false_iff.mpr ⟨hblank, (isSafe_of_isDigit h).oneLine⟩
  unfold Scalar.beginsWithIndicator
  split
  · rename_i heq
    exact absurd (List.cons.inj (List.cons.inj heq).2).1 (ne_of_isDigit h rfl)
  · rename_i heq
    cases heq
  · rename_i heq
    cases heq
  · rename_i heq
    cases heq
    rw [hword]
    rfl

theorem standing_of_isNumeral {text : List Char} (h : Meaning.IsNumeral text)
    (hbegins : Scalar.beginsWithIndicator text = false) : Plain.Standing text :=
  IsSafeText.standing (fun c hc => isSafe_of_isNumeralChar (h.2 c hc)) h.1 hbegins

end Yaml

namespace Settings

theorem standing_toString (n : Int) : Plain.Standing (toString n).toList := by
  apply standing_of_isNumeral (Meaning.isNumeral_toString n)
  rw [Decimal.toList_toString]
  have hdigits := isDigits_toDigits n.natAbs
  cases hdigit : Nat.toDigits 10 n.natAbs with
  | nil => exact absurd hdigit Nat.toDigits_ne_nil
  | cons c rest =>
    rw [hdigit] at hdigits
    have hc := hdigits c List.mem_cons_self
    split
    · exact beginsWithIndicator_negative hc rest
    · exact beginsWithIndicator_digit hc rest

theorem standing_truthText (b : Bool) : Plain.Standing (truthText b) := by
  cases b with
  | false => decide
  | true => decide

theorem standing_finite {x : Binary64} (h : x.isFinite = true) : Plain.Standing (floatText x) := by
  obtain ⟨c, rest, htext, hc⟩ := (writes_magnitudeText (Binary64.isFinite_iff.mp h)).first
  apply standing_of_isNumeral (floatText_numeral h).1
  rw [floatText_of_finite h, htext]
  split
  · exact beginsWithIndicator_negative hc rest
  · exact beginsWithIndicator_digit hc rest

theorem standing_floatText (x : Binary64) : Plain.Standing (floatText x) := by
  cases hnan : x.isNaN with
  | true =>
    rw [floatText_of_isNaN hnan]
    decide
  | false =>
    cases hfinite : x.isFinite with
    | true => exact standing_finite hfinite
    | false =>
      rw [floatText_of_infinite hfinite hnan]
      cases x.negative with
      | false => decide
      | true => decide

end Settings

namespace Scalar

def style : Scalar → Yaml.Style
  | text content => Yaml.Scalar.style content
  | _ => .plain

def content : Scalar → List Char
  | boolean b => Settings.truthText b
  | integer n => (toString n.toInt).toList
  | float x => Settings.floatText x
  | text content => content.toList

/-- A NaN comes back without its payload. -/
def canonical : Scalar → Scalar
  | float x => float (if x.isNaN then .nan else x)
  | scalar => scalar

end Scalar

namespace Settings

theorem spells_scalarText (column : Nat) (scalar : Scalar) :
    Spells column (scalarText (column + 2) scalar) scalar.style scalar.content := by
  cases scalar with
  | boolean b => exact .plain (standing_truthText b)
  | integer n => exact .plain (standing_toString n.toInt)
  | float x => exact .plain (standing_floatText x)
  | text content => exact spells_write column content

theorem shown_scalarText (column : Nat) (scalar : Scalar) : Shown (scalarText column scalar) := by
  cases scalar with
  | boolean b => exact (standing_truthText b).printable
  | integer n => exact (standing_toString n.toInt).printable
  | float x => exact (standing_floatText x).printable
  | text content => exact Yaml.Scalar.shown_write column content

theorem ofMeaning?_integer (n : Int64) : ofMeaning? (.integer n.toInt) = some (.integer n) := by
  unfold ofMeaning?
  dsimp only
  rw [if_pos n.toInt_le, Int64.ofInt_toInt]

theorem ofScalar?_plain (content : String) :
    Meaning.ofScalar? none .plain content = Meaning.ofPlain? content := rfl

theorem ofScalar?_of_ne {style : Yaml.Style} (h : style ≠ .plain) (content : String) :
    Meaning.ofScalar? none style content = some (.text content) :=
  if_neg h

theorem ofScalar?_content (scalar : Scalar) :
    (Meaning.ofScalar? none scalar.style (String.ofList scalar.content)).bind ofMeaning? =
      some scalar.canonical := by
  cases scalar with
  | boolean b => exact congrArg (Option.bind · ofMeaning?) (ofPlain?_truthText b)
  | integer n =>
    unfold Scalar.style Scalar.content
    dsimp only
    rw [ofScalar?_plain, Meaning.ofPlain?_integer n String.toList_ofList]
    exact ofMeaning?_integer n
  | float x => exact congrArg (Option.bind · ofMeaning?) (ofPlain?_floatText x)
  | text content =>
    have hlist : String.ofList content.toList = content := String.ofList_toList
    have hwritten := Yaml.Scalar.written_style content
    unfold Scalar.style Scalar.content
    dsimp only
    rw [hlist]
    by_cases hstyle : Yaml.Scalar.style content = .plain
    · rw [hstyle] at hwritten ⊢
      cases hwritten with
      | plain _ hmeaning =>
        rw [ofScalar?_plain, hmeaning]
        rfl
    · rw [ofScalar?_of_ne hstyle]
      rfl

end Settings

end Interpolation
