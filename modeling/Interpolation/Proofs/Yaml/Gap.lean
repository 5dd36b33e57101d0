import Interpolation.Yaml.Scalar.Inline
import Interpolation.Yaml.Scalar.Writer

/-! What is written has two kinds of gaps only: blanks within a line, which stay, and breaks with
the indentation of the next line behind them. Breaks stay too where none of them is a line feed. -/

namespace Interpolation.Yaml

theorem isBreak_eq_false {c : Char} (hfeed : c ≠ '\n') (hline : c ≠ '\u2028')
    (hparagraph : c ≠ '\u2029') : isBreak c = false := by
  simp [isBreak, hfeed, hline, hparagraph]

theorem ne_of_isBreak {c d : Char} (hc : isBreak c = true) (hd : isBreak d = false) : c ≠ d := by
  rintro rfl
  exact Bool.noConfusion (hc.symm.trans hd)

theorem eq_space_of_isBlank {c : Char} (hprintable : Double.isPrintable c = true)
    (h : isBlank c = true) : c = ' ' := by
  simp only [isBlank, Bool.or_eq_true, beq_iff_eq] at h
  rcases h with rfl | rfl
  · rfl
  · exact absurd hprintable (by decide)

theorem isBlank_eq_false {c : Char} (hprintable : Double.isPrintable c = true) (h : c ≠ ' ') :
    isBlank c = false := by
  cases hblank : isBlank c with
  | false => rfl
  | true => exact absurd (eq_space_of_isBlank hprintable hblank) h

/-- A place where a token begins, or the end: nothing is left there to pass over. -/
def BeginsToken (text : List Char) : Prop :=
  text.head?.any (fun c => isBlank c || isBreak c || c == '#') = false

theorem BeginsToken.head {c : Char} {rest : List Char} (h : BeginsToken (c :: rest)) :
    isBlank c = false ∧ isBreak c = false ∧ c ≠ '#' := by
  obtain ⟨⟨hblank, hbreak⟩, hsign⟩ : (isBlank c = false ∧ isBreak c = false) ∧ c ≠ '#' := by
    simpa [BeginsToken] using h
  exact ⟨hblank, hbreak, hsign⟩

theorem beginsToken_cons {c : Char} (hblank : isBlank c = false) (hbreak : isBreak c = false)
    (hsign : (c == '#') = false) (rest : List Char) : BeginsToken (c :: rest) := by
  simp [BeginsToken, hblank, hbreak, beq_eq_false_iff_ne.mp hsign]

namespace Gap

def within (blanks : List Char) : Gap :=
  ⟨blanks, [], 0, false⟩

def behind (breaks : List Char) (column : Nat) : Gap :=
  ⟨[], breaks, column, false⟩

variable {c : Char} {blanks breaks : List Char} {column : Nat}

theorem within_nil : within [] = empty := rfl

@[simp] theorem isBroken_within : (within blanks).isBroken = false := rfl

@[simp] theorem atLineStart_within : (within blanks).atLineStart = false := rfl

@[simp] theorem isEmpty_within : (within blanks).isEmpty = blanks.isEmpty :=
  Bool.and_true _

theorem push_within (h : isBreak c = false) : (within blanks).push c = within (blanks ++ [c]) := by
  unfold push
  rw [h]
  rfl

theorem push_break (h : isBreak c = true) : (within []).push c = behind [c] 0 := by
  unfold push
  rw [h]
  rfl

theorem isBroken_behind (h : breaks ≠ []) : (behind breaks column).isBroken = true := by
  simp [isBroken, behind, h]

theorem push_behind_break (h : isBreak c = true) :
    (behind breaks column).push c = behind (breaks ++ [c]) 0 := by
  unfold push
  rw [h]
  rfl

theorem push_behind_blank (hne : breaks ≠ []) (h : isBreak c = false) :
    (behind breaks column).push c = behind breaks (column + 1) := by
  unfold push
  rw [h, isBroken_behind hne]
  rfl

theorem atLineStart_behind (h : 0 < column) : (behind breaks column).atLineStart = false := by
  have hne : (column == 0) = false := beq_eq_false_iff_ne.mpr (Nat.ne_of_gt h)
  simp [atLineStart, behind, hne]

theorem text_behind (h : '\n' ∉ breaks) : (behind breaks column).text = breaks := by
  unfold text behind
  simp only [Bool.false_eq_true, if_false]
  split
  · rfl
  · exact absurd List.mem_cons_self h
  · exact absurd List.mem_cons_self h
  · rfl

end Gap

end Interpolation.Yaml
