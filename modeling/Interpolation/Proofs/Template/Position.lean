import Interpolation.Proofs.Template.Run
import Mathlib.Data.List.DropRight

/-! The reader carries its position along, character by character. Here the position where a text
ends is computed at once, from the bytes, the line feeds and the last line of the text, and the two
are the same. A position of a text that comes to stand behind another moves by what the other takes
up. -/

namespace Interpolation.Position

/-- The characters behind the last line feed, all of them if there is none. -/
def lastLine (text : List Char) : List Char :=
  text.rtakeWhile (· != '\n')

def endOf (text : List Char) : Position where
  offset := (String.ofList text).utf8ByteSize
  line := 1 + text.count '\n'
  column := 1 + (lastLine text).length

theorem lastLine_feed (text : List Char) : lastLine (text ++ ['\n']) = [] :=
  List.rtakeWhile_concat_neg _ _ _ (by decide)

theorem lastLine_concat (text : List Char) {c : Char} (h : c ≠ '\n') :
    lastLine (text ++ [c]) = lastLine text ++ [c] :=
  List.rtakeWhile_concat_pos _ _ _ (by simpa using h)

theorem utf8ByteSize_concat (text : List Char) (c : Char) :
    (String.ofList (text ++ [c])).utf8ByteSize =
      (String.ofList text).utf8ByteSize + c.utf8Size := by
  rw [String.ofList_append, String.utf8ByteSize_append, ← String.singleton_eq_ofList,
    String.utf8ByteSize_singleton]

theorem endOf_nil : endOf [] = start := rfl

theorem endOf_concat (text : List Char) (c : Char) :
    endOf (text ++ [c]) = (endOf text).advance c := by
  by_cases hfeed : c = '\n'
  · subst hfeed
    rw [endOf, utf8ByteSize_concat, lastLine_feed]
    simp [endOf, advance, Nat.add_assoc]
  · rw [endOf, utf8ByteSize_concat, lastLine_concat text hfeed]
    simp [endOf, advance, hfeed, Nat.add_assoc]

theorem after_endOf (before text : List Char) :
    (endOf before).after text = endOf (before ++ text) := by
  induction text generalizing before with
  | nil => rw [after_nil, List.append_nil]
  | cons c text ih =>
    rw [after_cons, ← endOf_concat, ih, List.append_assoc, List.singleton_append]

/-- What is carried along is what is computed at once. -/
theorem after_start (text : List Char) : start.after text = endOf text := by
  rw [← endOf_nil, after_endOf, List.nil_append]

theorem offset_lt_advance (here : Position) (c : Char) : here.offset < (here.advance c).offset := by
  have hpos := c.utf8Size_pos
  unfold advance
  split
  · exact Nat.lt_add_of_pos_right hpos
  · exact Nat.lt_add_of_pos_right hpos

theorem offset_lt_after (here : Position) {text : List Char} (h : text ≠ []) :
    here.offset < (here.after text).offset := by
  obtain ⟨c, text, rfl⟩ := List.exists_cons_of_ne_nil h
  rw [after_cons]
  exact Nat.lt_of_lt_of_le (here.offset_lt_advance c) (offset_le_after _ text)

/-- Where a position of a text is once another text stands before it. Only on the first line the
column moves. -/
def shift (before : List Char) (position : Position) : Position where
  offset := (String.ofList before).utf8ByteSize + position.offset
  line := before.count '\n' + position.line
  column :=
    if position.line = 1 then (lastLine before).length + position.column else position.column

theorem shift_start (before : List Char) : start.shift before = endOf before := by
  simp [shift, start, endOf, Nat.add_comm]

theorem line_pos_advance {here : Position} (h : 0 < here.line) (c : Char) :
    0 < (here.advance c).line := by
  unfold advance
  split
  · exact Nat.succ_pos _
  · exact h

theorem shift_advance {here : Position} (h : 0 < here.line) (before : List Char) (c : Char) :
    (here.advance c).shift before = (here.shift before).advance c := by
  by_cases hfeed : c = '\n'
  · have hline : here.line ≠ 0 := by omega
    simp [shift, advance, hfeed, hline, Nat.add_assoc]
  · by_cases hline : here.line = 1
    · simp [shift, advance, hfeed, hline, Nat.add_assoc]
    · simp [shift, advance, hfeed, hline, Nat.add_assoc]

end Interpolation.Position
