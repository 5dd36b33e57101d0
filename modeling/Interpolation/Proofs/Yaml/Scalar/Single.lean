import Interpolation.Proofs.Yaml.Gap

/-! Text that can be shown, without a line feed and without spaces around breaks, is read as it was
written between single quotes. The induction is on the text, and the gap that has been read so far
is what the reader has still to account for. -/

namespace Interpolation.Yaml

namespace Scalar

theorem anyNeighbours_cons {p : Char → Char → Bool} {c : Char} {rest : List Char}
    (h : anyNeighbours p (c :: rest) = false) :
    rest.head?.any (p c) = false ∧ anyNeighbours p rest = false := by
  cases rest with
  | nil => exact ⟨rfl, rfl⟩
  | cons d rest => exact Bool.or_eq_false_iff.mp h

/-- Text that single quotes allow, on lines that end in Unicode separators. -/
structure Quotable (text : List Char) : Prop where
  printable : ∀ c ∈ text, Double.isPrintable c = true
  feedless : '\n' ∉ text
  spaceBreak : anyNeighbours (fun a b => a == ' ' && isBreak b) text = false
  breakSpace : anyNeighbours (fun a b => isBreak a && b == ' ') text = false

namespace Quotable

variable {c : Char} {rest : List Char}

theorem tail (h : Quotable (c :: rest)) : Quotable rest :=
  ⟨fun d hd => h.printable d (List.mem_cons_of_mem c hd),
    fun hn => h.feedless (List.mem_cons_of_mem c hn),
    (anyNeighbours_cons h.spaceBreak).2, (anyNeighbours_cons h.breakSpace).2⟩

theorem head (h : Quotable (c :: rest)) : Double.isPrintable c = true ∧ c ≠ '\n' :=
  ⟨h.printable c List.mem_cons_self, fun hc => h.feedless (hc ▸ List.mem_cons_self)⟩

theorem not_break (h : Quotable (' ' :: rest)) : rest.head?.any isBreak = false :=
  (anyNeighbours_cons h.spaceBreak).1

theorem not_space (h : Quotable (c :: rest)) (hc : isBreak c = true) : rest.head? ≠ some ' ' := by
  intro hhead
  have hnone := (anyNeighbours_cons h.breakSpace).1
  rw [hhead, hc] at hnone
  exact Bool.noConfusion hnone

end Quotable

end Scalar

namespace Single

open Yaml.Scalar

variable {gap : Gap} {c : Char} {rest : List Char}

theorem read?_of_gap (h : (isBlank c || isBreak c) = true) :
    read? gap (c :: rest) = read? (gap.push c) rest := by
  rw [read?.eq_def]
  dsimp only
  rw [if_pos h]

theorem read?_of_letter (hblank : isBlank c = false) (hbreak : isBreak c = false)
    (hstart : gap.atLineStart = false) (hquote : c ≠ '\'') :
    read? gap (c :: rest) = (read? .empty rest).map fun (content, rest) =>
      (gap.text ++ c :: content, rest) := by
  rw [read?.eq_def]
  simp only [hblank, hbreak, hstart, hquote, Bool.or_self, Bool.false_and, Bool.false_eq_true,
    if_false]

theorem read?_quotes (hstart : gap.atLineStart = false) :
    read? gap ('\'' :: '\'' :: rest) = (read? .empty rest).map fun (content, rest) =>
      (gap.text ++ '\'' :: content, rest) := by
  rw [read?.eq_def]
  simp only [hstart, Bool.false_and, Bool.false_eq_true, if_false, if_true]
  rfl

theorem read?_quote (hstart : gap.atLineStart = false) (hrest : rest.head? ≠ some '\'') :
    read? gap ('\'' :: rest) = some (gap.text, rest) := by
  rw [read?]
  · simp only [hstart, Bool.false_and, Bool.false_eq_true, if_false, if_true]
    rfl
  · rintro rest rfl
    exact hrest rfl

/-- The gap in front of what is left of a text, and whether a line has just ended in it. -/
inductive Pending : Gap → Bool → List Char → Prop
  | within {blanks rest : List Char} (h : blanks ≠ [] → rest.head?.any isBreak = false) :
    Pending (.within blanks) false rest
  | behind {breaks rest : List Char} (hne : breaks ≠ []) (hfeed : '\n' ∉ breaks)
    (h : rest.head? ≠ some ' ') : Pending (.behind breaks 0) true rest

theorem Pending.empty (rest : List Char) : Pending .empty false rest :=
  Pending.within fun h => absurd rfl h

variable {broken : Bool} {indent : Nat}

theorem Pending.push_break (h : Pending gap broken (c :: rest)) (hquotable : Quotable (c :: rest))
    (hc : isBreak c = true) :
    Pending (gap.push c) true rest ∧ (gap.push c).text = gap.text ++ [c] := by
  have hspace := hquotable.not_space hc
  have hfeed := hquotable.head.2.symm
  cases h with
  | @within blanks _ hblanks =>
    have hnil : blanks = [] := by
      apply Classical.byContradiction
      intro hne
      exact Bool.noConfusion (hc.symm.trans (hblanks hne))
    have hmem : '\n' ∉ [c] := by simpa using hfeed
    rw [hnil, Gap.push_break hc, Gap.text_behind hmem]
    exact ⟨.behind (List.cons_ne_nil c []) hmem hspace, rfl⟩
  | @behind breaks _ hne hbreaks =>
    have hmem : '\n' ∉ breaks ++ [c] := by simpa using ⟨hbreaks, hfeed⟩
    rw [Gap.push_behind_break hc, Gap.text_behind hmem, Gap.text_behind hbreaks]
    exact ⟨.behind (List.append_ne_nil_of_right_ne_nil _ (List.cons_ne_nil c [])) hmem hspace, rfl⟩

theorem read?_spaces {breaks : List Char} (hne : breaks ≠ []) (column k : Nat) (rest : List Char) :
    read? (.behind breaks column) (List.replicate k ' ' ++ rest) =
      read? (.behind breaks (column + k)) rest := by
  induction k generalizing column with
  | zero => rfl
  | succ k ih =>
    rw [List.replicate_succ, List.cons_append, read?_of_gap rfl, Gap.push_behind_blank hne rfl, ih]
    congr 2
    omega

theorem exists_read?_indented (hindent : 0 < indent) (h : Pending gap broken rest)
    (tail : List Char) :
    ∃ gap', gap'.atLineStart = false ∧ gap'.text = gap.text ∧
      read? gap ((if broken then List.replicate indent ' ' else []) ++ tail) = read? gap' tail := by
  cases h with
  | within => exact ⟨_, Gap.atLineStart_within, rfl, rfl⟩
  | @behind breaks _ hne hfeed =>
    refine ⟨.behind breaks indent, Gap.atLineStart_behind hindent, ?_, ?_⟩
    · rw [Gap.text_behind hfeed, Gap.text_behind hfeed]
    · have h := read?_spaces hne 0 indent tail
      rwa [Nat.zero_add] at h

theorem Pending.push_space (h : Pending gap broken (' ' :: rest))
    (hquotable : Quotable (' ' :: rest)) :
    broken = false ∧ Pending (gap.push ' ') false rest ∧
      (gap.push ' ').text = gap.text ++ [' '] := by
  cases h with
  | @within blanks =>
    rw [Gap.push_within rfl]
    exact ⟨rfl, .within fun _ => hquotable.not_break, rfl⟩
  | behind _ _ hspace => exact absurd rfl hspace

theorem writeChars_break (hc : isBreak c = true) (rest : List Char) :
    writeChars indent broken (c :: rest) = c :: writeChars indent true rest := by
  have hquote : c ≠ '\'' := ne_of_isBreak hc rfl
  rw [writeChars]
  simp only [hc, hquote, if_true, if_false]
  rfl

theorem writeChars_letter (hc : isBreak c = false) (rest : List Char) :
    writeChars indent broken (c :: rest) = (if broken then List.replicate indent ' ' else []) ++
      ((if c = '\'' then ['\'', '\''] else [c]) ++ writeChars indent false rest) := by
  rw [writeChars]
  simp only [hc, Bool.false_eq_true, if_false, List.append_assoc]

/-- What stands behind the text: the closing quote, indented where a line has just ended. -/
def closing (indent : Nat) (broken : Bool) (text rest : List Char) : List Char :=
  (if text.getLast?.elim broken isBreak then List.replicate indent ' ' else []) ++ '\'' :: rest

theorem closing_cons (c : Char) (text rest : List Char) :
    closing indent broken (c :: text) rest = closing indent (isBreak c) text rest := by
  unfold closing
  rw [List.getLast?_cons]
  cases text.getLast? with
  | none => rfl
  | some d => rfl

theorem read?_writeChars {text rest : List Char} (hindent : 0 < indent) (hquotable : Quotable text)
    (hpending : Pending gap broken text) (hrest : rest.head? ≠ some '\'') :
    read? gap (writeChars indent broken text ++ closing indent broken text rest) =
      some (gap.text ++ text, rest) := by
  -- What the gap read so far still owes to the text is the invariant `Pending`.
  induction text generalizing gap broken with
  | nil =>
    obtain ⟨gap', hstart, htext, hread⟩ := exists_read?_indented hindent hpending ('\'' :: rest)
    rw [List.append_nil, ← htext, ← read?_quote hstart hrest]
    exact hread
  | cons c text ih =>
    rw [closing_cons]
    cases hc : isBreak c with
    | true =>
      obtain ⟨hpush, htext⟩ := hpending.push_break hquotable hc
      rw [writeChars_break hc, List.cons_append, read?_of_gap (by rw [hc, Bool.or_true]),
        ih hquotable.tail hpush, htext, List.append_assoc]
      rfl
    | false =>
      rw [writeChars_letter hc]
      by_cases hspace : c = ' '
      · subst hspace
        obtain ⟨rfl, hpush, htext⟩ := hpending.push_space hquotable
        rw [if_neg Bool.false_ne_true, List.nil_append, if_neg (by decide), List.append_assoc,
          List.singleton_append, read?_of_gap rfl, ih hquotable.tail hpush, htext,
          List.append_assoc]
        rfl
      · have hblank := isBlank_eq_false hquotable.head.1 hspace
        have hrec := ih hquotable.tail (Pending.empty text)
        rw [List.append_assoc, List.append_assoc]
        obtain ⟨gap', hstart, htext, hread⟩ := exists_read?_indented hindent hpending
          ((if c = '\'' then ['\'', '\''] else [c]) ++
            (writeChars indent false text ++ closing indent false text rest))
        rw [hread]
        by_cases hquote : c = '\''
        · subst hquote
          rw [if_pos rfl, List.cons_append, List.singleton_append, read?_quotes hstart, hrec, htext]
          rfl
        · rw [if_neg hquote, List.singleton_append, read?_of_letter hblank hc hstart hquote,
            hrec, htext]
          rfl

theorem read?_write {text rest : List Char} (hindent : 0 < indent) (hquotable : Quotable text)
    (hrest : rest.head? ≠ some '\'') :
    read? .empty ((write indent text ++ rest).drop 1) = some (text, rest) := by
  have h := read?_writeChars hindent hquotable (Pending.empty text) hrest
  have hany : text.getLast?.elim false isBreak = text.getLast?.any isBreak := by
    cases text.getLast? with
    | none => rfl
    | some c => rfl
  rw [closing, hany] at h
  unfold write
  simp only [List.cons_append, List.append_assoc, List.drop_one, List.tail_cons, List.nil_append]
  exact h

end Single

end Interpolation.Yaml
