import Interpolation.Proofs.Yaml.Gap
import Interpolation.Yaml.Token.Reader

/-! One token at a time, outside of brackets: from a state the scanner goes to the next token and
takes it, and every state reads the tokens that the state after it reads. Nothing here is about what
is between two tokens but blanks and breaks; comments do not occur in what is written. -/

namespace Interpolation.Yaml

namespace Mark

variable {mark : Mark} {c : Char} {s t : List Char}

theorem advanceAll_cons : mark.advanceAll (c :: t) = (mark.advance c).advanceAll t := rfl

theorem advanceAll_append : mark.advanceAll (s ++ t) = (mark.advanceAll s).advanceAll t :=
  List.foldl_append

theorem advance_of_break (h : isBreak c = true) :
    mark.advance c = ⟨mark.index + 1, mark.line + 1, 0⟩ :=
  if_pos h

theorem advance_of_not_break (h : isBreak c = false) :
    mark.advance c = ⟨mark.index + 1, mark.line, mark.column + 1⟩ :=
  if_neg (by simp [h])

theorem column_lt_advance (h : isBreak c = false) : mark.column < (mark.advance c).column := by
  rw [advance_of_not_break h]
  exact Nat.lt_succ_self _

theorem advanceAll_of_oneLine (h : ∀ c ∈ s, isBreak c = false) :
    mark.advanceAll s = ⟨mark.index + s.length, mark.line, mark.column + s.length⟩ := by
  induction s generalizing mark with
  | nil => rfl
  | cons c s ih =>
    rw [advanceAll_cons, advance_of_not_break (h c List.mem_cons_self),
      ih fun d hd => h d (List.mem_cons_of_mem c hd), List.length_cons]
    have hsum (n : Nat) : n + 1 + s.length = n + (s.length + 1) := by omega
    rw [hsum, hsum]

theorem line_le_advanceAll (s : List Char) (mark : Mark) :
    mark.line ≤ (mark.advanceAll s).line := by
  induction s generalizing mark with
  | nil => exact Nat.le_refl _
  | cons c s ih =>
    rw [advanceAll_cons]
    apply Nat.le_trans _ (ih _)
    unfold advance
    split
    · exact Nat.le_succ _
    · exact Nat.le_refl _

theorem advanceAll_spaces (k : Nat) (mark : Mark) :
    mark.advanceAll (List.replicate k ' ') = ⟨mark.index + k, mark.line, mark.column + k⟩ := by
  have h := @advanceAll_of_oneLine mark (List.replicate k ' ') fun c hc =>
    List.eq_of_mem_replicate hc ▸ rfl
  rwa [List.length_replicate] at h

theorem advanceAll_line (h : isBreak c = true) (s : List Char) (k : Nat) (mark : Mark) :
    (mark.advanceAll (s ++ c :: List.replicate k ' ')).column = k ∧
      mark.line < (mark.advanceAll (s ++ c :: List.replicate k ' ')).line := by
  have hline := line_le_advanceAll s mark
  rw [advanceAll_append, advanceAll_cons, advance_of_break h, advanceAll_spaces]
  exact ⟨Nat.zero_add k, Nat.lt_succ_of_le hline⟩

end Mark

namespace Scan

variable {scan here next : Scan} {mark : Mark} {rest : List Char}

/-- The scan reads these tokens, with any fuel that is enough. -/
def Reads (scan : Scan) (tokens : List Token) : Prop :=
  ∀ fuel, scan.rest.length < fuel → scan.run? fuel = some tokens

/-- What is read from the second state on is read from the first one. -/
def Leads (scan next : Scan) : Prop :=
  ∀ tokens, next.Reads tokens → scan.Reads tokens

theorem Leads.trans {last : Scan} (h : scan.Leads next) (h' : next.Leads last) : scan.Leads last :=
  fun tokens hreads => h tokens (h' tokens hreads)

theorem leads_of_take? {lead : Lead} (happroach : scan.approach? = some here)
    (hlead : lead? here.inFlow here.mark.column here.rest = some lead) (hne : lead ≠ .finish)
    (htake : here.take? lead = some next) (hlength : next.rest.length < scan.rest.length) :
    scan.Leads next := by
  intro tokens hreads fuel hfuel
  cases fuel with
  | zero => exact absurd hfuel (Nat.not_lt_zero _)
  | succ fuel =>
    have hrun := hreads fuel (by omega)
    unfold run?
    rw [happroach]
    simp only [bind, Option.bind_some, hlead, htake]
    exact hrun

theorem reads_of_leave? (happroach : scan.approach? = some here) (hrest : here.rest = [])
    (hleave : here.leave? = some next) : scan.Reads next.tokens.reverse := by
  intro fuel hfuel
  cases fuel with
  | zero => exact absurd hfuel (Nat.not_lt_zero _)
  | succ fuel =>
    unfold run?
    rw [happroach]
    simp only [bind, Option.bind_some, hrest, lead?, hleave, Option.map_some]

variable {keyAllowed : Bool}

theorem skip_spaces (k : Nat) (rest : List Char) :
    skip false keyAllowed false mark (List.replicate k ' ' ++ rest) =
      skip false keyAllowed false (mark.advanceAll (List.replicate k ' ')) rest := by
  induction k generalizing mark with
  | zero => rfl
  | succ k ih =>
    rw [List.replicate_succ, List.cons_append, Mark.advanceAll_cons, ← ih]
    rfl

theorem skip_feed (rest : List Char) : skip false keyAllowed false mark ('\n' :: rest) =
    skip false true false (mark.advance '\n') rest := by
  have hbreak : isBreak '\n' = true := rfl
  rw [skip, if_pos hbreak, Bool.not_false, Bool.or_true]

theorem skip_of_beginsToken (h : BeginsToken rest) :
    skip false keyAllowed false mark rest = (keyAllowed, mark, rest) := by
  cases rest with
  | nil => rfl
  | cons c rest =>
    obtain ⟨hblank, hbreak, hsign⟩ := h.head
    obtain ⟨hspace, htab⟩ : c ≠ ' ' ∧ c ≠ '\t' := by simpa [isBlank] using hblank
    unfold skip
    simp only [hbreak, beq_eq_false_iff_ne.mpr hspace, beq_eq_false_iff_ne.mpr htab,
      beq_eq_false_iff_ne.mpr hsign, Bool.false_and, Bool.or_self, Bool.false_eq_true, if_false]

/-- A state outside of brackets, in a document without anchors. -/
def inBlock (rest : List Char) (mark : Mark) (tokens : List Token) (indents : List Nat)
    (candidate? : Option Candidate) (keyAllowed : Bool) : Scan :=
  ⟨rest, mark, tokens, indents, candidate?, [], keyAllowed, []⟩

def ends (column : Nat) (indents : List Nat) : List Token :=
  (indents.takeWhile (column < ·)).map fun _ => .blockEnd

def remaining (column : Nat) (indents : List Nat) : List Nat :=
  indents.dropWhile (column < ·)

variable {tokens : List Token} {indents : List Nat} {candidate? : Option Candidate} {column : Nat}

theorem head?_all_le {n m : Nat} (h : indents.head?.all (· ≤ n)) (hle : n ≤ m) :
    indents.head?.all (· ≤ m) := by
  cases indents with
  | nil => rfl
  | cons k indents =>
    have hk : k ≤ n := by simpa using h
    simpa using Nat.le_trans hk hle

theorem ends_of_le (h : indents.head?.all (· ≤ column)) :
    ends column indents = [] ∧ remaining column indents = indents := by
  cases indents with
  | nil => exact ⟨rfl, rfl⟩
  | cons n indents =>
    have hle : n ≤ column := by simpa using h
    have hnot : decide (column < n) = false := decide_eq_false (Nat.not_lt.mpr hle)
    simp [ends, remaining, hnot]

theorem approach?_inBlock {keyAllowed' : Bool} {mark' : Mark} {rest' : List Char}
    (hskip : skip false keyAllowed false mark rest = (keyAllowed', mark', rest')) :
    (inBlock rest mark tokens indents candidate? keyAllowed).approach? =
      (refresh? mark' candidate?).map fun candidate? => inBlock rest' mark'
        (ends mark'.column indents ++ tokens) (remaining mark'.column indents) candidate?
          keyAllowed' := by
  have hflow : (inBlock rest mark tokens indents candidate? keyAllowed).inFlow = false := rfl
  unfold approach?
  rw [hflow]
  unfold inBlock
  simp only [hskip, bind, List.mapM_nil, pure]
  cases refresh? mark' candidate? with
  | none => rfl
  | some candidate? => rfl

/-- A candidate that need not be a key and stands on an earlier line. -/
def IsPassing (mark : Mark) (candidate? : Option Candidate) : Prop :=
  ∀ candidate, candidate? = some candidate →
    candidate.required = false ∧ candidate.mark.line < mark.line

theorem refresh?_of_isPassing (h : IsPassing mark candidate?) :
    refresh? mark candidate? = some none := by
  cases candidate? with
  | none => rfl
  | some candidate =>
    obtain ⟨hrequired, hline⟩ := h candidate rfl
    have hstale : isStale mark candidate = true := by
      unfold isStale
      rw [decide_eq_true hline, Bool.true_or]
    unfold refresh?
    simp only [hstale, hrequired, if_true, Bool.false_eq_true, if_false]

/-- The scanner comes to a text at a column, at a place where a key may begin. -/
def Arrives (scan : Scan) (column : Nat) (text : List Char) (tokens : List Token)
    (indents : List Nat) : Prop :=
  ∃ mark : Mark, mark.column = column ∧ text.length ≤ scan.rest.length ∧
    scan.approach? = some (inBlock text mark tokens indents none true)

theorem arrives_of_start {text : List Char} (hcolumn : mark.column = column)
    (htext : BeginsToken text) (hcandidate : IsPassing mark candidate?) :
    (inBlock text mark tokens indents candidate? true).Arrives column text
      (ends column indents ++ tokens) (remaining column indents) := by
  refine ⟨mark, hcolumn, Nat.le_refl _, ?_⟩
  rw [approach?_inBlock (skip_of_beginsToken htext), refresh?_of_isPassing hcandidate, hcolumn]
  rfl

theorem arrives_of_line {text : List Char} (htext : BeginsToken text)
    (hcandidate : ∀ candidate, candidate? = some candidate →
      candidate.required = false ∧ candidate.mark.line ≤ mark.line) :
    (inBlock ('\n' :: (List.replicate column ' ' ++ text)) mark tokens indents candidate?
      keyAllowed).Arrives column text (ends column indents ++ tokens)
        (remaining column indents) := by
  have hskip : skip false keyAllowed false mark ('\n' :: (List.replicate column ' ' ++ text)) =
      (true, mark.advanceAll ('\n' :: List.replicate column ' '), text) := by
    rw [skip_feed, skip_spaces, skip_of_beginsToken htext]
    rfl
  obtain ⟨hcolumn, hline⟩ := @Mark.advanceAll_line '\n' rfl [] column mark
  rw [List.nil_append] at hcolumn hline
  have hpassing : IsPassing (mark.advanceAll ('\n' :: List.replicate column ' ')) candidate? := by
    intro candidate heq
    obtain ⟨hrequired, hle⟩ := hcandidate candidate heq
    exact ⟨hrequired, Nat.lt_of_le_of_lt hle hline⟩
  refine ⟨_, hcolumn, ?_, ?_⟩
  · unfold inBlock
    simp only [List.length_cons, List.length_append]
    omega
  · rw [approach?_inBlock hskip, refresh?_of_isPassing hpassing, hcolumn]
    rfl

end Scan

end Interpolation.Yaml
