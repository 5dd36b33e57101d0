import Interpolation.Proofs.Yaml.Scan
import Interpolation.Proofs.Yaml.Source

/-! Each piece that is written — a scalar behind a colon, a key in front of one, a marked key — is
read as its tokens, and the scanner comes to the line behind it with nothing left over. -/

namespace Interpolation.Yaml

/-- Marks of documents and directives stand only in the first column. -/
theorem lead?_of_pos {column : Nat} (h : 0 < column) (text : List Char) :
    lead? false column text = lead? false 1 text := by
  have hzero : (column == 0) = false := beq_eq_false_iff_ne.mpr (Nat.ne_of_gt h)
  unfold lead?
  rw [hzero]
  rfl

theorem beginsPlain_of_standing {c : Char} {text : List Char} (h : Plain.Standing (c :: text))
    (hblank : isBlank c = false) (tail : List Char) :
    beginsPlain false c (text ++ tail) = true := by
  obtain ⟨hlist, hmark⟩ := Plain.begins_eq_false h.start
  -- The three marks begin a plain scalar if a word goes on behind them.
  by_cases hc : c = '?' ∨ c = ':' ∨ c = '-'
  · obtain ⟨hne, hword⟩ := hmark hc
    obtain ⟨d, text, rfl⟩ := List.exists_cons_of_ne_nil hne
    obtain ⟨hd, -⟩ := Bool.or_eq_false_iff.mp hword
    unfold beginsPlain
    rcases hc with rfl | rfl | rfl
    · rw [Plain.endsWord_append hne, hword]
      rfl
    · rw [Plain.endsWord_append hne, hword]
      rfl
    · rw [List.cons_append, List.head?_cons, Option.any_some, hd]
      rfl
  · have hindicator : isIndicator c = false := by
      unfold isIndicator
      rw [hblank, Bool.false_or, ← Bool.not_eq_true, List.contains_iff_mem]
      intro hmem
      have hcases : ("-?:,[]\x7b\x7d#&*!|>'\"%@`".toList.all fun d =>
          "#,[]\x7b\x7d&*!|>'\"%@`".toList.contains d || (d == '?' || d == ':' || d == '-')) =
            true := rfl
      rcases Bool.or_eq_true_iff.mp (List.all_eq_true.mp hcases c hmem) with hin | hin
      · exact hlist c (List.contains_iff_mem.mp hin) rfl
      · apply hc
        simpa [or_assoc] using hin
    unfold beginsPlain
    rw [hindicator]
    rfl

theorem lead?_plain {column : Nat} (hcolumn : 0 < column) {text : List Char}
    (h : Plain.Standing text)
    (tail : List Char) : lead? false column (text ++ tail) = some .plain := by
  obtain ⟨c, text, rfl⟩ := List.exists_cons_of_ne_nil h.nonempty
  obtain ⟨hlist, hmark⟩ := Plain.begins_eq_false h.start
  have hblank : isBlank c = false := by
    apply isBlank_eq_false (h.printable c List.mem_cons_self)
    rintro rfl
    exact h.head rfl
  have hplain := beginsPlain_of_standing h hblank tail
  have hword {d : Char} (hd : d = '?' ∨ d = ':' ∨ d = '-') :
      (c == d && endsWord (text ++ tail)) = false := by
    by_cases hc : c = d
    · obtain ⟨hne, hword⟩ := hmark (hc ▸ hd)
      rw [Plain.endsWord_append hne, hword, Bool.and_false]
    · rw [beq_eq_false_iff_ne.mpr hc, Bool.false_and]
  have hbar : (c == '|') = false := beq_eq_false_iff_ne.mpr (hlist '|' (by decide))
  have hangle : (c == '>') = false := beq_eq_false_iff_ne.mpr (hlist '>' (by decide))
  have hone : (1 == 0) = false := rfl
  rw [List.cons_append, lead?_of_pos hcolumn]
  unfold lead?
  simp only [hone, Bool.false_and, Bool.false_eq_true, if_false]
  split
  -- Ten characters are tokens by themselves, and no plain scalar begins with them.
  iterate 10 exact Bool.noConfusion h.start
  · simp only [hword (Or.inr (Or.inr rfl)), hword (Or.inl rfl), hword (Or.inr (Or.inl rfl)), hbar,
      hangle, hplain, Bool.false_or, Bool.false_and, Bool.false_eq_true, if_false, if_true]

namespace Scan

variable {mark : Mark} {tokens : List Token} {indents : List Nat} {keyAllowed : Bool}

theorem moveTo_inBlock (s t : List Char) (candidate? : Option Candidate) :
    (inBlock (s ++ t) mark tokens indents candidate? keyAllowed).moveTo t =
      inBlock t (mark.advanceAll s) tokens indents candidate? keyAllowed := by
  unfold moveTo inBlock
  dsimp only
  rw [List.length_append, Nat.add_sub_cancel, List.take_left]

def candidateHere? (mark : Mark) (tokens : List Token) (indents : List Nat) (keyAllowed : Bool) :
    Option Candidate :=
  if keyAllowed then some ⟨tokens.length, indents.head? == some mark.column, mark⟩ else none

theorem saveCandidate?_inBlock (rest : List Char) :
    (inBlock rest mark tokens indents none keyAllowed).saveCandidate? = some
      (inBlock rest mark tokens indents (candidateHere? mark tokens indents keyAllowed)
        keyAllowed) := by
  cases keyAllowed with
  | false => rfl
  | true => rfl

theorem scalar_inBlock (style : Style) (content s t : List Char) (candidate? : Option Candidate)
    (allowed : Bool) :
    ((inBlock (s ++ t) mark tokens indents candidate? keyAllowed).allowKey allowed).scalar
        style content t =
      inBlock t (mark.advanceAll s) (.scalar style (String.ofList content) :: tokens) indents
        candidate? allowed := by
  have hmove := @moveTo_inBlock mark tokens indents allowed s t candidate?
  unfold scalar
  exact congrArg (fun scan : Scan => scan.emit (.scalar style (String.ofList content))) hmove

theorem take?_plain {text s t : List Char} {broken : Bool} (h : Plain.Standing text)
    (hread : Plain.read? (indents.head?.elim 0 (· + 1)) false .empty (s ++ t) =
      some ⟨[], broken, t⟩) :
    (inBlock (text ++ s ++ t) mark tokens indents none keyAllowed).take? .plain = some
      (inBlock t (mark.advanceAll (text ++ s)) (.scalar .plain (String.ofList text) :: tokens)
        indents (candidateHere? mark tokens indents keyAllowed) broken) := by
  have happend := Plain.read?_append h hread
  rw [← List.append_assoc] at happend
  unfold take?
  rw [saveCandidate?_inBlock]
  simp only [bind, Option.bind_some]
  rw [← scalar_inBlock]
  exact congrArg (Option.bind · _) happend

theorem take?_quoted {double : Bool} {text s t : List Char}
    (hread : (if double then Double.read? .empty ((s ++ t).drop 1)
      else Single.read? .empty ((s ++ t).drop 1)) = some (text, t)) :
    (inBlock (s ++ t) mark tokens indents none keyAllowed).take? (.quoted double) = some
      (inBlock t (mark.advanceAll s)
        (.scalar (if double then .double else .single) (String.ofList text) :: tokens) indents
        (candidateHere? mark tokens indents keyAllowed) false) := by
  unfold take?
  rw [saveCandidate?_inBlock]
  simp only [bind, Option.bind_some]
  rw [← scalar_inBlock]
  cases double with
  | false => exact congrArg (Option.bind · _) hread
  | true => exact congrArg (Option.bind · _) hread

theorem take?_literal {text s t : List Char}
    (hread : Block.read? false indents.head? ((s ++ t).drop 1) = some (text, t)) :
    (inBlock (s ++ t) mark tokens indents none keyAllowed).take? (.block false) = some
      (inBlock t (mark.advanceAll s) (.scalar .literal (String.ofList text) :: tokens) indents none
        true) := by
  have hdrop : (inBlock (s ++ t) mark tokens indents none keyAllowed).dropCandidate? =
      some (inBlock (s ++ t) mark tokens indents none keyAllowed) := rfl
  unfold take?
  rw [hdrop]
  simp only [bind, Option.bind_some]
  rw [← scalar_inBlock]
  exact congrArg (Option.bind · _) hread

end Scan

/-- How a scalar is written as a value in a mapping that stands at a column. -/
inductive Spells (column : Nat) : List Char → Style → List Char → Prop
  | plain {text : List Char} (h : Plain.Standing text) : Spells column text .plain text
  | single {text : List Char} (h : Scalar.Quotable text) :
    Spells column (Single.write (column + 2) text) .single text
  | double (text : List Char) : Spells column (Double.write text) .double text
  | literal {text : List Char} (hne : text ≠ []) (hshown : Shown text) :
    Spells column (Block.write (column + 2) text) .literal text

theorem spells_write (column : Nat) (text : String) :
    Spells column (Scalar.write (column + 2) text) (Scalar.style text) text.toList := by
  have hwritten := Scalar.written_style text
  unfold Scalar.write
  cases hstyle : Scalar.style text with
  | plain =>
    rw [hstyle] at hwritten
    cases hwritten with
    | plain hstanding => exact .plain hstanding
  | single =>
    rw [hstyle] at hwritten
    cases hwritten with
    | single hquotable => exact .single hquotable
  | double => exact .double text.toList
  | literal =>
    rw [hstyle] at hwritten
    cases hwritten with
    | literal hfeed hprintable => exact .literal (List.ne_nil_of_mem hfeed) hprintable
  | folded =>
    rw [hstyle] at hwritten
    cases hwritten

variable {column : Nat} {written content : List Char} {style : Style}

theorem Spells.beginsToken (h : Spells column written style content) (tail : List Char) :
    BeginsToken (written ++ tail) := by
  cases h with
  | plain h =>
    obtain ⟨c, text, rfl⟩ := List.exists_cons_of_ne_nil h.nonempty
    have hspace : c ≠ ' ' := by
      rintro rfl
      exact h.head rfl
    exact beginsToken_cons (isBlank_eq_false (h.printable c List.mem_cons_self) hspace)
      (h.oneLine c List.mem_cons_self) 
        (beq_eq_false_iff_ne.mpr ((Plain.begins_eq_false h.start).1 '#' (by decide))) _
  | single => exact beginsToken_cons rfl rfl rfl _
  | double => exact beginsToken_cons rfl rfl rfl _
  | literal => exact beginsToken_cons rfl rfl rfl _

theorem lineEnd_of_getLast? {c : Char} (h : written.getLast? = some c) (hc : isBreak c = false) :
    Block.lineEnd written = ['\n'] := by
  unfold Block.lineEnd
  rw [h, Option.any_some, hc]
  rfl

theorem Spells.lineEnd (h : Spells column written style content) :
    Block.lineEnd written = if style = .literal then Block.lineEnd content else ['\n'] := by
  cases h with
  | plain h =>
    have hlast := List.getLast?_eq_some_getLast h.nonempty
    exact lineEnd_of_getLast? hlast (h.oneLine _ (List.getLast_mem h.nonempty))
  | single =>
    apply lineEnd_of_getLast? (c := '\'') _ rfl
    unfold Single.write
    rw [List.getLast?_append]
    rfl
  | double =>
    apply lineEnd_of_getLast? (c := '"') _ rfl
    unfold Double.write
    rw [List.getLast?_append]
    rfl
  | literal hne =>
    unfold Block.lineEnd
    rw [Block.getLast?_write hne]
    rfl

namespace Scan

variable {mark : Mark} {tokens : List Token} {indents : List Nat} {keyAllowed : Bool}

theorem approach?_space {rest : List Char} (hrest : BeginsToken rest)
    (hindents : indents.head?.all (· ≤ mark.column)) :
    (inBlock (' ' :: rest) mark tokens indents none keyAllowed).approach? =
      some (inBlock rest (mark.advance ' ') tokens indents none keyAllowed) := by
  have hskip : skip false keyAllowed false mark (' ' :: rest) =
      (keyAllowed, mark.advance ' ', rest) := by
    have h := @skip_spaces mark keyAllowed 1 rest
    rw [skip_of_beginsToken hrest] at h
    exact h
  have hcolumn : (mark.advance ' ').column = mark.column + 1 := rfl
  obtain ⟨hends, hremaining⟩ := ends_of_le (head?_all_le hindents (Nat.le_succ mark.column))
  rw [approach?_inBlock hskip, hcolumn, hends, hremaining]
  rfl

/-- In front of a value no key of the same mapping can begin. -/
theorem candidateHere?_of_lt {parent : Nat} {outer : List Nat} (h : parent < mark.column) :
    ∀ candidate, candidateHere? mark tokens (parent :: outer) keyAllowed = some candidate →
      candidate.required = false ∧ candidate.mark = mark := by
  intro candidate hcandidate
  unfold candidateHere? at hcandidate
  split at hcandidate
  · have hne : (some parent == some mark.column) = false := by simpa using Nat.ne_of_lt h
    obtain rfl := Option.some.inj hcandidate
    exact ⟨hne, rfl⟩
  · cases hcandidate

variable {parent : Nat} {outer : List Nat} {text : List Char}

/-- The text behind the colon of a key: a scalar, the end of its line, and the next line. -/
def valueText (written : List Char) (column : Nat) (text : List Char) : List Char :=
  ' ' :: (written ++ (Block.lineEnd written ++ (List.replicate column ' ' ++ text)))

def ReadsValue (scan : Scan) (column : Nat) (text : List Char) (token : Token) : Prop :=
  ∃ next, scan.Leads next ∧ next.Arrives column text
    (ends column scan.indents ++ token :: scan.tokens) (remaining column scan.indents)

theorem readsValue_of_line {next : Scan} {lead : Lead} {token : Token} {rest : List Char}
    (hmark : parent < mark.column) (hrest : BeginsToken rest)
    (hlead : lead? false (mark.column + 1) rest = some lead) (hne : lead ≠ .finish)
    (htake : (inBlock rest (mark.advance ' ') tokens (parent :: outer) none keyAllowed).take? lead =
      some next) (hlength : next.rest.length ≤ rest.length)
    (harrives : next.Arrives column text (ends column (parent :: outer) ++ token :: tokens)
      (remaining column (parent :: outer))) :
    ReadsValue (inBlock (' ' :: rest) mark tokens (parent :: outer) none keyAllowed) column text
      token := by
  have hindents : (parent :: outer).head?.all (· ≤ mark.column) := by
    simpa using Nat.le_of_lt hmark
  have happroach := @approach?_space mark tokens (parent :: outer) keyAllowed rest hrest hindents
  refine ⟨next, leads_of_take? happroach hlead hne htake ?_, harrives⟩
  exact Nat.lt_succ_of_le hlength

theorem readsValue_plain (h : Plain.Standing content) (hmark : parent < mark.column)
    (htext : BeginsToken text) (hcolumn : column ≤ parent) :
    ReadsValue
      (inBlock (valueText content column text) mark tokens (parent :: outer) none keyAllowed)
      column text (.scalar .plain (String.ofList content)) := by
  have hspells : Spells column content .plain content := .plain h
  have hlineEnd := hspells.lineEnd
  rw [if_neg (by decide)] at hlineEnd
  have hread : Plain.read? (parent + 1) false .empty
      ('\n' :: List.replicate column ' ' ++ text) = some ⟨[], true, text⟩ :=
    Plain.read?_line (Nat.lt_succ_of_le hcolumn) htext
  have htake := @take?_plain (mark.advance ' ') tokens (parent :: outer) keyAllowed content
    ('\n' :: List.replicate column ' ') text true h hread
  have hlead := lead?_plain (Nat.succ_pos mark.column) h ('\n' :: List.replicate column ' ' ++ text)
  have hbegins := hspells.beginsToken ('\n' :: List.replicate column ' ' ++ text)
  have hassoc : content ++ (['\n'] ++ (List.replicate column ' ' ++ text)) =
      content ++ '\n' :: List.replicate column ' ' ++ text := by
    simp only [List.append_assoc, List.cons_append, List.nil_append]
  obtain ⟨hplace, hline⟩ := @Mark.advanceAll_line '\n' rfl content column (mark.advance ' ')
  -- The candidate in front of the value is not a required one, and it grows stale at the break.
  have hcandidate := @candidateHere?_of_lt (mark.advance ' ') tokens keyAllowed parent outer
    (Nat.lt_succ_of_lt hmark)
  rw [← List.append_assoc] at hlead hbegins
  unfold valueText
  rw [hlineEnd, hassoc]
  apply readsValue_of_line hmark hbegins hlead (by decide) htake (List.suffix_append _ _).length_le
  apply arrives_of_start hplace htext
  intro candidate heq
  obtain ⟨hrequired, hcandidateMark⟩ := hcandidate candidate heq
  exact ⟨hrequired, hcandidateMark ▸ hline⟩

theorem readsValue_quoted (double : Bool) {quote : Char} {body : List Char}
    (hwritten : written = quote :: body) (hquote : quote = if double then '"' else '\'')
    (hlineEnd : Block.lineEnd written = ['\n'])
    (hread : ∀ tail, tail.head? ≠ some '\'' →
      (if double then Double.read? .empty ((written ++ tail).drop 1)
      else Single.read? .empty ((written ++ tail).drop 1)) = some (content, tail))
    (hmark : parent < mark.column) (htext : BeginsToken text) :
    ReadsValue
      (inBlock (valueText written column text) mark tokens (parent :: outer) none keyAllowed)
      column text (.scalar (if double then .double else .single) (String.ofList content)) := by
  have htake := @take?_quoted (mark.advance ' ') tokens (parent :: outer) keyAllowed double content
    written ('\n' :: (List.replicate column ' ' ++ text)) (hread _ (by simp))
  have hcandidate := @candidateHere?_of_lt (mark.advance ' ') tokens keyAllowed parent outer
    (Nat.lt_succ_of_lt hmark)
  have hlead : lead? false (mark.column + 1)
      (written ++ '\n' :: (List.replicate column ' ' ++ text)) = some (.quoted double) := by
    rw [hwritten, hquote, List.cons_append]
    cases double with
    | false => exact lead?_of_pos (Nat.succ_pos _) _
    | true => exact lead?_of_pos (Nat.succ_pos _) _
  have hbegins : BeginsToken (written ++ '\n' :: (List.replicate column ' ' ++ text)) := by
    rw [hwritten, hquote, List.cons_append]
    cases double with
    | false => exact beginsToken_cons rfl rfl rfl _
    | true => exact beginsToken_cons rfl rfl rfl _
  unfold valueText
  rw [hlineEnd, List.singleton_append]
  apply readsValue_of_line hmark hbegins hlead (by simp) htake (List.suffix_append _ _).length_le
  apply arrives_of_line htext
  intro candidate heq
  obtain ⟨hrequired, hcandidateMark⟩ := hcandidate candidate heq
  exact ⟨hrequired, hcandidateMark ▸ Mark.line_le_advanceAll _ _⟩

theorem readsValue_literal (hne : content ≠ []) (hshown : Shown content)
    (hmark : parent < mark.column) (htext : BeginsToken text) (hcolumn : column ≤ parent) :
    ReadsValue (inBlock (valueText (Block.write (parent + 2) content) column text) mark tokens
      (parent :: outer) none keyAllowed)
      column text (.scalar .literal (String.ofList content)) := by
  have hspells : Spells parent (Block.write (parent + 2) content) .literal content :=
    .literal hne hshown
  have hlineEnd := hspells.lineEnd
  rw [if_pos rfl] at hlineEnd
  obtain ⟨front, c, hfront, hc⟩ := @Block.exists_break (parent + 2) content hne
  have hassoc : Block.write (parent + 2) content ++
      (Block.lineEnd content ++ (List.replicate column ' ' ++ text)) =
        front ++ c :: List.replicate column ' ' ++ text := by
    rw [← List.append_assoc, hfront, List.append_assoc, List.append_assoc, List.singleton_append,
      List.cons_append]
  have hread := @Block.read?_write column text content parent hne hshown hcolumn htext
  have hbegins := hspells.beginsToken (Block.lineEnd content ++ (List.replicate column ' ' ++ text))
  have hlead : lead? false (mark.column + 1) (Block.write (parent + 2) content ++
      (Block.lineEnd content ++ (List.replicate column ' ' ++ text))) = some (.block false) :=
    lead?_of_pos (Nat.succ_pos _) _
  rw [hassoc] at hread hbegins hlead
  have htake := @take?_literal (mark.advance ' ') tokens (parent :: outer) keyAllowed content
    (front ++ c :: List.replicate column ' ') text hread
  obtain ⟨hplace, -⟩ := Mark.advanceAll_line hc front column (mark.advance ' ')
  unfold valueText
  rw [hlineEnd, hassoc]
  apply readsValue_of_line hmark hbegins hlead (by decide) htake (List.suffix_append _ _).length_le
  apply arrives_of_start hplace htext
  intro candidate heq
  cases heq

theorem readsValue (h : Spells parent written style content) (hmark : parent < mark.column)
    (htext : BeginsToken text) (hcolumn : column ≤ parent) :
    ReadsValue
      (inBlock (valueText written column text) mark tokens (parent :: outer) none keyAllowed)
      column text (.scalar style (String.ofList content)) := by
  have hlineEnd := h.lineEnd
  cases h with
  | plain hstanding => exact readsValue_plain hstanding hmark htext hcolumn
  | single hquotable =>
    exact readsValue_quoted false rfl rfl hlineEnd
      (fun tail htail => Single.read?_write (Nat.succ_pos _) hquotable htail) hmark htext
  | double =>
    exact readsValue_quoted true rfl rfl hlineEnd
      (fun tail _ => Double.read?_write content tail) hmark
      htext
  | literal hne hshown => exact readsValue_literal hne hshown hmark htext hcolumn

end Scan

end Interpolation.Yaml
