import Interpolation.Proofs.Yaml.Token

/-! A key stands in front of its colon, or is marked and has a line of its own. Either way the
tokens of a mapping come to be in front of it: the announcement of the key, and the start of the
mapping where the key is its first. -/

namespace Interpolation.Yaml

theorem lead?_value {column : Nat} (h : 0 < column) {rest : List Char}
    (hrest : endsWord rest = true) :
    lead? false column (':' :: rest) = some .value := by
  rw [lead?_of_pos h]
  unfold lead?
  simp only [hrest]
  rfl

theorem lead?_key {column : Nat} (h : 0 < column) {rest : List Char}
    (hrest : endsWord rest = true) :
    lead? false column ('?' :: rest) = some .key := by
  rw [lead?_of_pos h]
  unfold lead?
  simp only [hrest]
  rfl

namespace Scan

variable {mark : Mark} {tokens : List Token} {indents : List Nat} {keyAllowed : Bool} {column : Nat}
  {candidate? : Option Candidate} {rest : List Char}

/-- The start of a mapping at a column, where none stands there yet. -/
def opened (column : Nat) (indents : List Nat) : List Token :=
  if indents.head?.all (· < column) then [.blockMappingStart] else []

def opening (column : Nat) (indents : List Nat) : List Nat :=
  if indents.head?.all (· < column) then column :: indents else indents

theorem insertAt_inBlock (newer older inserted : List Token) :
    (inBlock rest mark (newer ++ older) indents candidate? keyAllowed).insertAt
        older.length inserted =
      inBlock rest mark (newer ++ (inserted.reverse ++ older)) indents candidate? keyAllowed := by
  unfold insertAt inBlock
  dsimp only
  rw [List.length_append, Nat.add_sub_cancel, List.take_left, List.drop_left, List.append_assoc]

theorem roll_inBlock (newer older : List Token) :
    (inBlock rest mark (newer ++ older) indents candidate? keyAllowed).roll column older.length
        .blockMappingStart =
      inBlock rest mark (newer ++ (opened column indents ++ older)) (opening column indents)
        candidate? keyAllowed := by
  have hindents :
      (inBlock rest mark (newer ++ older) indents candidate? keyAllowed).indents = indents := rfl
  unfold roll opened opening
  rw [hindents]
  split
  · rw [insertAt_inBlock]
    rfl
  · rfl

theorem single_inBlock (c : Char) (token : Token) :
    (inBlock (c :: rest) mark tokens indents candidate? keyAllowed).single token =
      inBlock rest (mark.advance c) (token :: tokens) indents candidate? keyAllowed := by
  have hmove := @moveTo_inBlock mark tokens indents keyAllowed [c] rest candidate?
  exact congrArg (fun scan : Scan => scan.emit token) hmove

theorem value?_of_candidate (token : Token) (required : Bool) (start : Mark) :
    (inBlock (':' :: rest) mark (token :: tokens) indents (some ⟨tokens.length, required, start⟩)
      keyAllowed).value? =
      some (inBlock rest (mark.advance ':')
        (.value :: token :: .key :: (opened start.column indents ++ tokens))
        (opening start.column indents) none false) := by
  let candidate : Candidate := ⟨tokens.length, required, start⟩
  have hvalue : (inBlock (':' :: rest) mark (token :: tokens) indents (some candidate)
      keyAllowed).value? = some (single .value
        { ((inBlock (':' :: rest) mark (token :: tokens) indents (some candidate)
            keyAllowed).insertAt tokens.length [.key]).roll start.column tokens.length
              .blockMappingStart with
          candidate? := none, keyAllowed := false }) := rfl
  have hinsert : (inBlock (':' :: rest) mark (token :: tokens) indents (some candidate)
      keyAllowed).insertAt tokens.length [.key] =
        inBlock (':' :: rest) mark (token :: .key :: tokens) indents (some candidate) keyAllowed :=
    insertAt_inBlock [token] tokens [.key]
  have hroll : (inBlock (':' :: rest) mark (token :: .key :: tokens) indents (some candidate)
      keyAllowed).roll start.column tokens.length .blockMappingStart =
        inBlock (':' :: rest) mark (token :: .key :: (opened start.column indents ++ tokens))
          (opening start.column indents) (some candidate) keyAllowed :=
    roll_inBlock [token, .key] tokens
  rw [hvalue, hinsert, hroll]
  exact congrArg some (single_inBlock ':' .value)

theorem value?_of_marked {outer : List Nat} :
    (inBlock (':' :: rest) mark tokens (mark.column :: outer) none true).value? =
      some (inBlock rest (mark.advance ':') (.value :: tokens) (mark.column :: outer) none
        true) := by
  have hroll : (inBlock (':' :: rest) mark tokens (mark.column :: outer) none true).rollHere?
      .blockMappingStart =
        some (inBlock (':' :: rest) mark tokens (mark.column :: outer) none true) := by
    have hopened : opened mark.column (mark.column :: outer) = [] := by simp [opened]
    have hopening : opening mark.column (mark.column :: outer) = mark.column :: outer := by
      simp [opening]
    have h := @roll_inBlock mark (mark.column :: outer) true mark.column none (':' :: rest) []
      tokens
    rw [hopened, hopening] at h
    exact congrArg some h
  have hvalue : (inBlock (':' :: rest) mark tokens (mark.column :: outer) none true).value? =
      ((inBlock (':' :: rest) mark tokens (mark.column :: outer) none true).rollHere?
        .blockMappingStart).bind fun scan =>
          some (single .value (scan.allowKey (!scan.inFlow))) := rfl
  rw [hvalue, hroll]
  exact congrArg some (single_inBlock ':' .value)

theorem take?_key :
    (inBlock ('?' :: rest) mark tokens indents none true).take? .key =
      some (inBlock rest (mark.advance '?') (.key :: (opened mark.column indents ++ tokens))
        (opening mark.column indents) none true) := by
  have hroll : (inBlock ('?' :: rest) mark tokens indents none true).rollHere? .blockMappingStart =
      some (inBlock ('?' :: rest) mark (opened mark.column indents ++ tokens)
        (opening mark.column indents) none true) :=
    congrArg some (roll_inBlock [] tokens)
  have htake : (inBlock ('?' :: rest) mark tokens indents none true).take? .key =
      ((inBlock ('?' :: rest) mark tokens indents none true).rollHere? .blockMappingStart).bind
        fun scan => scan.dropCandidate?.bind fun scan =>
          some (single .key (scan.allowKey (!scan.inFlow))) := rfl
  rw [htake, hroll]
  exact congrArg some (single_inBlock '?' .key)

end Scan

def Style.lead : Style → Lead
  | plain => .plain
  | single => .quoted false
  | double => .quoted true
  | literal => .block false
  | folded => .block true

theorem Style.lead_ne_finish (style : Style) : style.lead ≠ .finish := by
  cases style with
  | plain => decide
  | single => decide
  | double => decide
  | literal => decide
  | folded => decide

variable {parent column : Nat} {written content rest : List Char} {style : Style}

theorem Spells.lead? (h : Spells parent written style content) (hcolumn : 0 < column)
    (tail : List Char) : lead? false column (written ++ tail) = some style.lead := by
  cases h with
  | plain h => exact lead?_plain hcolumn h tail
  | single => exact lead?_of_pos hcolumn _
  | double => exact lead?_of_pos hcolumn _
  | literal => exact lead?_of_pos hcolumn _

theorem Spells.ne_nil (h : Spells parent written style content) : written ≠ [] := by
  cases h with
  | plain h => exact h.nonempty
  | single => exact List.cons_ne_nil _ _
  | double => exact List.cons_ne_nil _ _
  | literal => exact List.cons_ne_nil _ _

structure Entry where
  keyStyle : Style
  key : List Char
  valueStyle : Style
  value : List Char

def Entry.tokens (entry : Entry) : List Token :=
  [.key, .scalar entry.keyStyle (String.ofList entry.key), .value,
    .scalar entry.valueStyle (String.ofList entry.value)]

namespace Scan

variable {scan : Scan} {mark : Mark} {tokens : List Token} {indents outer : List Nat}

theorem take?_in_front_of_colon (h : Spells parent written style content)
    (honeLine : ∀ c ∈ written, isBreak c = false) (hrest : endsWord rest = true) :
    (inBlock (written ++ ':' :: rest) mark tokens indents none true).take? style.lead = some
      (inBlock (':' :: rest) (mark.advanceAll written)
        (.scalar style (String.ofList content) :: tokens) indents
        (candidateHere? mark tokens indents true) false) := by
  cases h with
  | plain hstanding =>
    have h := @take?_plain mark tokens indents true written [] (':' :: rest) false hstanding
      (Plain.read?_colon hrest)
    rw [List.append_nil] at h
    exact h
  | single hquotable =>
    exact @take?_quoted mark tokens indents true false content _ (':' :: rest)
      (Single.read?_write (Nat.succ_pos _) hquotable (by simp))
  | double =>
    exact @take?_quoted mark tokens indents true true content _ (':' :: rest)
      (Double.read?_write content _)
  | literal =>
    have hfeed : isBreak '\n' = false := honeLine '\n' (by simp [Block.write])
    cases hfeed

theorem refresh?_of_fresh {candidate : Candidate} (hline : mark.line = candidate.mark.line)
    (hindex : mark.index ≤ candidate.mark.index + 1024) :
    refresh? mark (some candidate) = some (some candidate) := by
  have hfresh : isStale mark candidate = false := by
    unfold isStale
    rw [hline, decide_eq_false (Nat.lt_irrefl _), decide_eq_false (Nat.not_lt.mpr hindex)]
    rfl
  unfold refresh?
  simp only [hfresh, Bool.false_eq_true, if_false]

/-- The colon behind a key of one line: its candidate still stands. -/
theorem approach?_colon {start : Mark} (token : Token) (honeLine : ∀ c ∈ written, isBreak c = false)
    (hshort : written.length ≤ 1024) (hindents : indents.head?.all (· ≤ start.column)) :
    (inBlock (':' :: rest) (start.advanceAll written) (token :: tokens) indents
      (candidateHere? start tokens indents true) false).approach? =
      some (inBlock (':' :: rest) (start.advanceAll written) (token :: tokens) indents
        (candidateHere? start tokens indents true) false) := by
  have hmark := @Mark.advanceAll_of_oneLine start written honeLine
  have hline : (start.advanceAll written).line = start.line := by rw [hmark]
  have hindex : (start.advanceAll written).index = start.index + written.length := by rw [hmark]
  have hcolumn : start.column ≤ (start.advanceAll written).column := by
    rw [hmark]
    exact Nat.le_add_right _ _
  have hfresh : refresh? (start.advanceAll written) (candidateHere? start tokens indents true) =
      some (candidateHere? start tokens indents true) :=
    refresh?_of_fresh hline (hindex ▸ Nat.add_le_add_left hshort _)
  obtain ⟨hends, hremaining⟩ := ends_of_le (head?_all_le hindents hcolumn)
  have hcolon : BeginsToken (':' :: rest) := beginsToken_cons rfl rfl rfl rest
  rw [approach?_inBlock (skip_of_beginsToken hcolon), hfresh, hends, hremaining]
  rfl

theorem exists_key (harrives : scan.Arrives column (written ++ ':' :: rest) tokens indents)
    (h : Spells parent written style content) (honeLine : ∀ c ∈ written, isBreak c = false)
    (hshort : written.length ≤ 1024) (hrest : endsWord rest = true)
    (hindents : indents.head?.all (· ≤ column))
    (hlead : lead? false column (written ++ ':' :: rest) = some style.lead) :
    ∃ mark : Mark, column < mark.column ∧ scan.Leads (inBlock rest mark
      (.value :: .scalar style (String.ofList content) :: .key :: (opened column indents ++ tokens))
        (opening column indents) none false) := by
  obtain ⟨start, rfl, hlength, happroach⟩ := harrives
  have hpositive : 0 < written.length := List.length_pos_of_ne_nil h.ne_nil
  have htake := @take?_in_front_of_colon parent written content rest style start tokens indents h
    honeLine hrest
  have hfirst := leads_of_take? happroach hlead (Style.lead_ne_finish style) htake (by
    unfold inBlock
    simp only [List.length_append, List.length_cons] at hlength ⊢
    omega)
  have hcolumn : (start.advanceAll written).column = start.column + written.length := by
    rw [Mark.advanceAll_of_oneLine honeLine]
  -- At the colon the candidate from the beginning of the key still stands.
  have hcolon := @approach?_colon written rest tokens indents start
    (.scalar style (String.ofList content)) honeLine hshort hindents
  have hvalue := @value?_of_candidate (start.advanceAll written) tokens indents false rest
    (.scalar style (String.ofList content)) (indents.head? == some start.column) start
  have hplace : 0 < (start.advanceAll written).column := by omega
  have hsecond := leads_of_take? hcolon (lead?_value hplace hrest) (by decide) hvalue
    (Nat.lt_succ_self _)
  refine ⟨_, ?_, hfirst.trans hsecond⟩
  calc
    start.column < (start.advanceAll written).column := by omega
    _ < ((start.advanceAll written).advance ':').column := Mark.column_lt_advance rfl

variable {column' : Nat} {text writtenKey writtenValue value : List Char} {valueStyle : Style}
  {entry : Entry}

theorem exists_entry
    (harrives : scan.Arrives column (writtenKey ++ ':' :: valueText writtenValue column' text)
      tokens indents)
    (hkey : Spells column writtenKey entry.keyStyle entry.key)
    (honeLine : ∀ c ∈ writtenKey, isBreak c = false) (hshort : writtenKey.length ≤ 1024)
    (hindents : indents.head?.all (· ≤ column))
    (hopening : opening column indents = column :: outer)
    (hlead : lead? false column (writtenKey ++ ':' :: valueText writtenValue column' text) =
      some entry.keyStyle.lead)
    (hvalue : Spells column writtenValue entry.valueStyle entry.value) (htext : BeginsToken text)
    (hcolumn : column' ≤ column) : ∃ next, scan.Leads next ∧ next.Arrives column' text
      (ends column' (column :: outer) ++
        (entry.tokens.reverse ++ (opened column indents ++ tokens)))
      (remaining column' (column :: outer)) := by
  obtain ⟨mark, hmark, hleads⟩ := exists_key harrives hkey honeLine hshort rfl hindents hlead
  rw [hopening] at hleads
  obtain ⟨next, hnext, harrives'⟩ := readsValue hvalue hmark htext hcolumn
  exact ⟨next, hleads.trans hnext, harrives'⟩

theorem exists_marked_value
    (harrives : scan.Arrives column (':' :: valueText writtenValue column' text) tokens
      (column :: outer))
    (hpositive : 0 < column) (hvalue : Spells column writtenValue valueStyle value)
    (htext : BeginsToken text) (hcolumn : column' ≤ column) :
    ∃ next, scan.Leads next ∧ next.Arrives column' text
      (ends column' (column :: outer) ++
        .scalar valueStyle (String.ofList value) :: .value :: tokens)
      (remaining column' (column :: outer)) := by
  obtain ⟨place, rfl, hlength, happroach⟩ := harrives
  have hcolon := leads_of_take? happroach (lead?_value hpositive rfl) (by decide)
    value?_of_marked hlength
  have hmark : place.column < (place.advance ':').column := Mark.column_lt_advance rfl
  obtain ⟨next, hnext, harrives'⟩ := readsValue hvalue hmark htext hcolumn
  exact ⟨next, hcolon.trans hnext, harrives'⟩

theorem exists_marked_entry
    (harrives : scan.Arrives column
      ('?' :: valueText writtenKey column (':' :: valueText writtenValue column' text)) tokens
        indents)
    (hpositive : 0 < column) (hkey : Spells column writtenKey entry.keyStyle entry.key)
    (hopening : opening column indents = column :: outer)
    (hvalue : Spells column writtenValue entry.valueStyle entry.value) (htext : BeginsToken text)
    (hcolumn : column' ≤ column) : ∃ next, scan.Leads next ∧ next.Arrives column' text
      (ends column' (column :: outer) ++
        (entry.tokens.reverse ++ (opened column indents ++ tokens)))
      (remaining column' (column :: outer)) := by
  obtain ⟨start, rfl, hlength, happroach⟩ := harrives
  have hfirst := leads_of_take? happroach (lead?_key hpositive rfl) (by decide) take?_key hlength
  rw [hopening] at hfirst
  have hmark : start.column < (start.advance '?').column := Mark.column_lt_advance rfl
  have hcolon : BeginsToken (':' :: valueText writtenValue column' text) :=
    beginsToken_cons rfl rfl rfl _
  obtain ⟨middle, hsecond, hmiddle⟩ : ReadsValue
      (inBlock (valueText writtenKey start.column (':' :: valueText writtenValue column' text))
        (start.advance '?') (.key :: (opened start.column indents ++ tokens))
        (start.column :: outer) none true)
      start.column (':' :: valueText writtenValue column' text)
      (.scalar entry.keyStyle (String.ofList entry.key)) :=
    readsValue hkey hmark hcolon (Nat.le_refl start.column)
  obtain ⟨hends, hremaining⟩ := @ends_of_le (start.column :: outer) start.column (by simp)
  have hindents (text : List Char) (mark : Mark) (tokens : List Token) :
      (inBlock text mark tokens (start.column :: outer) none true).indents =
        start.column :: outer := rfl
  rw [hindents, hends, hremaining, List.nil_append] at hmiddle
  obtain ⟨next, hthird, hnext⟩ := exists_marked_value hmiddle hpositive hvalue htext hcolumn
  exact ⟨next, hfirst.trans (hsecond.trans hthird), hnext⟩

end Scan

end Interpolation.Yaml
