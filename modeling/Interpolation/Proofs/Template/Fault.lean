import Interpolation.Proofs.Template.Run

/-! What a text looks like that begins neither with a word nor at its end, and which error it
deserves. Every text is cut into words and perhaps one fault; the reader's answer is the verdict on
the names in the words, then the verdict on a name that the fault completes, then the error of the
fault. -/

namespace Interpolation.Template

/-- How far a placeholder has come, behind the blanks that follow its opening brace. -/
inductive Stage
  | inside
  | marked
  | behind (reference : Reference) (after : List Char)

namespace Stage

def text : Stage → List Char
  | inside => []
  | marked => ['$']
  | behind reference after => reference.spelling ++ after

def name? : Stage → Option String
  | behind reference _ => reference.name?
  | _ => none

def error (brace here : Position) : Stage → Char → Error
  | inside, c => if c = '}' then .emptyPlaceholder brace else .unexpectedCharacter c here
  | marked, _ => .missingName here
  | behind _ _, c => .unexpectedCharacter c here

theorem error_cases (stage : Stage) (brace here : Position) (c : Char) :
    stage.error brace here c = .emptyPlaceholder brace ∨
      stage.error brace here c = .unexpectedCharacter c here ∨
      stage.error brace here c = .missingName here := by
  cases stage with
  | inside =>
    by_cases hc : c = '}'
    · exact .inl (if_pos hc)
    · exact .inr (.inl (if_neg hc))
  | marked => exact .inr (.inr rfl)
  | behind reference after => exact .inr (.inl rfl)

def IsValid : Stage → Prop
  | behind reference after => reference.IsSpellable ∧ ∀ c ∈ after, Text.isBlank c = true
  | _ => True

def Rejects (before : List Char) : Stage → Char → Prop
  | inside, c => Text.isBlank c = false ∧ c ≠ '.' ∧ c ≠ '$' ∧ (before = [] → c ≠ '{')
  | marked, c => isNameLetter c = false
  | behind reference after, c =>
    Text.isBlank c = false ∧ c ≠ '}' ∧ (reference ≠ .default → after = [] → isNameLetter c = false)

end Stage

/-- A closing brace without its double, or a placeholder that does not go on. -/
inductive Fault
  | stray (rest : List Char)
  | broken (before : List Char) (stage : Stage) (rest : List Char)

namespace Fault

def text : Fault → List Char
  | stray rest => '}' :: rest
  | broken before stage rest => '{' :: before ++ stage.text ++ rest

def name? : Fault → Option String
  | stray _ => none
  | broken _ stage _ => stage.name?

def error (here : Position) : Fault → Error
  | stray _ => .strayClosingBrace here
  | broken _ _ [] => .unclosedPlaceholder here
  | broken before stage (c :: _) => stage.error here (here.after ('{' :: before ++ stage.text)) c

def IsValid : Fault → Prop
  | stray rest => rest.head? ≠ some '}'
  | broken before stage rest =>
    (∀ c ∈ before, Text.isBlank c = true) ∧ stage.IsValid ∧
      ∀ c, rest.head? = some c → stage.Rejects before c

end Fault

theorem head?_dropWhile_isBlank {text rest : List Char} {c : Char}
    (h : text.dropWhile Text.isBlank = c :: rest) : Text.isBlank c = false := by
  have hnot := List.head?_dropWhile_not Text.isBlank text
  rw [h] at hnot
  simpa using hnot

theorem isBlank_of_mem_takeWhile {text : List Char} :
    ∀ c ∈ text.takeWhile Text.isBlank, Text.isBlank c = true := by
  intro c hc
  exact List.all_eq_true.mp List.all_takeWhile c hc

inductive Begins : List Char → Prop
  | word {word : Word} (rest : List Char) (valid : word.IsValid) : Begins (word.text ++ rest)
  | fault {fault : Fault} (valid : fault.IsValid) : Begins fault.text

theorem begins_behind {before : List Char} {reference : Reference} {rest : List Char}
    (hbefore : ∀ c ∈ before, Text.isBlank c = true) (hreference : reference.IsSpellable)
    (hrest : reference ≠ .default → ∀ c, rest.head? = some c → isNameLetter c = false) :
    Begins ('{' :: before ++ reference.spelling ++ rest) := by
  have hsplit := List.takeWhile_append_dropWhile (p := Text.isBlank) (l := rest)
  generalize hafter : rest.takeWhile Text.isBlank = after at hsplit
  have hblank : ∀ c ∈ after, Text.isBlank c = true := hafter ▸ isBlank_of_mem_takeWhile
  cases htail : rest.dropWhile Text.isBlank with
  | nil =>
    rw [htail, List.append_nil] at hsplit
    subst hsplit
    have hvalid : (Fault.broken before (.behind reference after) []).IsValid :=
      ⟨hbefore, ⟨hreference, hblank⟩, by simp⟩
    simpa [Fault.text, Stage.text] using Begins.fault hvalid
  | cons c tail =>
    have hc := head?_dropWhile_isBlank htail
    rw [htail] at hsplit
    subst hsplit
    -- The first character that is no blank closes the placeholder, or it is the fault.
    by_cases hbrace : c = '}'
    · subst hbrace
      simpa [Word.text] using Begins.word tail (.placeholder hbefore hreference hblank)
    · have hvalid : (Fault.broken before (.behind reference after) (c :: tail)).IsValid := by
        refine ⟨hbefore, ⟨hreference, hblank⟩, fun d hd => ?_⟩
        obtain rfl : c = d := by simpa using hd
        refine ⟨hc, hbrace, fun hnamed hnil => ?_⟩
        subst hnil
        exact hrest hnamed c rfl
      simpa [Fault.text, Stage.text] using Begins.fault hvalid

theorem begins_marked {before rest : List Char} (hbefore : ∀ c ∈ before, Text.isBlank c = true) :
    Begins ('{' :: before ++ '$' :: rest) := by
  have hsplit := List.takeWhile_append_dropWhile (p := isNameLetter) (l := rest)
  have hstop : ∀ c, (rest.dropWhile isNameLetter).head? = some c → isNameLetter c = false := by
    intro c hc
    have hnot := List.head?_dropWhile_not isNameLetter rest
    rw [hc] at hnot
    simpa using hnot
  -- Without a letter the mark is at fault; otherwise the name is the longest run of letters.
  cases hletters : rest.takeWhile isNameLetter with
  | nil =>
    rw [hletters, List.nil_append] at hsplit
    rw [hsplit] at hstop
    have hvalid : (Fault.broken before .marked rest).IsValid := ⟨hbefore, trivial, hstop⟩
    simpa [Fault.text, Stage.text] using Begins.fault hvalid
  | cons c letters =>
    have hall : ∀ d ∈ c :: letters, isNameLetter d = true := by
      intro d hd
      rw [← hletters] at hd
      exact List.all_eq_true.mp List.all_takeWhile d hd
    have hname : isName (String.ofList (c :: letters)) = true :=
      isName_iff.mpr ⟨by simp, by simpa using hall⟩
    have hbegins := begins_behind hbefore (isSpellable_named hname) fun _ => hstop
    have htext : '{' :: before ++ '$' :: rest = '{' :: before ++
        (Reference.named (String.ofList (c :: letters))).spelling ++
          rest.dropWhile isNameLetter := by
      rw [hletters] at hsplit
      rw [Reference.spelling, String.toList_ofList, List.append_assoc]
      exact congrArg (fun tail => '{' :: before ++ '$' :: tail) hsplit.symm
    rwa [htext]

theorem begins_opening {before rest : List Char} (hbefore : ∀ c ∈ before, Text.isBlank c = true)
    (hrest : ∀ c, rest.head? = some c → Text.isBlank c = false ∧ (before = [] → c ≠ '{')) :
    Begins ('{' :: before ++ rest) := by
  by_cases hdot : rest.head? = some '.'
  · obtain ⟨rest, rfl⟩ := List.head?_eq_some_iff.mp hdot
    have hbegins : Begins ('{' :: before ++ Reference.default.spelling ++ rest) :=
      begins_behind hbefore isSpellable_default (by simp)
    simpa [Reference.spelling] using hbegins
  by_cases hmark : rest.head? = some '$'
  · obtain ⟨rest, rfl⟩ := List.head?_eq_some_iff.mp hmark
    exact begins_marked hbefore
  have hvalid : (Fault.broken before .inside rest).IsValid := by
    refine ⟨hbefore, trivial, fun c hc => ?_⟩
    obtain ⟨hblank, hbrace⟩ := hrest c hc
    exact ⟨hblank, fun h => hdot (h ▸ hc), fun h => hmark (h ▸ hc), hbrace⟩
  simpa [Fault.text, Stage.text] using Begins.fault hvalid

theorem begins_cons (c : Char) (rest : List Char) : Begins (c :: rest) := by
  by_cases hopen : c = '{'
  · subst hopen
    by_cases hdouble : rest.head? = some '{'
    · obtain ⟨rest, rfl⟩ := List.head?_eq_some_iff.mp hdouble
      exact Begins.word rest .openingBrace
    have hsplit := List.takeWhile_append_dropWhile (p := Text.isBlank) (l := rest)
    have hstop : ∀ c, (rest.dropWhile Text.isBlank).head? = some c →
        Text.isBlank c = false ∧ (rest.takeWhile Text.isBlank = [] → c ≠ '{') := by
      intro c hc
      obtain ⟨tail, htail⟩ := List.head?_eq_some_iff.mp hc
      refine ⟨head?_dropWhile_isBlank htail, fun hnil hbrace => hdouble ?_⟩
      rw [hnil, List.nil_append] at hsplit
      rw [← hsplit, hc, hbrace]
    have hbegins := begins_opening isBlank_of_mem_takeWhile hstop
    rwa [List.cons_append, hsplit] at hbegins
  by_cases hclose : c = '}'
  · subst hclose
    by_cases hdouble : rest.head? = some '}'
    · obtain ⟨rest, rfl⟩ := List.head?_eq_some_iff.mp hdouble
      exact Begins.word rest .closingBrace
    · exact @Begins.fault (.stray rest) hdouble
  · exact Begins.word rest (.character hopen hclose)

theorem exists_words (text : List Char) : ∃ words front rest, Derives words front ∧
    text = front ++ rest ∧ (rest = [] ∨ ∃ fault : Fault, fault.IsValid ∧ fault.text = rest) := by
  induction hlength : text.length using Nat.strongRecOn generalizing text with
  | ind n ih =>
    cases text with
    | nil => exact ⟨[], [], [], .nil, rfl, .inl rfl⟩
    | cons c text =>
      -- A word takes up a character at least, so the induction is on the length of the text.
      generalize htext : c :: text = whole at hlength
      have hbegins : Begins whole := htext ▸ begins_cons c text
      cases hbegins with
      | @fault fault valid => exact ⟨[], [], _, .nil, rfl, .inr ⟨fault, valid, rfl⟩⟩
      | @word word rest valid =>
        have hpos : 0 < word.text.length := by cases word <;> simp [Word.text]
        have hlt : rest.length < n := by
          rw [← hlength, List.length_append]
          omega
        obtain ⟨words, front, tail, hderives, rfl, htail⟩ := ih rest.length hlt rest rfl
        exact ⟨word :: words, word.text ++ front, tail, .cons valid hderives, by simp, htail⟩

theorem Stage.isNameLetter_head?_behind {before after rest : List Char} {reference : Reference}
    (hafter : ∀ c ∈ after, Text.isBlank c = true)
    (hrest : ∀ c, rest.head? = some c → (behind reference after).Rejects before c)
    (hnamed : reference ≠ .default) :
    ∀ c, (after ++ rest).head? = some c → isNameLetter c = false := by
  intro c hc
  cases after with
  | nil => exact (hrest c hc).2.2 hnamed rfl
  | cons d after =>
    obtain rfl : d = c := by simpa using hc
    exact isNameLetter_of_isBlank (hafter d List.mem_cons_self)

namespace State

variable {scope : Scope} {here brace : Position} {kept : List Item} {before rest : List Char}

theorem run_behind {reference : Reference} {after : List Char}
    (hreference : reference.IsSpellable) (hafter : ∀ c ∈ after, Text.isBlank c = true)
    (hrest : ∀ c, rest.head? = some c → (Stage.behind reference after).Rejects before c) :
    run scope ⟨here, .blanks brace, kept⟩ (reference.spelling ++ after ++ rest) =
      (scope.check brace reference.name?).bind fun _ => .error (match rest with
        | [] => .unclosedPlaceholder brace
        | c :: _ => .unexpectedCharacter c (here.after (reference.spelling ++ after))) := by
  rw [List.append_assoc,
    run_reference hreference (Stage.isNameLetter_head?_behind hafter hrest), run_referred hafter]
  cases rest with
  | nil => rfl
  | cons c rest =>
    obtain ⟨hblank, hbrace, -⟩ := hrest c rfl
    rw [run_cons_of_error (by simp [Mode.next, Mode.behind, hblank, hbrace]; rfl),
      Position.after_append]

theorem run_fault {fault : Fault} (valid : fault.IsValid) :
    run scope ⟨here, .text, kept⟩ fault.text =
      (scope.check here fault.name?).bind fun _ => .error (fault.error here) := by
  cases fault with
  | stray rest =>
    rw [Fault.text, run_cons_of_next rfl]
    cases rest with
    | nil => rfl
    | cons c rest =>
      have hc : c ≠ '}' := fun h => valid (by simp [h])
      exact run_cons_of_error (by simp [Mode.next, hc, Fault.error])
  | broken before stage rest =>
    obtain ⟨hbefore, hstage, hrest⟩ := valid
    -- A brace right behind the opening one would be read as its double.
    have hhead : before = [] → (stage.text ++ rest).head? ≠ some '{' := by
      intro hnil hbrace
      cases stage with
      | inside => exact (hrest '{' hbrace).2.2.2 hnil rfl
      | marked => simp [Stage.text] at hbrace
      | behind reference after =>
        obtain ⟨mark, letters, hspelling, -, hmark⟩ := reference.exists_spelling_eq_cons
        simp [Stage.text, hspelling, hmark] at hbrace
    rw [Fault.text, List.append_assoc, run_opening hbefore hhead]
    cases stage with
    | inside =>
      cases rest with
      | nil => rfl
      | cons c rest =>
        obtain ⟨hblank, hdot, hmark, -⟩ := hrest c rfl
        have hnext : (Mode.blanks here).next scope (here.after ('{' :: before)) c =
            .error (Stage.inside.error here (here.after ('{' :: before)) c) := by
          simp only [Mode.next, Mode.inside, hblank, hdot, hmark, Stage.error]
          by_cases hbrace : c = '}' <;> simp [hbrace]
        rw [Stage.text, List.nil_append, run_cons_of_error hnext]
        simp [Fault.error, Fault.name?, Stage.name?, Stage.text, Except.bind]
    | marked =>
      rw [Stage.text, List.singleton_append, run_cons_of_next rfl]
      cases rest with
      | nil => rfl
      | cons c rest =>
        have hc : isNameLetter c = false := hrest c rfl
        rw [run_cons_of_error (by simp [Mode.next, hc]; rfl)]
        simp [Fault.error, Fault.name?, Stage.name?, Stage.text, Stage.error, Except.bind]
    | behind reference after =>
      rw [Stage.text, run_behind hstage.1 hstage.2 hrest]
      cases rest with
      | nil => rfl
      | cons c rest => simp [Fault.error, Fault.name?, Stage.name?, Stage.text, Stage.error]

end State

end Interpolation.Template
