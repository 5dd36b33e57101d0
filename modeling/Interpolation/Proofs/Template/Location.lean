import Interpolation.Proofs.Template.Position
import Interpolation.Proofs.Template.Validation

/-! Every position that the reader gives out, with a template or with an error, is where a first
part of the text ends, and what stands there is what the placeholder or the error is about. -/

namespace Interpolation.Template

/-- What stands before and behind the position of an error. -/
inductive Error.Shows : Error → List Char → List Char → Prop
  | unclosedPlaceholder {p : Position} {before after : List Char} :
    Shows (.unclosedPlaceholder p) before ('{' :: after)
  | strayClosingBrace {p : Position} {before after : List Char} (hsingle : after.head? ≠ some '}') :
    Shows (.strayClosingBrace p) before ('}' :: after)
  | emptyPlaceholder {p : Position} {before blanks after : List Char}
    (hblanks : ∀ c ∈ blanks, Text.isBlank c = true) :
    Shows (.emptyPlaceholder p) before ('{' :: blanks ++ '}' :: after)
  | missingName {p : Position} {before after : List Char} {c : Char}
    (hletter : isNameLetter c = false) :
    Shows (.missingName p) (before ++ ['$']) (c :: after)
  | unexpectedCharacter {p : Position} {before after : List Char} {c : Char} :
    Shows (.unexpectedCharacter c p) before (c :: after)
  | undeclaredName {p : Position} {before after : List Char} {name : String}
    (announces : Announces after name) :
    Shows (.undeclaredName name p) before after

theorem Word.eq_placeholder_of_item {here : Position} {word : Word} {p : Placeholder}
    (h : word.item here = .placeholder p) :
    p.position = here ∧ ∃ before after, word = placeholder before p.reference after := by
  cases word with
  | placeholder before reference after =>
    cases h
    exact ⟨rfl, before, after, rfl⟩
  | _ => cases h

theorem Word.offset_le_of_mem_items {here : Position} {words : List Word} {p : Placeholder}
    (h : .placeholder p ∈ items here words) : here.offset ≤ p.position.offset := by
  obtain ⟨front, word, back, -, hitem⟩ := exists_split_of_mem_items h
  rw [(eq_placeholder_of_item hitem.symm).1]
  exact Position.offset_le_after here _

theorem Word.pairwise_offset_lt (here : Position) (words : List Word) :
    ((items here words).filterMap Item.placeholder?).Pairwise
      fun p q => p.position.offset < q.position.offset := by
  induction words generalizing here with
  | nil => exact .nil
  | cons word words ih =>
    have htail := ih (here.after word.text)
    rw [items, List.filterMap_cons]
    cases hitem : word.item here with
    | character c => exact htail
    | placeholder p =>
      apply List.pairwise_cons.mpr
      refine ⟨?_, htail⟩
      intro q hq
      have hle := offset_le_of_mem_items (Item.mem_filterMap_placeholder?.mp hq)
      rw [(eq_placeholder_of_item hitem).1]
      exact Nat.lt_of_lt_of_le (here.offset_lt_after word.text_ne_nil) hle

theorem Derives.exists_brace {words : List Word} {text : List Char} {p : Placeholder}
    (derives : Derives words text) (h : .placeholder p ∈ Word.items .start words) :
    ∃ before after, text = before ++ '{' :: after ∧ p.position = .endOf before := by
  obtain ⟨front, word, back, rfl, hitem⟩ := Word.exists_split_of_mem_items h
  obtain ⟨before, rest, rfl, -, -, rfl⟩ := derives.split
  obtain ⟨hposition, blanks, after, rfl⟩ := Word.eq_placeholder_of_item hitem.symm
  rw [Position.after_start] at hposition
  rw [Word.placeholder_text_append]
  exact ⟨_, _, rfl, hposition⟩

theorem Fault.error_broken (before blanks rest : List Char) (stage : Stage) (c : Char) :
    (broken blanks stage (c :: rest)).error (.endOf before) =
      stage.error (.endOf before) (.endOf (before ++ ('{' :: blanks ++ stage.text))) c := by
  rw [← Position.after_endOf]
  rfl

theorem Fault.exists_shows {fault : Fault} (valid : fault.IsValid) (before : List Char) :
    ∃ front back, before ++ fault.text = front ++ back ∧
      (fault.error (.endOf before)).position = .endOf front ∧
      (fault.error (.endOf before)).Shows front back := by
  cases fault with
  | stray rest => exact ⟨before, '}' :: rest, rfl, rfl, .strayClosingBrace valid⟩
  | broken blanks stage rest =>
    -- Where nothing is left the error is about the opening brace, otherwise about what follows.
    cases rest with
    | nil =>
      refine ⟨before, _, rfl, rfl, ?_⟩
      exact .unclosedPlaceholder
    | cons c rest =>
      obtain ⟨hblanks, -, hrest⟩ := valid
      have hrejects := hrest c rfl
      have htext : before ++ (broken blanks stage (c :: rest)).text =
          before ++ ('{' :: blanks ++ stage.text) ++ c :: rest := by simp [text]
      rw [error_broken, htext]
      cases stage with
      | inside =>
        by_cases hclose : c = '}'
        · subst hclose
          refine ⟨before, '{' :: blanks ++ '}' :: rest, ?_, rfl, .emptyPlaceholder hblanks⟩
          simp [Stage.text]
        · rw [Stage.error, if_neg hclose]
          exact ⟨_, _, rfl, rfl, .unexpectedCharacter⟩
      | marked =>
        refine ⟨before ++ '{' :: blanks ++ ['$'], c :: rest, ?_, ?_, .missingName hrejects⟩
        · simp [Stage.text]
        · simp [Stage.error, Stage.text, Error.position]
      | behind reference after => exact ⟨_, _, rfl, rfl, .unexpectedCharacter⟩

section Any
variable {scope : Scope} {text : String}

theorem exists_permitted_of_parse {template : Template} (h : parse scope text = .ok template) :
    ∃ words, Derives words text.toList ∧ scope.checkWords .start words = .ok () ∧
      template = ⟨join [] (Word.items .start words)⟩ := by
  cases scope with
  | anyName =>
    obtain ⟨words, hderives, htemplate⟩ := exists_derives_of_parse h
    exact ⟨words, hderives, Scope.checkWords_anyName .start words, htemplate⟩
  | only names =>
    obtain ⟨words, hderives, hdeclared, htemplate⟩ := exists_declared_of_parse h
    exact ⟨words, hderives, Scope.checkWords_of_declared hdeclared .start, htemplate⟩

theorem FirstUndeclared.exists_announces {names : NameSet} {chars : List Char} {name : String}
    {position : Position} (h : FirstUndeclared names chars name position) :
    ∃ front back, chars = front ++ back ∧ Announces back name ∧ position = .after .start front := by
  obtain ⟨-, -, hannounces, -⟩ := h
  exact ⟨_, _, rfl, hannounces, rfl⟩

theorem parse_error_cases {e : Error} (h : parse scope text = .error e) :
    (∃ words front fault, Derives words front ∧ Fault.IsValid fault ∧
      text.toList = front ++ fault.text ∧ e = fault.error (.after .start front)) ∨
    ∃ front back name, text.toList = front ++ back ∧ Announces back name ∧
      e = .undeclaredName name (.after .start front) := by
  -- In a closed scope an error may also be about a name, in a word or in the fault.
  cases scope with
  | anyName => exact .inl (exists_fault_of_parse h)
  | only names =>
    rcases derives_or_fault text.toList with
      ⟨words, hderives⟩ | ⟨words, front, fault, hderives, hvalid, htext⟩
    · by_cases hdeclared : Declared names words
      · rw [parse_only_of_derives hderives hdeclared] at h
        cases h
      · obtain ⟨name, position, hundeclared, -, herror⟩ :=
          exists_firstUndeclared hderives hdeclared []
        rw [parse_of_derives hderives, herror] at h
        rw [List.append_nil] at hundeclared
        obtain ⟨front, back, htext, hannounces, rfl⟩ := hundeclared.exists_announces
        exact .inr ⟨front, back, name, htext, hannounces, (Except.error.inj h).symm⟩
    · rcases parse_only_of_fault_cases hderives hvalid htext with
        ⟨-, -, hparse⟩ | ⟨-, name, position, hundeclared, -, hparse⟩
      · rw [hparse] at h
        exact .inl ⟨words, front, fault, hderives, hvalid, htext, (Except.error.inj h).symm⟩
      · rw [hparse] at h
        obtain ⟨front, back, htext, hannounces, rfl⟩ := hundeclared.exists_announces
        exact .inr ⟨front, back, name, htext, hannounces, (Except.error.inj h).symm⟩

end Any

/-- The positions of placeholders and errors are exact: each is where a first part of the text ends,
in bytes, lines and columns, and the text shows there what the position is given for. The
placeholders of a template stand one behind the other. -/
theorem parse_positions_exact (scope : Scope) (text : String) :
    (∀ template, parse scope text = .ok template →
      (∀ p ∈ template.placeholders, ∃ before after, text.toList = before ++ '{' :: after ∧
        p.position = .endOf before) ∧
      template.placeholders.Pairwise fun p q => p.position.offset < q.position.offset) ∧
    ∀ e, parse scope text = .error e → ∃ before after, text.toList = before ++ after ∧
      e.position = .endOf before ∧ e.Shows before after := by
  constructor
  · intro template h
    obtain ⟨words, hderives, -, rfl⟩ := exists_permitted_of_parse h
    rw [placeholders_of_words]
    constructor
    · intro p hp
      apply hderives.exists_brace
      exact Item.mem_filterMap_placeholder?.mp hp
    · exact Word.pairwise_offset_lt .start words
  · intro e h
    rcases parse_error_cases h with
      ⟨words, front, fault, -, hvalid, htext, rfl⟩ | ⟨front, back, name, htext, hannounces, rfl⟩
    · rw [Position.after_start, htext]
      exact Fault.exists_shows hvalid front
    · exact ⟨front, back, htext, Position.after_start front, .undeclaredName hannounces⟩

end Interpolation.Template
