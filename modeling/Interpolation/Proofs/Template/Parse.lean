import Interpolation.Proofs.Template.Derivation

/-! A text is read as a template exactly if it has a derivation; the template is then the one whose
joined parts are the items derived. What the scope says only adds verdicts on the names. -/

namespace Interpolation.Template

variable {scope : Scope} {text : String}

theorem parse_eq (scope : Scope) (text : String) :
    parse scope text = (items scope text.toList).map fun items => ⟨join [] items⟩ := rfl

theorem parse_of_derives {words : List Word} (derives : Derives words text.toList) :
    parse scope text =
      (scope.checkWords .start words).map fun _ => ⟨join [] (Word.items .start words)⟩ := by
  rw [parse_eq, items_of_derives derives]
  cases scope.checkWords .start words with
  | error e => rfl
  | ok _ => rfl

theorem parse_of_fault {words : List Word} {front : List Char} {fault : Fault}
    (derives : Derives words front) (valid : fault.IsValid)
    (htext : text.toList = front ++ fault.text) :
    parse scope text = (scope.checkWords .start words).bind fun _ =>
      (scope.check (Position.start.after front) fault.name?).bind fun _ =>
        .error (fault.error (.after .start front)) := by
  rw [parse_eq, htext, items_of_fault derives valid]
  cases scope.checkWords .start words with
  | error e => rfl
  | ok _ =>
    cases scope.check (Position.start.after front) fault.name? with
    | error e => rfl
    | ok _ => rfl

theorem derives_or_fault (text : List Char) : (∃ words, Derives words text) ∨
    ∃ words front fault, Derives words front ∧ Fault.IsValid fault ∧
      text = front ++ fault.text := by
  obtain ⟨words, front, rest, hderives, htext, hrest⟩ := exists_words text
  cases hrest with
  | inl hnil =>
    rw [hnil, List.append_nil] at htext
    exact .inl ⟨words, htext ▸ hderives⟩
  | inr hfault =>
    obtain ⟨fault, hvalid, hfault⟩ := hfault
    exact .inr ⟨words, front, fault, hderives, hvalid, hfault.symm ▸ htext⟩

theorem parse_anyName_of_derives {words : List Word} (derives : Derives words text.toList) :
    parse .anyName text = .ok ⟨join [] (Word.items .start words)⟩ := by
  rw [parse_of_derives derives, Scope.checkWords_anyName]
  rfl

theorem parse_anyName_of_fault {words : List Word} {front : List Char} {fault : Fault}
    (derives : Derives words front) (valid : fault.IsValid)
    (htext : text.toList = front ++ fault.text) :
    parse .anyName text = .error (fault.error (.after .start front)) := by
  rw [parse_of_fault derives valid htext, Scope.checkWords_anyName, Scope.check_anyName]
  rfl

theorem exists_derives_of_parse {template : Template} (h : parse .anyName text = .ok template) :
    ∃ words, Derives words text.toList ∧ template = ⟨join [] (Word.items .start words)⟩ := by
  cases derives_or_fault text.toList with
  | inl hwords =>
    obtain ⟨words, hderives⟩ := hwords
    rw [parse_anyName_of_derives hderives] at h
    exact ⟨words, hderives, (Except.ok.inj h).symm⟩
  | inr hfault =>
    obtain ⟨words, front, fault, hderives, hvalid, htext⟩ := hfault
    rw [parse_anyName_of_fault hderives hvalid htext] at h
    cases h

theorem exists_fault_of_parse {e : Error} (h : parse .anyName text = .error e) :
    ∃ words front fault, Derives words front ∧ Fault.IsValid fault ∧
      text.toList = front ++ fault.text ∧ e = fault.error (.after .start front) := by
  cases derives_or_fault text.toList with
  | inl hwords =>
    obtain ⟨words, hderives⟩ := hwords
    rw [parse_anyName_of_derives hderives] at h
    cases h
  | inr hfault =>
    obtain ⟨words, front, fault, hderives, hvalid, htext⟩ := hfault
    rw [parse_anyName_of_fault hderives hvalid htext] at h
    exact ⟨words, front, fault, hderives, hvalid, htext, (Except.error.inj h).symm⟩

theorem mem_placeholders {template : Template} {p : Placeholder} :
    p ∈ template.placeholders ↔ .placeholder p ∈ template.parts := by
  simp only [placeholders, List.mem_filterMap]
  constructor
  · rintro ⟨part, hpart, hp⟩
    cases part with
    | literal text => exact absurd hp (by simp [Part.placeholder?])
    | placeholder q =>
      obtain rfl : q = p := by simpa [Part.placeholder?] using hp
      exact hpart
  · intro hp
    exact ⟨.placeholder p, hp, rfl⟩

theorem mem_names {template : Template} {name : String} :
    name ∈ template.names ↔ ∃ position, .placeholder ⟨.named name, position⟩ ∈ template.parts := by
  simp only [names, NameSet.mem_ofList, List.mem_filterMap, mem_placeholders]
  constructor
  · rintro ⟨⟨reference, position⟩, hp, hname⟩
    cases reference with
    | named other =>
      obtain rfl : other = name := by simpa [Reference.name?] using hname
      exact ⟨position, hp⟩
    | default => exact absurd hname (by simp [Reference.name?])
  · rintro ⟨position, hp⟩
    exact ⟨⟨.named name, position⟩, hp, rfl⟩

/-- The reader accepts exactly the grammar. Derivations are unique, and the template is the one
whose parts are joined from the items derived, in their order; its names are those of its
placeholders. -/
theorem parse_anyName_iff_derives (text : String) :
    ((∃ template, parse .anyName text = .ok template) ↔ ∃ words, Derives words text.toList) ∧
    (∀ words others, Derives words text.toList → Derives others text.toList → words = others) ∧
    (∀ template, parse .anyName text = .ok template ↔ ∃ words, Derives words text.toList ∧
      IsJoined template.parts ∧ template.parts.flatMap Part.items = Word.items .start words) ∧
    ∀ template, parse .anyName text = .ok template → ∀ name, name ∈ template.names ↔
      ∃ position, .placeholder ⟨.named name, position⟩ ∈ template.parts := by
  refine ⟨⟨?_, ?_⟩, ?_, fun template => ⟨?_, ?_⟩, fun template _ name => mem_names⟩
  · rintro ⟨template, h⟩
    obtain ⟨words, hderives, -⟩ := exists_derives_of_parse h
    exact ⟨words, hderives⟩
  · rintro ⟨words, hderives⟩
    exact ⟨_, parse_anyName_of_derives hderives⟩
  · intro words others hwords hothers
    exact hwords.words_unique hothers
  · intro h
    obtain ⟨words, hderives, rfl⟩ := exists_derives_of_parse h
    exact ⟨words, hderives, isJoined_join [] _, by simpa using join_flatMap_items [] _⟩
  · rintro ⟨words, hderives, hjoined, hitems⟩
    rw [parse_anyName_of_derives hderives, ← hitems, hjoined.join_eq]

end Interpolation.Template
