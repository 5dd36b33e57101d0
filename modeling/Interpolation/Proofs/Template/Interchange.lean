import Interpolation.Proofs.Json.Record
import Interpolation.Proofs.Name
import Interpolation.Proofs.Template.Relevance
import Interpolation.Template.Interchange

/-! What is written as JSON is read as what it was: scopes of any names, the summaries of
templates, and positions. The numbers have to fit into 64 bits, and those of a template do when
its text does. -/

namespace Interpolation

open Json

namespace Template

theorem Scope.isWritten_toJson (scope : Scope) : scope.toJson.IsWritten := by
  cases scope with
  | anyName => exact isWritten_record (List.forall_mem_nil _)
  | only names =>
    apply isWritten_record
    rw [List.forall_mem_singleton]
    exact isWritten_texts names.toList

theorem Scope.ofJson?_toJson (scope : Scope) : ofJson? scope.toJson = some scope := by
  cases scope with
  | anyName => rfl
  | only names =>
    have hfields : fields? ["globals"] (only names).toJson =
        some [some (array (names.toList.map fun name => text (some name)))] :=
      @fields?_record [("globals", _)] (by simp)
    simp only [ofJson?, hfields, texts?_texts, Option.map_some, ofList, NameSet.ofList_toList]

theorem Scope.read_print (scope : Scope) :
    (parse? scope.toJson.print).bind ofJson? = some scope := by
  rw [parse?_print scope.isWritten_toJson, Option.bind_some, scope.ofJson?_toJson]

theorem Summary.isWritten_toJson (summary : Summary) : summary.toJson.IsWritten := by
  apply isWritten_record
  rw [List.forall_mem_cons, List.forall_mem_cons, List.forall_mem_singleton]
  exact ⟨isWritten_texts _, isWritten_boolean _, isWritten_number _⟩

theorem Summary.ofJson?_toJson {summary : Summary} (h : summary.placeholders < UInt64.size) :
    ofJson? summary.toJson = some summary := by
  have hfields : fields? ["variables", "uses_default", "placeholders"] summary.toJson =
      some [some (array (summary.names.map fun name => text (some name))),
        some (boolean summary.usesDefault), some (number (some summary.placeholders))] :=
    @fields?_record [("variables", _), ("uses_default", _), ("placeholders", _)] (by simp)
  simp only [ofJson?, hfields, texts?_texts, boolean?, count?_number h, bind, Option.bind_some,
    pure]

theorem Derives.length_add_offset_le {words : List Word} {text : List Char}
    (derives : Derives words text) (here : Position) :
    words.length + here.offset ≤ (here.after text).offset := by
  induction derives generalizing here with
  | nil => exact Nat.le_of_eq (Nat.zero_add _)
  | @cons word words rest _ _ ih =>
    have hword := here.offset_lt_after word.text_ne_nil
    have hrest := ih (here.after word.text)
    rw [Position.after_append, List.length_cons]
    omega

theorem Word.length_items (here : Position) (words : List Word) :
    (items here words).length = words.length := by
  induction words generalizing here with
  | nil => rfl
  | cons word words ih => rw [items, List.length_cons, ih, List.length_cons]

theorem length_placeholders_le {scope : Scope} {text : String} {template : Template}
    (h : parse scope text = .ok template) : template.placeholders.length ≤ text.utf8ByteSize := by
  obtain ⟨words, hderives, rfl⟩ := exists_derives_of_parse (parse_anyName_of_parse h)
  have hlength := hderives.length_add_offset_le .start
  rw [Position.after_start] at hlength
  calc
    _ ≤ (Word.items .start words).length := by
      rw [placeholders_of_words]
      exact List.length_filterMap_le _ _
    _ = words.length := Word.length_items _ _
    _ ≤ (String.ofList text.toList).utf8ByteSize := hlength
    _ = text.utf8ByteSize := by rw [String.ofList_toList]

end Template

namespace Position

theorem isWritten_toJson (position : Position) : position.toJson.IsWritten := by
  apply isWritten_record
  rw [List.forall_mem_cons, List.forall_mem_cons, List.forall_mem_singleton]
  exact ⟨isWritten_number _, isWritten_number _, isWritten_number _⟩

theorem ofJson?_toJson {position : Position} (hoffset : position.offset < UInt64.size)
    (hline : position.line < UInt64.size) (hcolumn : position.column < UInt64.size) :
    ofJson? position.toJson = some position := by
  have hfields : fields? ["offset", "line", "column"] position.toJson =
      some [some (number (some position.offset)), some (number (some position.line)),
        some (number (some position.column))] :=
    @fields?_record [("offset", _), ("line", _), ("column", _)] (by simp)
  simp only [ofJson?, hfields, count?_number hoffset, count?_number hline, count?_number hcolumn,
    bind, Option.bind_some, pure]

end Position

namespace Template

/-- Nothing is lost in JSON. Scopes come back as they were, an open scope and an empty closed one
among them, so templates are read alike in them; and so do the summaries of templates and the
positions that fit into 64 bits, as they do where the text does. -/
theorem interchange_loses_nothing :
    (∀ scope : Scope, (Json.parse? scope.toJson.print).bind Scope.ofJson? = some scope) ∧
    Scope.anyName.toJson.print ≠ (Scope.only .empty).toJson.print ∧
    (∀ (scope : Scope) (text : String),
      ((Json.parse? scope.toJson.print).bind Scope.ofJson?).map (parse · text) =
        some (parse scope text)) ∧
    (∀ scope text template, parse scope text = .ok template → text.utf8ByteSize < UInt64.size →
      (Json.parse? template.summary.toJson.print).bind Summary.ofJson? = some template.summary) ∧
    ∀ position : Position, position.offset < UInt64.size → position.line < UInt64.size →
      position.column < UInt64.size →
      (Json.parse? position.toJson.print).bind Position.ofJson? = some position := by
  refine ⟨Scope.read_print, ?_, ?_, ?_, ?_⟩
  · intro heq
    have hopen := Scope.read_print .anyName
    rw [heq, Scope.read_print] at hopen
    cases hopen
  · intro scope text
    rw [scope.read_print, Option.map_some]
  · intro scope text template hparse hsize
    have hcount : template.summary.placeholders < UInt64.size :=
      Nat.lt_of_le_of_lt (length_placeholders_le hparse) hsize
    rw [parse?_print template.summary.isWritten_toJson, Option.bind_some,
      Summary.ofJson?_toJson hcount]
  · intro position hoffset hline hcolumn
    rw [parse?_print position.isWritten_toJson, Option.bind_some,
      Position.ofJson?_toJson hoffset hline hcolumn]

/-- A template with both kinds of reference, and the last position of 64 bits. -/
theorem interchange_loses_nothing_extremes :
    (parse (.ofList ["é"]) "\x7b$é\x7d\x7b . \x7d" =
        .ok ⟨[.placeholder ⟨.named "é", ⟨0, 1, 1⟩⟩, .placeholder ⟨.default, ⟨5, 1, 5⟩⟩]⟩ ∧
      "\x7b$é\x7d\x7b . \x7d".utf8ByteSize < UInt64.size ∧
      (Json.parse? (Summary.toJson ⟨["é"], true, 2⟩).print).bind Summary.ofJson? =
        some ⟨["é"], true, 2⟩) ∧
    18446744073709551615 < UInt64.size ∧
      (Json.parse? (Position.toJson ⟨18446744073709551615, 1, 18446744073709551615⟩).print).bind
        Position.ofJson? = some ⟨18446744073709551615, 1, 18446744073709551615⟩ := by
  have hparse : parse (.ofList ["é"]) "\x7b$é\x7d\x7b . \x7d" =
      .ok ⟨[.placeholder ⟨.named "é", ⟨0, 1, 1⟩⟩, .placeholder ⟨.default, ⟨5, 1, 5⟩⟩]⟩ := by
    decide +kernel
  have hsize : "\x7b$é\x7d\x7b . \x7d".utf8ByteSize < UInt64.size := by decide
  have hlast : 18446744073709551615 < UInt64.size := by decide
  have hsummary : summary ⟨[.placeholder ⟨.named "é", ⟨0, 1, 1⟩⟩,
      .placeholder ⟨.default, ⟨5, 1, 5⟩⟩]⟩ = ⟨["é"], true, 2⟩ := by decide +kernel
  obtain ⟨-, -, -, hread, hposition⟩ := interchange_loses_nothing
  have hreread := hread _ _ _ hparse hsize
  rw [hsummary] at hreread
  exact ⟨⟨hparse, hsize, hreread⟩, hlast,
    hposition ⟨18446744073709551615, 1, 18446744073709551615⟩ hlast (by decide) hlast⟩

end Template

end Interpolation
