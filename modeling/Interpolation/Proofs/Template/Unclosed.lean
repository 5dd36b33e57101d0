import Interpolation.Proofs.Template.Position
import Interpolation.Proofs.Template.Validation

/-! A text that ends inside a placeholder is a template up to the opening brace. In a closed scope
its end is reported all the same, unless the placeholder has come as far as a name, perhaps only the
beginning of one, that is not declared: then that name is reported, at the same brace. -/

namespace Interpolation.Template

theorem Fault.eq_broken_of_unclosed {fault : Fault} {here position : Position}
    (h : fault.error here = .unclosedPlaceholder position) :
    (∃ before stage, fault = .broken before stage []) ∧ position = here := by
  cases fault with
  | stray rest => cases h
  | broken before stage rest =>
    cases rest with
    | nil => exact ⟨⟨before, stage, rfl⟩, (Error.unclosedPlaceholder.inj h).symm⟩
    | cons c rest =>
      rw [error] at h
      rcases stage.error_cases here (here.after ('{' :: before ++ stage.text)) c with hc | hc | hc
      · rw [hc] at h
        cases h
      · rw [hc] at h
        cases h
      · rw [hc] at h
        cases h

variable {text : String} {position : Position}

theorem exists_words_of_unclosed
    (h : parse .anyName text = .error (.unclosedPlaceholder position)) :
    ∃ words front before stage, Derives words front ∧ (Fault.broken before stage []).IsValid ∧
      text.toList = front ++ (Fault.broken before stage []).text ∧
      position = .after .start front := by
  obtain ⟨words, front, fault, hderives, hvalid, htext, herror⟩ := exists_fault_of_parse h
  obtain ⟨⟨before, stage, rfl⟩, hposition⟩ := Fault.eq_broken_of_unclosed herror.symm
  exact ⟨words, front, before, stage, hderives, hvalid, htext, hposition⟩

/-- A text that ends inside a placeholder is a template in front of it. If all names of this
template are permitted, the end of the text is reported exactly if the name that the placeholder has
come to, if any, is permitted too, and otherwise this name is reported at the same position. -/
theorem parse_unclosed (h : parse .anyName text = .error (.unclosedPlaceholder position)) :
    ∃ front rest template, text = front ++ rest ∧ position = .endOf front.toList ∧
      parse .anyName front = .ok template ∧ ∀ scope : Scope,
        (∀ name ∈ template.names, scope.permits name = true) →
        (parse scope text = .error (.unclosedPlaceholder position) ↔
          ∀ name, Announces rest.toList name → scope.permits name = true) ∧
        ∀ name, Announces rest.toList name → scope.permits name = false →
          parse scope text = .error (.undeclaredName name position) := by
  obtain ⟨words, front, before, stage, hderives, hvalid, htext, rfl⟩ := exists_words_of_unclosed h
  have hfront : Derives words (String.ofList front).toList := by
    rw [String.toList_ofList]
    exact hderives
  refine ⟨.ofList front, .ofList (Fault.broken before stage []).text, _, ?_, ?_,
    parse_anyName_of_derives hfront, ?_⟩
  · rw [← String.ofList_append, ← htext, String.ofList_toList]
  · rw [String.toList_ofList, Position.after_start]
  · intro scope hnames
    have hwords : ∀ word ∈ words, ∀ name, word.name? = some name → scope.permits name = true := by
      intro word hword name hname
      exact hnames name (mem_names_of_words.mpr ⟨word, hword, hname⟩)
    -- The fault announces a name exactly if it has completed one, and then the name comes first.
    have hundeclared : ∀ name, Announces (Fault.broken before stage []).text name →
        scope.permits name = false →
        parse scope text = .error (.undeclaredName name (.after .start front)) := by
      intro name hannounces hnot
      exact parse_of_undeclared_fault hderives hvalid htext hwords
        ((Fault.announces_iff hvalid).mp hannounces) hnot
    rw [String.toList_ofList]
    refine ⟨⟨?_, ?_⟩, hundeclared⟩
    · intro hparse name hannounces
      apply Bool.of_not_eq_false
      intro hnot
      rw [hundeclared name hannounces hnot] at hparse
      cases hparse
    · intro hpermits
      exact parse_of_permitted_fault hderives hvalid htext hwords fun name hname =>
        hpermits name ((Fault.announces_iff hvalid).mpr hname)

/-- A text that ends behind the beginning of a name. -/
theorem parse_unclosed_at_second_brace :
    parse .anyName "\x7b$a\x7d\x7b$fi" = .error (.unclosedPlaceholder ⟨4, 1, 5⟩) ∧
    ∃ front rest template, "\x7b$a\x7d\x7b$fi" = front ++ rest ∧
      (⟨4, 1, 5⟩ : Position) = .endOf front.toList ∧
      parse .anyName front = .ok template ∧ ∀ scope : Scope,
        (∀ name ∈ template.names, scope.permits name = true) →
        (parse scope "\x7b$a\x7d\x7b$fi" = .error (.unclosedPlaceholder ⟨4, 1, 5⟩) ↔
          ∀ name, Announces rest.toList name → scope.permits name = true) ∧
        ∀ name, Announces rest.toList name → scope.permits name = false →
          parse scope "\x7b$a\x7d\x7b$fi" = .error (.undeclaredName name ⟨4, 1, 5⟩) :=
  ⟨by decide +kernel, parse_unclosed (by decide +kernel)⟩

/-- A name cut off by the end of the text is judged as if it were complete, also where the text
begins a template whose names are all declared. -/
theorem parse_undeclared_beginning :
    parse .anyName "\x7b$fi" = .error (.unclosedPlaceholder .start) ∧
    parse (.only (.ofList ["first"])) "\x7b$fi" = .error (.undeclaredName "fi" .start) ∧
    parse (.only (.ofList ["first"])) ("\x7b$fi" ++ "rst\x7d") =
      .ok ⟨[.placeholder ⟨.named "first", .start⟩]⟩ := by
  decide +kernel

end Interpolation.Template
