import Interpolation.Proofs.Template.Position
import Interpolation.Proofs.Template.Validation

/-! A fault is cut off if the text ends where it is noticed: then some continuation makes it a word.
Otherwise the character that is wrong has been read, and nothing behind it changes the error. Which
of the two it is can be told from the error. -/

namespace Interpolation.Template

/-- Whether an error only says that the text ends too early: a placeholder is still open, or the
last character is a closing brace whose double is missing. -/
def Error.IsCutOff (text : List Char) : Error → Prop
  | unclosedPlaceholder _ => True
  | strayClosingBrace p => ∃ front c, text = front ++ [c] ∧ p = .endOf front
  | _ => False

namespace Fault

/-- The text from the character on at which the fault is noticed. -/
def rest : Fault → List Char
  | stray rest => rest
  | broken _ _ rest => rest

def append (more : List Char) : Fault → Fault
  | stray rest => stray (rest ++ more)
  | broken before stage rest => broken before stage (rest ++ more)

variable {fault : Fault} {more : List Char}

theorem text_append (fault : Fault) (more : List Char) :
    (fault.append more).text = fault.text ++ more := by
  cases fault <;> simp [append, text]

/-- What is wrong with a fault that is not cut off has been read. -/
theorem IsValid.append (valid : fault.IsValid) (hrest : fault.rest ≠ []) (more : List Char) :
    (fault.append more).IsValid := by
  cases fault with
  | stray rest =>
    obtain ⟨c, rest, rfl⟩ := List.exists_cons_of_ne_nil hrest
    exact valid
  | broken before stage rest =>
    obtain ⟨c, rest, rfl⟩ := List.exists_cons_of_ne_nil hrest
    exact valid

theorem error_append (hrest : fault.rest ≠ []) (here : Position) :
    (fault.append more).error here = fault.error here := by
  cases fault with
  | stray rest => rfl
  | broken before stage rest =>
    obtain ⟨c, rest, rfl⟩ := List.exists_cons_of_ne_nil hrest
    rfl

theorem not_isCutOff_stray {front rest : List Char} (hrest : rest ≠ []) :
    ¬ (Error.strayClosingBrace (.endOf front)).IsCutOff (front ++ '}' :: rest) := by
  rintro ⟨before, c, htext, hposition⟩
  obtain ⟨init, last, rfl⟩ := List.eq_nil_or_concat rest |>.resolve_left hrest
  have hbefore : before = front ++ '}' :: init := by
    have hconcat : front ++ '}' :: init ++ [last] = before ++ [c] := by simpa using htext
    exact (List.append_inj_left' hconcat rfl).symm
  have hlt := (Position.endOf front).offset_lt_after (List.cons_ne_nil '}' init)
  rw [Position.after_endOf, ← hbefore, ← hposition] at hlt
  exact Nat.lt_irrefl _ hlt

theorem isCutOff_error_iff (fault : Fault) (front : List Char) :
    (fault.error (.endOf front)).IsCutOff (front ++ fault.text) ↔ fault.rest = [] := by
  cases fault with
  | stray rest =>
    constructor
    · intro h
      by_contra hrest
      exact not_isCutOff_stray hrest h
    · rintro rfl
      exact ⟨front, '}', rfl, rfl⟩
  | broken before stage rest =>
    cases rest with
    | nil => exact iff_of_true trivial rfl
    | cons c rest =>
      refine iff_of_false ?_ (List.cons_ne_nil c rest)
      rw [error]
      -- Whatever the error of a wrong character is, it is not about the end of the text.
      rcases stage.error_cases (.endOf front)
        ((Position.endOf front).after ('{' :: before ++ stage.text)) c with h | h | h
      · rw [h]
        exact id
      · rw [h]
        exact id
      · rw [h]
        exact id

/-- A fault that is cut off is the beginning of a word. -/
theorem exists_word (valid : fault.IsValid) (hrest : fault.rest = []) :
    ∃ more word, Word.IsValid word ∧ fault.text ++ more = word.text := by
  cases fault with
  | stray rest =>
    obtain rfl : rest = [] := hrest
    exact ⟨['}'], .closingBrace, .closingBrace, rfl⟩
  | broken before stage rest =>
    obtain rfl : rest = [] := hrest
    obtain ⟨hbefore, hstage, -⟩ := valid
    cases stage with
    | inside =>
      refine ⟨['.', '}'], _, .placeholder hbefore isSpellable_default (List.forall_mem_nil _), ?_⟩
      simp [text, Stage.text, Word.text, Reference.spelling]
    | marked =>
      have hname : isName "_" = true := by decide +kernel
      refine ⟨['_', '}'], _, .placeholder hbefore (isSpellable_named hname)
        (List.forall_mem_nil _), ?_⟩
      simp [text, Stage.text, Word.text, Reference.spelling]
    | behind reference after =>
      refine ⟨['}'], _, .placeholder hbefore hstage.1 hstage.2, ?_⟩
      simp [text, Stage.text, Word.text]

end Fault

theorem parse_append_of_rest {text : String} {words : List Word} {front : List Char} {fault : Fault}
    (derives : Derives words front) (valid : fault.IsValid)
    (htext : text.toList = front ++ fault.text) (hrest : fault.rest ≠ []) (more : String) :
    parse .anyName (text ++ more) = .error (fault.error (.after .start front)) := by
  rw [← Fault.error_append hrest, ← parse_anyName_of_fault derives (valid.append hrest more.toList)]
  rw [String.toList_append, htext, Fault.text_append, List.append_assoc]

theorem exists_parse_append {text : String} {words : List Word} {front : List Char} {fault : Fault}
    (derives : Derives words front) (valid : fault.IsValid)
    (htext : text.toList = front ++ fault.text) (hrest : fault.rest = []) :
    ∃ more template, parse .anyName (text ++ more) = .ok template := by
  obtain ⟨more, word, hword, hmore⟩ := Fault.exists_word valid hrest
  have hderives : Derives (words ++ [word]) (text ++ String.ofList more).toList := by
    rw [String.toList_append, String.toList_ofList, htext, List.append_assoc, hmore]
    exact derives.append (.single hword)
  exact ⟨String.ofList more, _, parse_anyName_of_derives hderives⟩

/-- An error is cut off or final, and the error itself tells which: the text can be continued to a
template if the error is cut off, and otherwise every continuation has the same error. So a text
that begins a template is a template or cut off. -/
theorem parse_error_cutOff_or_final (text : String) :
    (∀ e, parse .anyName text = .error e →
      (e.IsCutOff text.toList →
        ∃ more template, parse .anyName (text ++ more) = .ok template) ∧
      (¬ e.IsCutOff text.toList → ∀ more, parse .anyName (text ++ more) = .error e)) ∧
    ∀ more template, parse .anyName (text ++ more) = .ok template →
      (∃ template, parse .anyName text = .ok template) ∨
        ∃ e, parse .anyName text = .error e ∧ e.IsCutOff text.toList := by
  -- An error is cut off exactly if nothing of its fault is wrong, and each fault is one or other.
  have hcases : ∀ e, parse .anyName text = .error e →
      (e.IsCutOff text.toList ∧ ∃ more template, parse .anyName (text ++ more) = .ok template) ∨
      (¬ e.IsCutOff text.toList ∧ ∀ more, parse .anyName (text ++ more) = .error e) := by
    intro e h
    obtain ⟨words, front, fault, hderives, hvalid, htext, rfl⟩ := exists_fault_of_parse h
    have hiff := Fault.isCutOff_error_iff fault front
    rw [← htext, ← Position.after_start] at hiff
    by_cases hrest : fault.rest = []
    · exact .inl ⟨hiff.mpr hrest, exists_parse_append hderives hvalid htext hrest⟩
    · exact .inr ⟨fun h => hrest (hiff.mp h), parse_append_of_rest hderives hvalid htext hrest⟩
  constructor
  · intro e h
    rcases hcases e h with ⟨hcut, hcontinues⟩ | ⟨hnot, hfinal⟩
    · exact ⟨fun _ => hcontinues, fun hnot => absurd hcut hnot⟩
    · exact ⟨fun hcut => absurd hcut hnot, fun _ => hfinal⟩
  · intro more template hmore
    cases h : parse .anyName text with
    | ok template => exact .inl ⟨template, rfl⟩
    | error e =>
      rcases hcases e h with ⟨hcut, -⟩ | ⟨-, hfinal⟩
      · exact .inr ⟨e, rfl, hcut⟩
      · rw [hfinal more] at hmore
        cases hmore

end Interpolation.Template
