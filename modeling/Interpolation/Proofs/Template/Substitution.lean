import Interpolation.Proofs.Template.Rendering

/-! What a template renders to, said without the renderer: the literals and the texts of the values,
one behind the other. Rendering stops at the first placeholder without a value, and there is such a
placeholder exactly if some name is reported as unbound. -/

namespace Interpolation.Template

variable {context : Context} {template : Template}

inductive Part.Becomes (context : Context) : Part → String → Prop
  | literal {text : String} : Becomes context (.literal text) text
  | named {name : String} {position : Position} {value : Value}
    (bound : context.get? name = some value) :
    Becomes context (.placeholder ⟨.named name, position⟩) value.toText
  | default {position : Position} :
    Becomes context (.placeholder ⟨.default, position⟩) context.default.toText

/-- What parts give way to, one behind the other. -/
inductive Becomes (context : Context) : List Part → String → Prop
  | nil : Becomes context [] ""
  | cons {part : Part} {parts : List Part} {text rest : String}
    (head : part.Becomes context text) (tail : Becomes context parts rest) :
    Becomes context (part :: parts) (text ++ rest)

theorem Part.becomes_iff {part : Part} {text : String} :
    part.Becomes context text ↔ part.render context = .ok text := by
  constructor
  · intro h
    cases h with
    | literal => rfl
    | named bound => simp [Part.render, Placeholder.value, bound, Except.map]
    | default => rfl
  · intro h
    cases part with
    | literal other =>
      obtain rfl : other = text := Except.ok.inj h
      exact .literal
    | placeholder p =>
      obtain ⟨reference, position⟩ := p
      cases reference with
      | default =>
        obtain rfl : context.default.toText = text := Except.ok.inj h
        exact .default
      | named name =>
        cases hget : context.get? name with
        | none => simp [Part.render, Placeholder.value, hget, Except.map] at h
        | some value =>
          obtain rfl : value.toText = text := by
            simpa [Part.render, Placeholder.value, hget, Except.map] using h
          exact .named hget

theorem becomes_iff {parts : List Part} {output : String} :
    Becomes context parts output ↔ render ⟨parts⟩ context = .ok output := by
  constructor
  · intro h
    induction h with
    | nil => exact render_nil
    | cons head _ ih =>
      rw [render_cons, Part.becomes_iff.mp head, ih]
      rfl
  · intro h
    induction parts generalizing output with
    | nil =>
      obtain rfl : "" = output := Except.ok.inj h
      exact .nil
    | cons part parts ih =>
      rw [render_cons] at h
      cases hpart : part.render context with
      | error e =>
        rw [hpart] at h
        cases h
      | ok text =>
        cases hparts : render ⟨parts⟩ context with
        | error e =>
          rw [hpart, hparts] at h
          cases h
        | ok rest =>
          rw [hpart, hparts] at h
          obtain rfl : text ++ rest = output := Except.ok.inj h
          exact .cons (Part.becomes_iff.mpr hpart) (ih hparts)

theorem render_literalText
    (h : ∀ p ∈ template.placeholders, Part.Becomes context (.placeholder p) "") :
    template.render context = .ok template.literalText := by
  obtain ⟨parts⟩ := template
  induction parts with
  | nil => exact render_nil
  | cons part parts ih =>
    cases part with
    | literal text =>
      rw [render_literal_cons, ih h]
      exact congrArg Except.ok String.join_cons.symm
    | placeholder p =>
      have hp := Part.becomes_iff.mp (h p List.mem_cons_self)
      rw [render_cons, hp, ih fun q hq => h q (List.mem_cons_of_mem p hq)]
      exact congrArg Except.ok String.empty_append

theorem contains_eq_false_iff {name : String} :
    context.contains name = false ↔ context.get? name = none := by
  rw [← Option.isNone_iff_eq_none, ← Option.not_isSome, Bool.not_eq_true']
  exact Iff.rfl

theorem mem_unboundNames {name : String} : name ∈ template.unboundNames context ↔
    (∃ position, .placeholder ⟨.named name, position⟩ ∈ template.parts) ∧
      context.get? name = none := by
  rw [unboundNames, List.mem_filter, NameSet.mem_toList, mem_names, Bool.not_eq_true',
    contains_eq_false_iff]

theorem pairwise_unboundNames : (template.unboundNames context).Pairwise (· < ·) :=
  template.names.sorted.filter _

theorem unboundNames_eq_nil_iff :
    template.unboundNames context = [] ↔ ∀ p ∈ template.placeholders, p.IsBound context := by
  rw [List.eq_nil_iff_forall_not_mem]
  constructor
  · intro h p hp name hname
    obtain ⟨reference, position⟩ := p
    obtain rfl : reference = .named name := hname
    apply Bool.of_not_eq_false
    intro hfalse
    apply h name
    exact mem_unboundNames.mpr ⟨⟨position, mem_placeholders.mp hp⟩, contains_eq_false_iff.mp hfalse⟩
  · intro h name hname
    obtain ⟨⟨position, hpart⟩, hget⟩ := mem_unboundNames.mp hname
    have hbound := h _ (mem_placeholders.mpr hpart) name rfl
    rw [contains_eq_false_iff.mpr hget] at hbound
    cases hbound

theorem exists_first_unbound {placeholders : List Placeholder}
    (h : ¬ ∀ p ∈ placeholders, p.IsBound context) : ∃ before name position after,
      placeholders = before ++ ⟨.named name, position⟩ :: after ∧
      (∀ p ∈ before, p.IsBound context) ∧ context.get? name = none := by
  induction placeholders with
  | nil => exact absurd (fun p hp => nomatch hp) h
  | cons first rest ih =>
    -- The first placeholder of all, or one behind it.
    by_cases hfirst : first.IsBound context
    · obtain ⟨before, name, position, after, rfl, hbefore, hget⟩ := ih fun hrest =>
        h (List.forall_mem_cons.mpr ⟨hfirst, hrest⟩)
      exact ⟨first :: before, name, position, after, rfl,
        List.forall_mem_cons.mpr ⟨hfirst, hbefore⟩, hget⟩
    · obtain ⟨reference, position⟩ := first
      cases reference with
      | default => exact absurd (fun name hname => nomatch hname) hfirst
      | named name =>
        refine ⟨[], name, position, rest, rfl, by simp, contains_eq_false_iff.mp ?_⟩
        apply Bool.eq_false_iff.mpr
        intro hbound
        apply hfirst
        rintro other hother
        obtain rfl : name = other := Reference.named.inj hother
        exact hbound

theorem exists_unbound_of_error {e : RenderError} (h : template.render context = .error e) :
    ∃ before name position after,
      template.placeholders = before ++ ⟨.named name, position⟩ :: after ∧
      (∀ p ∈ before, p.IsBound context) ∧ context.get? name = none ∧
      e = .unboundName name position := by
  have hnot : ¬ ∀ p ∈ template.placeholders, p.IsBound context := by
    intro hall
    obtain ⟨output, houtput⟩ := exists_render hall
    rw [houtput] at h
    cases h
  obtain ⟨before, name, position, after, hsplit, hbefore, hget⟩ := exists_first_unbound hnot
  refine ⟨before, name, position, after, hsplit, hbefore, hget, ?_⟩
  rw [render_of_unbound hsplit hbefore (contains_eq_false_iff.mpr hget)] at h
  exact (Except.error.inj h).symm

section SameNames
variable {first second : Context}

theorem unboundNames_congr (h : ∀ name, first.contains name = second.contains name) :
    template.unboundNames first = template.unboundNames second := by
  apply List.filter_congr
  intro name _
  rw [h name]

theorem render_error_congr (h : ∀ name, first.contains name = second.contains name)
    {e : RenderError} (herror : template.render first = .error e) :
    template.render second = .error e := by
  obtain ⟨before, name, position, after, hsplit, hbefore, hget, rfl⟩ :=
    exists_unbound_of_error herror
  apply render_of_unbound hsplit
  · intro p hp other hother
    rw [← h other]
    exact hbefore p hp other hother
  · rw [← h name]
    exact contains_eq_false_iff.mpr hget

theorem exists_render_congr (h : ∀ name, first.contains name = second.contains name)
    (hfirst : ∃ output, template.render first = .ok output) :
    ∃ output, template.render second = .ok output := by
  cases hsecond : template.render second with
  | ok output => exact ⟨output, rfl⟩
  | error e =>
    obtain ⟨output, hfirst⟩ := hfirst
    rw [render_error_congr (fun name => (h name).symm) hsecond] at hfirst
    cases hfirst

end SameNames

/-- Rendering agrees with the report of unbound names and with substitution. The report has exactly
the names that are referred to and not bound, in increasing order, and a template renders exactly if
it is empty. The output is what the parts give way to, one behind the other, so that only the
literals are left where all values are empty. An error is about the first placeholder whose name is
unbound, and this name is in the report. -/
theorem render_and_unboundNames (template : Template) (context : Context) :
    (template.unboundNames context).Pairwise (· < ·) ∧
    (∀ name, name ∈ template.unboundNames context ↔
      (∃ position, .placeholder ⟨.named name, position⟩ ∈ template.parts) ∧
        context.get? name = none) ∧
    ((∃ output, template.render context = .ok output) ↔ template.unboundNames context = []) ∧
    (∀ output, template.render context = .ok output ↔ Becomes context template.parts output) ∧
    ((∀ p ∈ template.placeholders, Part.Becomes context (.placeholder p) "") →
      template.render context = .ok template.literalText) ∧
    ∀ e, template.render context = .error e → ∃ before name position after,
      template.placeholders = before ++ ⟨.named name, position⟩ :: after ∧
      (∀ p ∈ before, ∀ other, p.reference = .named other → context.contains other = true) ∧
      context.get? name = none ∧ e = .unboundName name position ∧
      name ∈ template.unboundNames context := by
  refine ⟨pairwise_unboundNames, fun name => mem_unboundNames, ⟨?_, ?_⟩,
    fun output => becomes_iff.symm, render_literalText, ?_⟩
  · rintro ⟨output, houtput⟩
    apply Classical.byContradiction
    intro hne
    obtain ⟨before, name, position, after, hsplit, hbefore, hget⟩ :=
      exists_first_unbound (mt unboundNames_eq_nil_iff.mpr hne)
    rw [render_of_unbound hsplit hbefore (contains_eq_false_iff.mpr hget)] at houtput
    cases houtput
  · intro hnil
    exact exists_render (unboundNames_eq_nil_iff.mp hnil)
  · intro e he
    obtain ⟨before, name, position, after, hsplit, hbefore, hget, rfl⟩ := exists_unbound_of_error he
    have hmem : (⟨.named name, position⟩ : Placeholder) ∈ template.placeholders := by
      rw [hsplit]
      exact List.mem_append_right before List.mem_cons_self
    exact ⟨before, name, position, after, hsplit, hbefore, hget, rfl,
      mem_unboundNames.mpr ⟨⟨position, mem_placeholders.mp hmem⟩, hget⟩⟩

end Interpolation.Template
