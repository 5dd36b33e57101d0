import Interpolation.Proofs.Name
import Interpolation.Proofs.Template.Rendering
import Interpolation.Settings

/-! Settings always have a context: their names differ and the default is set once, so the builder
has nothing to refuse. Settings that differ only in strictness bind the same names, so a name that
strict settings reject while a template is read is one that lenient settings miss while it is
rendered. -/

namespace Interpolation

namespace Settings

/-- A builder takes entries with different names that it does not know yet. -/
theorem exists_foldlM_bind {entries : List (String × Scalar)} {builder : Context.Builder}
    (hsorted : entries.Pairwise (·.1 < ·.1))
    (hfresh : ∀ entry ∈ entries, builder.bindings.get? entry.1 = none) :
    ∃ result, entries.foldlM (fun builder entry => builder.bind entry.1 entry.2.toValue) builder =
        .ok result ∧ result.default? = builder.default? ∧
      ∀ name, result.bindings.get? name =
        ((entries.lookup name).map Scalar.toValue).or (builder.bindings.get? name) := by
  -- The induction is on the entries, with a builder that knows none of their names.
  induction entries generalizing builder with
  | nil => exact ⟨builder, rfl, rfl, fun name => by simp⟩
  | cons first rest ih =>
    obtain ⟨hfirst, hrest⟩ := List.pairwise_cons.mp hsorted
    have hnone : builder.bindings.contains first.1 = false := by
      simp [NameMap.contains_eq, hfresh first List.mem_cons_self]
    have hbind : builder.bind first.1 first.2.toValue =
        .ok { builder with bindings := builder.bindings.insert first.1 first.2.toValue } := by
      simp [Context.Builder.bind, hnone]
    have hfresh' : ∀ entry ∈ rest,
        (builder.bindings.insert first.1 first.2.toValue).get? entry.1 = none := by
      intro entry hentry
      have hne : entry.1 ≠ first.1 := fun h => String.lt_irrefl _ (h ▸ hfirst entry hentry)
      rw [NameMap.get?_insert, if_neg hne]
      exact hfresh entry (List.mem_cons_of_mem first hentry)
    obtain ⟨result, hresult, hdefault, hget⟩ := @ih
      { builder with bindings := builder.bindings.insert first.1 first.2.toValue } hrest hfresh'
    refine ⟨result, ?_, hdefault, fun name => ?_⟩
    · rw [List.foldlM_cons, hbind]
      exact hresult
    · rw [hget, NameMap.get?_insert, NameMap.lookup_cons]
      by_cases h : name = first.1
      · have hlookup : rest.lookup first.1 = none := by
          rw [List.lookup_eq_none_iff]
          intro entry hentry
          have hlt := hfirst entry hentry
          exact bne_iff_ne.mpr fun heq => String.lt_irrefl entry.1 (heq ▸ hlt)
        simp [h, hlookup]
      · simp [h]

theorem exists_context (settings : Settings) : ∃ context, settings.context = .ok context ∧
    context.default = settings.default.toValue ∧
    ∀ name, context.get? name = (settings.values.get? name).map Scalar.toValue := by
  let initial : Context.Builder := ⟨.empty, some settings.default.toValue⟩
  obtain ⟨builder, hbuilder, hdefault, hget⟩ :=
    exists_foldlM_bind settings.values.sorted fun entry _ =>
      show initial.bindings.get? entry.1 = none from rfl
  refine ⟨⟨builder.bindings, settings.default.toValue⟩, ?_, rfl, fun name => ?_⟩
  · have hset : Context.Builder.empty.setDefault settings.default.toValue = .ok initial := rfl
    simp only [context, hset, bind, Except.bind, hbuilder, Context.Builder.build, hdefault]
    rfl
  · have h := hget name
    rw [NameMap.get?_empty, Option.or_none] at h
    exact h

open Template

variable {default : Scalar} {values : NameMap Scalar} {text : String}

theorem mem_declared {name : String} :
    name ∈ NameSet.ofList values.names ↔ values.contains name = true :=
  NameSet.mem_ofList.trans NameMap.contains_iff_mem_names.symm

theorem interpolate_of_parse_error {settings : Settings} {e : Template.Error}
    (h : Template.parse settings.scope text = .error e) :
    settings.interpolate text = .error (.parse e) := by
  rw [interpolate, h]
  rfl

theorem interpolate_strict_of_error {e : Template.Error}
    (h : Template.parse (.only (.ofList values.names)) text = .error e) :
    interpolate ⟨default, values, true⟩ text = .error (.parse e) :=
  interpolate_of_parse_error h

theorem interpolate_lenient_of_error {e : Template.Error}
    (h : Template.parse .anyName text = .error e) :
    interpolate ⟨default, values, false⟩ text = .error (.parse e) :=
  interpolate_of_parse_error h

theorem interpolate_of_parse {settings : Settings} {template : Template} {context : Context}
    (hparse : Template.parse settings.scope text = .ok template)
    (hcontext : settings.context = .ok context) :
    settings.interpolate text = (template.render context).mapError .render := by
  rw [interpolate, hparse, hcontext]
  rfl

/-- Settings that answer with an error of the reader have not read the text. -/
theorem parse_ne_ok_of_interpolate {settings : Settings} {e : Template.Error}
    (h : settings.interpolate text = .error (.parse e)) (template : Template) :
    Template.parse settings.scope text ≠ .ok template := by
  intro hparse
  obtain ⟨context, hcontext, -⟩ := exists_context settings
  rw [interpolate_of_parse hparse hcontext] at h
  cases hrender : template.render context with
  | ok output =>
    rw [hrender] at h
    cases h
  | error e =>
    rw [hrender] at h
    cases h

theorem contains_context {context : Context}
    (hget : ∀ name, context.get? name = (values.get? name).map Scalar.toValue) (name : String) :
    context.contains name = values.contains name := by
  have h := congrArg Option.isSome (hget name)
  rwa [Option.isSome_map] at h

/-- What strict and lenient settings make of a text: both render it, one rejects the name that the
other misses, or both find it faulty. -/
inductive Comparison (default : Scalar) (values : NameMap Scalar) (text : String) : Prop
  | rendered {template : Template} {context : Context} {output : String}
    (hparse : Template.parse .anyName text = .ok template)
    (hnames : ∀ name ∈ template.names, values.contains name = true)
    (hstrict : Template.parse (scope ⟨default, values, true⟩) text = .ok template)
    (hcontext : Settings.context ⟨default, values, true⟩ = .ok context)
    (hrender : template.render context = .ok output)
  | undeclared {template : Template} {name : String} {position : Position}
    (hparse : Template.parse .anyName text = .ok template)
    (hname : values.contains name = false)
    (hstrict : interpolate ⟨default, values, true⟩ text =
      .error (.parse (.undeclaredName name position)))
    (hlenient : interpolate ⟨default, values, false⟩ text =
      .error (.render (.unboundName name position)))
  | faulty {e e' : Template.Error} (hparse : Template.parse .anyName text = .error e)
    (hstrict : interpolate ⟨default, values, true⟩ text = .error (.parse e'))
    (hlenient : interpolate ⟨default, values, false⟩ text = .error (.parse e))

theorem compare_of_derives {words : List Word} (derives : Derives words text.toList) :
    Comparison default values text := by
  obtain ⟨context, hcontext, -, hget⟩ := exists_context ⟨default, values, true⟩
  have hbound := contains_context hget
  have hparse := parse_anyName_of_derives derives
  -- The first undeclared name is also the first that the context does not bind.
  by_cases hdeclared : Declared (.ofList values.names) words
  · have hnames : ∀ name ∈ names ⟨join [] (Word.items .start words)⟩, values.contains name = true :=
      fun name hname => mem_declared.mp (declared_iff_names.mp hdeclared name hname)
    have hall : ∀ p ∈ placeholders ⟨join [] (Word.items .start words)⟩, p.IsBound context := by
      intro p hp name hname
      obtain ⟨reference, position⟩ := p
      obtain rfl : reference = .named name := hname
      rw [hbound]
      exact hnames name (mem_names.mpr ⟨position, mem_placeholders.mp hp⟩)
    obtain ⟨output, houtput⟩ := exists_render hall
    exact .rendered hparse hnames (parse_only_of_derives derives hdeclared) hcontext houtput
  · obtain ⟨before, name, position, after, hsplit, hbefore, hnot, hstrict⟩ :=
      exists_undeclared_placeholder derives hdeclared
    have hname : values.contains name = false :=
      Bool.eq_false_iff.mpr fun h => hnot (mem_declared.mpr h)
    have hall : ∀ p ∈ before, p.IsBound context := by
      intro p hp other hother
      rw [hbound]
      exact mem_declared.mp (hbefore p hp other hother)
    have hrender := render_of_unbound hsplit hall ((hbound name).trans hname)
    have hlenient : interpolate ⟨default, values, false⟩ text =
        (render _ context).mapError .render :=
      interpolate_of_parse hparse hcontext
    rw [hrender] at hlenient
    exact .undeclared hparse hname (interpolate_strict_of_error hstrict) hlenient

theorem compare (default : Scalar) (values : NameMap Scalar) (text : String) :
    Comparison default values text := by
  cases derives_or_fault text.toList with
  | inl hwords =>
    obtain ⟨words, hderives⟩ := hwords
    exact compare_of_derives hderives
  | inr hfault =>
    obtain ⟨words, front, fault, hderives, hvalid, htext⟩ := hfault
    have hparse := parse_anyName_of_fault hderives hvalid htext
    have hlenient : interpolate ⟨default, values, false⟩ text = _ :=
      interpolate_lenient_of_error hparse
    rcases parse_only_of_fault_cases hderives hvalid htext with
      ⟨-, -, hstrict⟩ | ⟨-, name, position, -, -, hstrict⟩
    · exact .faulty hparse (interpolate_strict_of_error hstrict) hlenient
    · exact .faulty hparse (interpolate_strict_of_error hstrict) hlenient

theorem interpolate_of_render {settings : Settings} {template : Template} {context : Context}
    {output : String} (hparse : Template.parse settings.scope text = .ok template)
    (hcontext : settings.context = .ok context) (hrender : template.render context = .ok output) :
    settings.interpolate text = .ok output := by
  rw [interpolate_of_parse hparse hcontext, hrender]
  rfl

/-- Strict and lenient settings with the same values give the same outputs. They differ where a
template has a name without a value: strict settings reject it when they read the template, lenient
ones miss it when they render it, both with the first such name and its position. -/
theorem interpolate_strict_lenient (default : Scalar) (values : NameMap Scalar) (text : String) :
    let strict : Settings := ⟨default, values, true⟩
    let lenient : Settings := ⟨default, values, false⟩
    (∀ e, strict.interpolate text ≠ .error (.context e) ∧
      lenient.interpolate text ≠ .error (.context e)) ∧
    (∀ e, strict.interpolate text ≠ .error (.render e)) ∧
    (∀ template, Template.parse strict.scope text = .ok template →
      ∃ context output, strict.context = .ok context ∧ template.render context = .ok output) ∧
    (∀ output, strict.interpolate text = .ok output ↔ lenient.interpolate text = .ok output) ∧
    (∀ template, Template.parse .anyName text = .ok template →
      (∃ name ∈ template.names, values.contains name = false) →
      ∃ name position, values.contains name = false ∧
        strict.interpolate text = .error (.parse (.undeclaredName name position)) ∧
        lenient.interpolate text = .error (.render (.unboundName name position))) ∧
    ∀ e, Template.parse .anyName text = .error e →
      (∃ e', strict.interpolate text = .error (.parse e')) ∧
      ∃ e', lenient.interpolate text = .error (.parse e') := by
  intro strict lenient
  cases compare default values text with
  | @rendered template context output hparse hnames hstrict hcontext hrender =>
    have hs : strict.interpolate text = .ok output :=
      interpolate_of_render hstrict hcontext hrender
    have hl : lenient.interpolate text = .ok output :=
      interpolate_of_render hparse hcontext hrender
    rw [hs, hl]
    refine ⟨by simp, by simp, fun other hother => ?_, by simp,
      fun other hother hundeclared => ?_, ?_⟩
    · obtain rfl : other = template := Except.ok.inj (hother.symm.trans hstrict)
      exact ⟨context, output, hcontext, hrender⟩
    · obtain rfl : other = template := Except.ok.inj (hother.symm.trans hparse)
      obtain ⟨name, hname, hnot⟩ := hundeclared
      exact absurd (hnames name hname) (by simp [hnot])
    · intro e he
      cases hparse.symm.trans he
  | @undeclared template name position hparse hname hs hl =>
    rw [hs, hl]
    refine ⟨by simp, by simp, fun other hother => ?_, by simp, fun other hother _ => ?_, ?_⟩
    · exact absurd hother (parse_ne_ok_of_interpolate hs other)
    · exact ⟨name, position, hname, rfl, rfl⟩
    · intro e he
      cases hparse.symm.trans he
  | @faulty e e' hparse hs hl =>
    rw [hs, hl]
    refine ⟨by simp, by simp, fun other hother => ?_, by simp, fun other hother _ => ?_, ?_⟩
    · exact absurd hother (parse_ne_ok_of_interpolate hs other)
    · cases hparse.symm.trans hother
    · exact fun _ _ => ⟨⟨e', rfl⟩, e, rfl⟩

end Settings

end Interpolation
