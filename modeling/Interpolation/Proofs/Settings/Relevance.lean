import Interpolation.Proofs.Settings.Strictness
import Interpolation.Proofs.Template.Relevance

/-! Values under names that a text does not refer to change nothing about it. Strict settings show
all their names to the reader, but the reader only asks for those it finds. -/

namespace Interpolation.Settings

open Template

/-- Settings that are equally strict and have the same texts for all that a template refers to. A
name may also be without a value in both. -/
structure Agree (template : Template) (first second : Settings) : Prop where
  strict : first.strict = second.strict
  names : ∀ name ∈ template.names, (first.values.get? name).map (·.toValue.toText) =
    (second.values.get? name).map (·.toValue.toText)
  default : template.usesDefault = true →
    first.default.toValue.toText = second.default.toValue.toText

/-- The settings with more values. Of a name with several values the last counts. -/
def extend (settings : Settings) (extra : List (String × Scalar)) : Settings :=
  { settings with
    values := extra.foldl (fun map entry => map.insert entry.1 entry.2) settings.values }

variable {text : String} {template : Template} {first second : Settings}

theorem permits_scope (settings : Settings) (name : String) :
    settings.scope.permits name = (!settings.strict || settings.values.contains name) := by
  unfold scope
  cases settings.strict with
  | false => rfl
  | true =>
    apply Bool.eq_iff_iff.mpr
    exact NameSet.contains_iff.trans mem_declared

theorem Agree.contains_eq (h : Agree template first second) {name : String}
    (hname : name ∈ template.names) : first.values.contains name = second.values.contains name := by
  have hsome := congrArg Option.isSome (h.names name hname)
  rwa [Option.isSome_map, Option.isSome_map] at hsome

theorem Agree.context {context other : Context} (h : Agree template first second)
    (hdefault : context.default = first.default.toValue)
    (hget : ∀ name, context.get? name = (first.values.get? name).map Scalar.toValue)
    (hdefault' : other.default = second.default.toValue)
    (hget' : ∀ name, other.get? name = (second.values.get? name).map Scalar.toValue) :
    template.Agree context other := by
  constructor
  · intro name hname
    rw [hget, hget', Option.map_map, Option.map_map]
    exact h.names name hname
  · intro hused
    rw [hdefault, hdefault']
    exact h.default hused

/-- Settings whose scopes read a text alike, and that agree on what it refers to, make the same of
it. -/
theorem interpolate_congr
    (hscope : Template.parse first.scope text = Template.parse second.scope text)
    (hagree : ∀ template, Template.parse .anyName text = .ok template →
      Agree template first second) :
    first.interpolate text = second.interpolate text := by
  obtain ⟨context, hcontext, hdefault, hget⟩ := exists_context first
  obtain ⟨other, hcontext', hdefault', hget'⟩ := exists_context second
  cases hparse : Template.parse first.scope text with
  | error e =>
    rw [interpolate_of_parse_error hparse, interpolate_of_parse_error (hscope ▸ hparse)]
  | ok template =>
    have hsame := hagree template (parse_anyName_of_parse hparse)
    rw [interpolate_of_parse hparse hcontext, interpolate_of_parse (hscope ▸ hparse) hcontext',
      (hsame.context hdefault hget hdefault' hget').render_eq]

theorem interpolate_of_agree (hparse : Template.parse .anyName text = .ok template)
    (h : Agree template first second) : first.interpolate text = second.interpolate text := by
  apply interpolate_congr
  · apply parse_congr
    intro name hrefers
    rw [permits_scope, permits_scope, h.strict,
      h.contains_eq ((mem_names_iff_refers hparse).mpr hrefers)]
  · intro other hother
    obtain rfl : template = other := Except.ok.inj (hparse.symm.trans hother)
    exact h

theorem get?_extend {settings : Settings} {extra : List (String × Scalar)} {name : String}
    (h : ∀ entry ∈ extra, entry.1 ≠ name) :
    (settings.extend extra).values.get? name = settings.values.get? name :=
  NameMap.get?_foldl_insert_of_ne h

theorem interpolate_extend {settings : Settings} {extra : List (String × Scalar)}
    (h : ∀ entry ∈ extra, ¬ Refers text.toList entry.1) :
    (settings.extend extra).interpolate text = settings.interpolate text := by
  have hget : ∀ name, Refers text.toList name →
      (settings.extend extra).values.get? name = settings.values.get? name := by
    intro name hrefers
    apply get?_extend
    rintro entry hentry rfl
    exact h entry hentry hrefers
  apply interpolate_congr
  · apply parse_congr
    intro name hrefers
    rw [permits_scope, permits_scope, NameMap.contains_eq, hget name hrefers, NameMap.contains_eq]
    rfl
  · intro template hparse
    refine ⟨rfl, ?_, fun _ => rfl⟩
    intro name hname
    rw [hget name ((mem_names_iff_refers hparse).mp hname)]

/-- Only what a text refers to can influence what becomes of it. Contexts, and equally strict
settings, that agree on the names of a template and on the default where it is used give the same
output or the same error. So values under further names change nothing; and if a text is no
template, values under names that it does not refer to change nothing either. -/
theorem interpolate_depends_on_references (text : String) :
    (∀ template, Template.parse .anyName text = .ok template →
      (∀ first second : Context, template.Agree first second →
        template.render first = template.render second) ∧
      (∀ first second : Settings, Agree template first second →
        first.interpolate text = second.interpolate text) ∧
      ∀ (settings : Settings) (extra : List (String × Scalar)),
        (∀ entry ∈ extra, entry.1 ∉ template.names) →
        (settings.extend extra).interpolate text = settings.interpolate text) ∧
    ∀ (settings : Settings) (extra : List (String × Scalar)),
      (∀ entry ∈ extra, ¬ Refers text.toList entry.1) →
      (settings.extend extra).interpolate text = settings.interpolate text := by
  constructor
  · intro template hparse
    refine ⟨?_, ?_, ?_⟩
    · intro first second h
      exact h.render_eq
    · intro first second h
      exact interpolate_of_agree hparse h
    · intro settings extra h
      apply interpolate_extend
      intro entry hentry hrefers
      exact h entry hentry ((mem_names_iff_refers hparse).mpr hrefers)
  · intro settings extra h
    exact interpolate_extend h

end Interpolation.Settings
