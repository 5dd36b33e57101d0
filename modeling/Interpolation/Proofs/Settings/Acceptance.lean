import Interpolation.Proofs.Settings.Relevance
import Interpolation.Proofs.Template.Substitution
import Interpolation.Settings.Reader

/-! The reader of settings and the reader of templates judge names apart, but they accept the same
ones. So a name with a value in accepted settings can be referred to, and refused settings have a
name that no template refers to. -/

namespace Interpolation

namespace Template

theorem parse_placeholder {scope : Scope} {text : String} {before after : List Char}
    {reference : Reference} (hbefore : ∀ c ∈ before, Text.isBlank c = true)
    (hspell : reference.IsSpellable) (hafter : ∀ c ∈ after, Text.isBlank c = true)
    (hpermits : ∀ name, reference.name? = some name → scope.permits name = true)
    (htext : text.toList = '{' :: before ++ reference.spelling ++ after ++ ['}']) :
    parse scope text = .ok ⟨[.placeholder ⟨reference, .start⟩]⟩ := by
  have hderives : Derives [.placeholder before reference after] text.toList := by
    rw [htext]
    exact .single (.placeholder hbefore hspell hafter)
  have hcheck : scope.checkWords .start [.placeholder before reference after] = .ok () := by
    apply Scope.checkWords_of_permits
    intro word hword name hname
    obtain rfl : word = .placeholder before reference after := List.mem_singleton.mp hword
    exact hpermits name hname
  rw [parse_of_derives hderives, hcheck]
  rfl

theorem isName_of_mem_names {text : String} {template : Template}
    (h : parse .anyName text = .ok template) {name : String} (hname : name ∈ template.names) :
    isName name = true :=
  ((mem_names_iff_refers h).mp hname).isName

theorem isName_iff_parse (name : String) : isName name = true ↔
    ∃ position, parse .anyName ("\x7b$" ++ name ++ "\x7d") =
      .ok ⟨[.placeholder ⟨.named name, position⟩]⟩ := by
  constructor
  · intro h
    refine ⟨.start, ?_⟩
    apply @parse_placeholder _ _ [] []
    · simp
    · exact isSpellable_named h
    · simp
    · exact fun _ _ => rfl
    · simp [Reference.spelling]
  · rintro ⟨position, h⟩
    exact isName_of_mem_names h (mem_names.mpr ⟨position, List.mem_singleton.mpr rfl⟩)

end Template

namespace Settings

open Template Yaml

variable {settings : Settings}

theorem checkNames_eq_ok_iff : settings.checkNames = .ok settings ↔
    ∀ name ∈ settings.values.names, isName name = true := by
  unfold checkNames
  cases h : settings.values.names.find? (!isName ·) with
  | none => simpa using h
  | some name =>
    have hinvalid : isName name = false := by simpa using List.find?_some h
    constructor
    · intro hsame
      cases hsame
    · intro hall
      rw [hall name (List.mem_of_find?_eq_some h)] at hinvalid
      cases hinvalid

/-- The names are looked at in order, so the first invalid one is the least. -/
theorem exists_least_invalid (h : ∃ name ∈ settings.values.names, isName name = false) :
    ∃ least ∈ settings.values.names, isName least = false ∧
      (∀ name ∈ settings.values.names, isName name = false → least ≤ name) ∧
      settings.checkNames = .error (.invalidName least) := by
  obtain ⟨name, hname, hinvalid⟩ := h
  cases hfind : settings.values.names.find? (!isName ·) with
  | none =>
    have hvalid := List.find?_eq_none.mp hfind name hname
    simp [hinvalid] at hvalid
  | some least =>
    obtain ⟨hleast, front, back, hsplit, hfront⟩ := List.find?_eq_some_iff_append.mp hfind
    refine ⟨least, List.mem_of_find?_eq_some hfind, by simpa using hleast, ?_, ?_⟩
    · intro other hother hother'
      have hsorted := settings.values.pairwise_names
      rw [hsplit] at hother hsorted
      rcases List.mem_append.mp hother with hmem | hmem
      · have hvalid := hfront other hmem
        simp [hother'] at hvalid
      · rcases List.mem_cons.mp hmem with rfl | hmem
        · exact String.le_refl _
        · obtain ⟨-, hback, -⟩ := List.pairwise_append.mp hsorted
          exact String.lt_asymm ((List.pairwise_cons.mp hback).1 other hmem)
    · rw [checkNames, hfind]

theorem ofYaml_of_document {text : String} (h : (document? text).bind ofDocument? = some settings) :
    ofYaml text = settings.checkNames := by
  rw [ofYaml, h]

theorem isName_of_ofYaml {text : String} (h : ofYaml text = .ok settings) :
    ∀ name ∈ settings.values.names, isName name = true := by
  cases hdocument : (document? text).bind ofDocument? with
  | none =>
    rw [ofYaml, hdocument] at h
    cases h
  | some read =>
    rw [ofYaml_of_document hdocument] at h
    by_cases hall : ∀ name ∈ read.values.names, isName name = true
    · rw [checkNames_eq_ok_iff.mpr hall] at h
      obtain rfl := Except.ok.inj h
      exact hall
    · have hsome : ∃ name ∈ read.values.names, isName name = false := by simpa using hall
      obtain ⟨least, -, -, -, herror⟩ := exists_least_invalid hsome
      rw [herror] at h
      cases h

theorem interpolate_reference {name : String} {scalar : Scalar}
    (hname : isName name = true) (hget : settings.values.get? name = some scalar)
    {before after : String} (hbefore : ∀ c ∈ before.toList, Text.isBlank c = true)
    (hafter : ∀ c ∈ after.toList, Text.isBlank c = true) :
    settings.interpolate ("\x7b" ++ before ++ "$" ++ name ++ after ++ "\x7d") =
      .ok scalar.toValue.toText := by
  obtain ⟨context, hcontext, -, hvalue⟩ := exists_context settings
  have hparse : Template.parse settings.scope
      ("\x7b" ++ before ++ "$" ++ name ++ after ++ "\x7d") =
        .ok ⟨[.placeholder ⟨.named name, .start⟩]⟩ := by
    apply parse_placeholder hbefore (isSpellable_named hname) hafter
    · intro other hother
      obtain rfl : name = other := Option.some.inj hother
      rw [permits_scope, NameMap.contains_eq, hget]
      simp
    · simp [Reference.spelling]
  have hbound : context.get? name = some scalar.toValue := by
    rw [hvalue, hget]
    rfl
  apply interpolate_of_render hparse hcontext
  rw [render_cons, render_nil, Part.becomes_iff.mp (.named hbound)]
  exact congrArg Except.ok String.append_empty

/-- The names accepted in settings are the names that templates can refer to. A name is valid
exactly if it can be referred to, and a template refers to no other. So in accepted settings, strict
or not, each name renders to the text of its value, with any blanks around it. A document that is in
order is accepted if all its names are valid, and otherwise the least of the others is reported. -/
theorem accepted_names_are_referable :
    (∀ name : String, isName name = true ↔ ∃ position,
      Template.parse .anyName ("\x7b$" ++ name ++ "\x7d") =
        .ok ⟨[.placeholder ⟨.named name, position⟩]⟩) ∧
    (∀ text template, Template.parse .anyName text = .ok template →
      ∀ name ∈ template.names, isName name = true) ∧
    (∀ text settings, ofYaml text = .ok settings →
      ∀ name scalar, settings.values.get? name = some scalar →
      ∀ before after : String, (∀ c ∈ before.toList, Text.isBlank c = true) →
      (∀ c ∈ after.toList, Text.isBlank c = true) → ∀ strict,
        interpolate { settings with strict := strict }
          ("\x7b" ++ before ++ "$" ++ name ++ after ++ "\x7d") = .ok scalar.toValue.toText) ∧
    ∀ text settings, (document? text).bind ofDocument? = some settings →
      (ofYaml text = .ok settings ↔ ∀ name ∈ settings.values.names, isName name = true) ∧
      ((∃ name ∈ settings.values.names, isName name = false) →
        ∃ least ∈ settings.values.names, isName least = false ∧
          (∀ name ∈ settings.values.names, isName name = false → least ≤ name) ∧
          ofYaml text = .error (.invalidName least)) := by
  refine ⟨isName_iff_parse, fun _ _ => isName_of_mem_names, ?_, ?_⟩
  · intro text settings hread name scalar hget before after hbefore hafter strict
    have hmem : name ∈ settings.values.names := by
      rw [← NameMap.contains_iff_mem_names, NameMap.contains_eq, hget]
      rfl
    have hget' : ({ settings with strict := strict } : Settings).values.get? name = some scalar :=
      hget
    exact interpolate_reference (isName_of_ofYaml hread name hmem) hget' hbefore hafter
  · intro text settings hdocument
    rw [ofYaml_of_document hdocument]
    exact ⟨checkNames_eq_ok_iff, exists_least_invalid⟩

theorem accepted_document : (document? "default: d\nvalues:\n  user: Ada\n").bind ofDocument? =
    some ⟨.text "d", .ofList [("user", .text "Ada")], true⟩ := by
  have htokens : tokens? "default: d\nvalues:\n  user: Ada\n" = some [.blockMappingStart,
      .key, .scalar .plain "default", .value, .scalar .plain "d",
      .key, .scalar .plain "values", .value, .blockMappingStart,
      .key, .scalar .plain "user", .value, .scalar .plain "Ada", .blockEnd, .blockEnd] := by
    decide +kernel
  rw [document?, htokens]
  rfl

theorem refused_document : (document? "default: d\nvalues:\n  a b: x\n  +: y\n").bind ofDocument? =
    some ⟨.text "d", .ofList [("a b", .text "x"), ("+", .text "y")], true⟩ := by
  have htokens : tokens? "default: d\nvalues:\n  a b: x\n  +: y\n" = some [.blockMappingStart,
      .key, .scalar .plain "default", .value, .scalar .plain "d",
      .key, .scalar .plain "values", .value, .blockMappingStart,
      .key, .scalar .plain "a b", .value, .scalar .plain "x",
      .key, .scalar .plain "+", .value, .scalar .plain "y", .blockEnd, .blockEnd] := by
    decide +kernel
  rw [document?, htokens]
  rfl

/-- A document with a name that can be referred to, and one with two names that cannot. -/
theorem accepted_names_are_referable_in_documents :
    (∃ settings, ofYaml "default: d\nvalues:\n  user: Ada\n" = .ok settings ∧
      settings.interpolate ("\x7b" ++ "\n" ++ "$" ++ "user" ++ " " ++ "\x7d") = .ok "Ada") ∧
    ofYaml "default: d\nvalues:\n  a b: x\n  +: y\n" = .error (.invalidName "+") := by
  obtain ⟨-, -, hrender, hjudge⟩ := accepted_names_are_referable
  constructor
  · have haccepted := (hjudge _ _ accepted_document).1.mpr (by decide +kernel)
    have hfeed : ∀ c ∈ "\n".toList, Text.isBlank c = true := by simp [Text.isBlank]
    have hspace : ∀ c ∈ " ".toList, Text.isBlank c = true := by simp [Text.isBlank]
    exact ⟨_, haccepted, hrender _ _ haccepted "user" (.text "Ada") rfl "\n" " " hfeed hspace true⟩
  · have hnames :
        (NameMap.ofList [("a b", Scalar.text "x"), ("+", .text "y")]).names = ["+", "a b"] := rfl
    obtain ⟨least, hmem, -, hleast, herror⟩ :=
      (hjudge _ _ refused_document).2 ⟨"+", by simp [hnames], by decide⟩
    have hle : least ≤ "+" := hleast "+" (by simp [hnames]) (by decide)
    have hcases : least = "+" ∨ least = "a b" := by simpa [hnames] using hmem
    rcases hcases with rfl | rfl
    · exact herror
    · exact absurd hle (by decide)

end Settings

end Interpolation
