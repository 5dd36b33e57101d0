import Interpolation.Proofs.Context.Equality
import Interpolation.Proofs.Template.Relevance
import Interpolation.Proofs.Template.Substitution

/-! Templates do not tell equal contexts apart, but for one thing: zeros of either sign are equal,
and have different texts where no text was kept. -/

namespace Interpolation.Template

variable {template : Template} {first second : Context}

/-- Equal contexts agree on a template if they have the same zeros where it refers to bare ones. -/
theorem agree_of_beq (h : (first == second) = true)
    (hnames : ∀ name ∈ template.names, ∀ value, first.get? name = some value →
      value.IsBareZero → second.get? name = some value)
    (hdefault : template.usesDefault = true → first.default.IsBareZero →
      first.default = second.default) :
    template.Agree first second := by
  obtain ⟨hget, hsame⟩ := Context.beq_iff.mp h
  constructor
  · intro name hname
    exact Value.map_toText_eq_of_beq (hget name) (hnames name hname)
  · intro hused
    exact (Value.toText_eq_iff_of_beq hsame).mpr (hdefault hused)

theorem exists_zeros_of_render_ne (h : (first == second) = true)
    (hne : template.render first ≠ template.render second) :
    (template.usesDefault = true ∧ first.default.IsBareZero ∧ first.default ≠ second.default) ∨
    ∃ name ∈ template.names, ∃ value, first.get? name = some value ∧ value.IsBareZero ∧
      second.get? name ≠ some value := by
  by_contra hnone
  obtain ⟨hdefault, hnames⟩ := not_or.mp hnone
  apply hne
  apply Agree.render_eq
  apply agree_of_beq h
  · intro name hname value hfirst hzero
    by_contra hsecond
    exact hnames ⟨name, hname, value, hfirst, hzero, hsecond⟩
  · intro hused hzero
    by_contra hsecond
    exact hdefault ⟨hused, hzero, hsecond⟩

/-- Equal contexts are interchangeable, up to the sign of zero. The same names are reported as
unbound, a template renders in both or in neither, with the same error, and if no value is a zero
without a kept text, it renders to the same output. Where the outputs differ, the template refers to
such a zero, with another sign in the other context. -/
theorem render_in_equal_contexts {first second : Context} (h : (first == second) = true)
    (template : Template) :
    template.unboundNames first = template.unboundNames second ∧
    ((∃ output, template.render first = .ok output) ↔
      ∃ output, template.render second = .ok output) ∧
    (∀ e, template.render first = .error e ↔ template.render second = .error e) ∧
    ((∀ name value, first.get? name = some value → ¬ value.IsBareZero) →
      ¬ first.default.IsBareZero → template.render first = template.render second) ∧
    (template.render first ≠ template.render second →
      (template.usesDefault = true ∧ first.default.IsBareZero ∧ first.default ≠ second.default) ∨
      ∃ name ∈ template.names, ∃ value, first.get? name = some value ∧ value.IsBareZero ∧
        second.get? name ≠ some value) := by
  have hcontains := Context.contains_eq_of_beq h
  have hcontains' := fun name => (hcontains name).symm
  refine ⟨unboundNames_congr hcontains, ⟨exists_render_congr hcontains,
    exists_render_congr hcontains'⟩, fun e => ⟨render_error_congr hcontains,
    render_error_congr hcontains'⟩, ?_, exists_zeros_of_render_ne h⟩
  intro hnames hdefault
  by_contra hne
  rcases exists_zeros_of_render_ne h hne with ⟨-, hzero, -⟩ | ⟨name, -, value, hvalue, hzero, -⟩
  · exact hdefault hzero
  · exact hnames name value hvalue hzero

/-- A zero of either sign, but with the text that it was recognised in. -/
theorem render_in_equal_contexts_kept_text :
    ((⟨NameMap.empty.insert "a" (.float (.ofMagnitude false 0) (some "0.00")), .text "d"⟩ :
        Context) ==
      ⟨NameMap.empty.insert "a" (.float (.ofMagnitude true 0) (some "0.00")), .text "d"⟩) = true ∧
    render ⟨[.placeholder ⟨.named "a", .start⟩]⟩
        ⟨NameMap.empty.insert "a" (.float (.ofMagnitude false 0) (some "0.00")), .text "d"⟩ =
      render ⟨[.placeholder ⟨.named "a", .start⟩]⟩
        ⟨NameMap.empty.insert "a" (.float (.ofMagnitude true 0) (some "0.00")), .text "d"⟩ := by
  refine ⟨by decide, (render_in_equal_contexts (by decide) _).2.2.2.1 ?_ ?_⟩
  · intro name value hvalue hzero
    have hmem := NameMap.get?_eq_some_iff.mp hvalue
    obtain ⟨-, rfl⟩ := Prod.mk.inj (List.mem_singleton.mp hmem)
    cases hzero.source?
  · rintro ⟨negative, hzero⟩
    cases hzero

/-- Without the text the outputs differ, although the contexts are equal. -/
example : ((⟨.empty, .ofFloat (.ofMagnitude false 0)⟩ : Context) ==
      ⟨.empty, .ofFloat (.ofMagnitude true 0)⟩) = true ∧
    render ⟨[.placeholder ⟨.default, .start⟩]⟩ ⟨.empty, .ofFloat (.ofMagnitude false 0)⟩ =
      .ok "0.0" ∧
    render ⟨[.placeholder ⟨.default, .start⟩]⟩ ⟨.empty, .ofFloat (.ofMagnitude true 0)⟩ =
      .ok "-0.0" := by
  decide +kernel

end Interpolation.Template
