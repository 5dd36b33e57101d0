import Interpolation.Proofs.Template.Validation
import Interpolation.Template.Rendering

/-! Rendering fails exactly where the first placeholder with an unbound name stands. -/

namespace Interpolation.Template

/-- Whether a placeholder has a value: the default always has. -/
def Placeholder.IsBound (context : Context) (placeholder : Placeholder) : Prop :=
  ∀ name, placeholder.reference = .named name → context.contains name = true

variable {context : Context}

theorem render_nil : render ⟨[]⟩ context = .ok "" := rfl

theorem render_cons (part : Part) (parts : List Part) : render ⟨part :: parts⟩ context =
    (part.render context).bind fun text => (render ⟨parts⟩ context).map (text ++ ·) := by
  rw [render, render, List.mapM_cons]
  cases part.render context with
  | error e => rfl
  | ok text =>
    cases parts.mapM (Part.render context) with
    | error e => rfl
    | ok texts => exact congrArg Except.ok String.join_cons

theorem render_literal_cons (text : String) (parts : List Part) :
    render ⟨.literal text :: parts⟩ context = (render ⟨parts⟩ context).map (text ++ ·) :=
  render_cons (.literal text) parts

theorem Placeholder.exists_value {p : Placeholder} (bound : p.IsBound context) :
    ∃ value, p.value context = .ok value := by
  obtain ⟨reference, position⟩ := p
  cases reference with
  | default => exact ⟨context.default, rfl⟩
  | named name =>
    obtain ⟨value, hvalue⟩ := Option.isSome_iff_exists.mp (bound name rfl)
    have hget : context.get? name = some value := hvalue
    exact ⟨value, by simp [Placeholder.value, hget]⟩

theorem Placeholder.value_of_unbound {name : String} (position : Position)
    (h : context.contains name = false) :
    Placeholder.value context ⟨.named name, position⟩ = .error (.unboundName name position) := by
  have hget : context.get? name = none := Option.not_isSome_iff_eq_none.mp (Bool.eq_false_iff.mp h)
  simp [value, hget]

variable {template : Template}

theorem exists_render (h : ∀ p ∈ template.placeholders, p.IsBound context) :
    ∃ output, template.render context = .ok output := by
  obtain ⟨parts⟩ := template
  induction parts with
  | nil => exact ⟨"", render_nil⟩
  | cons part parts ih =>
    cases part with
    | literal text =>
      obtain ⟨output, houtput⟩ := ih h
      refine ⟨text ++ output, ?_⟩
      rw [render_literal_cons, houtput]
      rfl
    | placeholder p =>
      obtain ⟨value, hvalue⟩ := Placeholder.exists_value (h p List.mem_cons_self)
      obtain ⟨output, houtput⟩ := ih fun q hq => h q (List.mem_cons_of_mem p hq)
      refine ⟨value.toText ++ output, ?_⟩
      rw [render_cons, Part.render, hvalue, houtput]
      rfl

theorem render_of_unbound {before after : List Placeholder} {name : String} {position : Position}
    (hsplit : template.placeholders = before ++ ⟨.named name, position⟩ :: after)
    (hbefore : ∀ p ∈ before, p.IsBound context) (h : context.contains name = false) :
    template.render context = .error (.unboundName name position) := by
  obtain ⟨parts⟩ := template
  -- The parts are walked through together with the placeholders that have a value.
  induction parts generalizing before with
  | nil => exact absurd hsplit.symm (by simp [placeholders])
  | cons part parts ih =>
    cases part with
    | literal text =>
      rw [render_literal_cons, ih hbefore hsplit]
      rfl
    | placeholder p =>
      have hcons : p :: placeholders ⟨parts⟩ = before ++ ⟨.named name, position⟩ :: after := hsplit
      cases before with
      | nil =>
        obtain ⟨rfl, -⟩ := List.cons.inj hcons
        rw [render_cons, Part.render, Placeholder.value_of_unbound position h]
        rfl
      | cons q before =>
        obtain ⟨rfl, htail⟩ := List.cons.inj hcons
        obtain ⟨value, hvalue⟩ := Placeholder.exists_value (hbefore p List.mem_cons_self)
        rw [render_cons, Part.render, hvalue,
          ih (fun r hr => hbefore r (List.mem_cons_of_mem p hr)) htail]
        rfl

end Interpolation.Template
