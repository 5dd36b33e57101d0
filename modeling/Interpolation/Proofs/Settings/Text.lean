import Interpolation.Proofs.Settings.Acceptance
import Interpolation.Proofs.Value.Text

/-! Whatever is recognised in a text of settings, a reference to it renders to the text itself. -/

namespace Interpolation.Settings

open Template

variable {settings : Settings}

theorem interpolate_default :
    settings.interpolate "\x7b.\x7d" = .ok settings.default.toValue.toText := by
  obtain ⟨context, hcontext, hdefault, -⟩ := exists_context settings
  have hparse : Template.parse settings.scope "\x7b.\x7d" =
      .ok ⟨[.placeholder ⟨.default, .start⟩]⟩ := by
    apply @parse_placeholder _ _ [] [] .default
    · simp
    · exact isSpellable_default
    · simp
    · simp [Reference.name?]
    · simp [Reference.spelling]
  apply interpolate_of_render hparse hcontext
  rw [render_cons, render_nil, Part.becomes_iff.mp .default, hdefault]
  exact congrArg Except.ok String.append_empty

theorem interpolate_named {name : String} {scalar : Scalar} (hname : isName name = true)
    (hget : settings.values.get? name = some scalar) :
    settings.interpolate ("\x7b$" ++ name ++ "\x7d") = .ok scalar.toValue.toText := by
  have hinterpolate :=
    @interpolate_reference settings name scalar hname hget "" "" (by simp) (by simp)
  have htext : "\x7b" ++ "" ++ "$" ++ name ++ "" ++ "\x7d" = "\x7b$" ++ name ++ "\x7d" := by
    apply String.toList_injective
    simp
  rwa [htext] at hinterpolate

/-- Recognition never alters a text. The text of what is recognised is the text that was given, no
float that is recognised is infinite or a NaN, and so equality of recognised values is equality of
their texts. In particular a text in settings renders to itself. -/
theorem recognition_keeps_text :
    (∀ raw, (Value.recognize raw).toText = raw) ∧
    (∀ raw x source, Value.recognize raw = .float x source → x.isFinite = true) ∧
    (∀ raw, (Value.recognize raw == Value.recognize raw) = true) ∧
    (∀ raw other, (Value.recognize raw == Value.recognize other) = true ↔ raw = other) ∧
    (∀ (settings : Settings) content, settings.default = .text content →
      settings.interpolate "\x7b.\x7d" = .ok content) ∧
    ∀ (settings : Settings) name content, isName name = true →
      settings.values.get? name = some (.text content) →
      settings.interpolate ("\x7b$" ++ name ++ "\x7d") = .ok content := by
  refine ⟨Value.toText_recognize, fun _ _ _ => Value.isFinite_of_recognize,
    Value.recognize_beq_self, fun _ _ => Value.recognize_beq_iff, ?_, ?_⟩
  · intro settings content hdefault
    rw [interpolate_default, hdefault]
    exact congrArg Except.ok (Value.toText_recognize content)
  · intro settings name content hname hget
    rw [interpolate_named hname hget]
    exact congrArg Except.ok (Value.toText_recognize content)

/-- A default with zeros at its end, and a value with a zero in front. -/
theorem recognition_keeps_zeros :
    interpolate ⟨.text "1.00", .empty, false⟩ "\x7b.\x7d" = .ok "1.00" ∧
    interpolate ⟨.text "", NameMap.empty.insert "zip" (.text "02134"), true⟩
      ("\x7b$" ++ "zip" ++ "\x7d") = .ok "02134" := by
  obtain ⟨-, -, -, -, hdefault, hvalue⟩ := recognition_keeps_text
  exact ⟨hdefault ⟨.text "1.00", .empty, false⟩ "1.00" rfl,
    hvalue ⟨.text "", NameMap.empty.insert "zip" (.text "02134"), true⟩ "zip" "02134" (by decide)
      rfl⟩

end Interpolation.Settings
