import Interpolation.Proofs.Yaml.Meaning
import Interpolation.Proofs.Yaml.Scalar.Block
import Interpolation.Proofs.Yaml.Scalar.Double
import Interpolation.Proofs.Yaml.Scalar.Plain
import Interpolation.Proofs.Yaml.Scalar.Single

/-! What the choice of a style says about the text. Whatever it is, only characters that can be
shown are written. -/

namespace Interpolation.Yaml

namespace Meaning

theorem number?_ne_text {s : List Char} {content : String} :
    number? s ≠ some (some (text content)) := by
  have hfloat : (if isPadded s then none else (float? s).map float) ≠ some (text content) := by
    intro h
    split at h
    · cases h
    · obtain ⟨x, -, hx⟩ := Option.map_eq_some_iff.mp h
      cases hx
  intro h
  unfold number? at h
  dsimp only at h
  split at h
  · exact hfloat (Option.some.inj h)
  · split at h
    · cases h
    · cases h
    · exact hfloat (Option.some.inj h)

theorem eq_of_ofPlain?_text {content other : String} (h : ofPlain? content = some (text other)) :
    other = content := by
  unfold ofPlain? at h
  dsimp only at h
  split at h
  · cases h
  · split at h
    · cases h
    · obtain ⟨number, hnumber, heq⟩ := Option.map_eq_some_iff.mp h
      cases number with
      | none => exact (Meaning.text.inj heq).symm
      | some meaning =>
        rw [Option.getD_some] at heq
        rw [heq] at hnumber
        exact absurd hnumber number?_ne_text

end Meaning

namespace Scalar

theorem isAmbiguous_eq_false {content : String} (h : isAmbiguous content = false) :
    Meaning.ofPlain? content = some (.text content) := by
  obtain ⟨-, hmatch⟩ := Bool.or_eq_false_iff.mp h
  split at hmatch
  · rename_i other heq
    rw [heq, Meaning.eq_of_ofPlain?_text heq]
  · cases hmatch

theorem needsEscapes_eq_false {text : List Char} (h : needsEscapes text = false) :
    (∀ c ∈ text, Double.isPrintable c = true) ∧
      anyNeighbours (fun a b => a == ' ' && isBreak b) text = false := by
  obtain ⟨hprintable, hneighbours⟩ := Bool.or_eq_false_iff.mp h
  refine ⟨fun c hc => ?_, hneighbours⟩
  have hnot := List.any_eq_false.mp hprintable c hc
  simpa using hnot

theorem quotable_of_allowsSingle {text : List Char} (h : allowsSingle text = true)
    (hfeed : '\n' ∉ text) : Quotable text := by
  obtain ⟨hescapes, hneighbours⟩ : needsEscapes text = false ∧
      anyNeighbours (fun a b => isBreak a && b == ' ') text = false := by
    simpa [allowsSingle] using h
  obtain ⟨hprintable, hspaces⟩ := needsEscapes_eq_false hescapes
  exact ⟨hprintable, hfeed, hspaces, hneighbours⟩

theorem standing_of_allowsPlain {text : List Char} (hne : text ≠ []) (h : allowsPlain text = true) :
    Plain.Standing text := by
  obtain ⟨⟨⟨⟨⟨hsingle, hmultiline⟩, hhead⟩, hlast⟩, hstart⟩, hinside⟩ :
      ((((allowsSingle text = true ∧ isMultiline text = false) ∧ text.head?.any isEdge = false) ∧
        text.getLast?.any isEdge = false) ∧ beginsWithIndicator text = false) ∧
        hasIndicator text = false := by
    simpa only [allowsPlain, Bool.and_eq_true, Bool.not_eq_true'] using h
  have hbreaks : ∀ c ∈ text, isBreak c = false := by
    intro c hc
    have hnot := List.any_eq_false.mp hmultiline c hc
    simp only [Bool.or_eq_true, not_or] at hnot
    exact Bool.eq_false_iff.mpr hnot.1.1
  have hfeed : '\n' ∉ text := fun hmem => Bool.noConfusion (hbreaks '\n' hmem)
  refine ⟨hne, (quotable_of_allowsSingle hsingle hfeed).printable, hbreaks, ?_, ?_, hstart, hinside⟩
  · intro hspace
    rw [hspace] at hhead
    exact Bool.noConfusion hhead
  · intro hspace
    rw [hspace] at hlast
    exact Bool.noConfusion hlast

/-- The styles that text is written in, and what each of them needs. -/
inductive Written (text : String) : Style → Prop
  | plain (hstanding : Plain.Standing text.toList)
    (hmeaning : Meaning.ofPlain? text = some (.text text)) : Written text .plain
  | single (hquotable : Quotable text.toList) : Written text .single
  | double : Written text .double
  | literal (hfeed : '\n' ∈ text.toList)
    (hprintable : ∀ c ∈ text.toList, Double.isPrintable c = true) :
    Written text .literal

theorem written_style (text : String) : Written text (style text) := by
  unfold style
  dsimp only
  split
  · rename_i hfeed
    split
    · rename_i hliteral
      obtain ⟨hescapes, -⟩ := Bool.and_eq_true_iff.mp hliteral
      have hprintable := (needsEscapes_eq_false (by simpa using hescapes)).1
      exact .literal (List.contains_iff_mem.mp hfeed) hprintable
    · exact .double
  · rename_i hfeed
    have hmem : '\n' ∉ text.toList := fun h => hfeed (List.contains_iff_mem.mpr h)
    split
    · rename_i hplain
      obtain ⟨hambiguous, hallows⟩ := Bool.and_eq_true_iff.mp hplain
      have hmeaning := isAmbiguous_eq_false (by simpa using hambiguous)
      refine .plain (standing_of_allowsPlain ?_ hallows) hmeaning
      -- Empty text would mean nothing, so it is not written plainly.
      intro hnil
      have hnull : Meaning.ofPlain? text = some .null := by
        unfold Meaning.ofPlain?
        rw [hnil]
        rfl
      rw [hnull] at hmeaning
      cases hmeaning
    · split
      · rename_i hsingle
        exact .single (quotable_of_allowsSingle hsingle hmem)
      · exact .double

end Scalar

end Interpolation.Yaml
