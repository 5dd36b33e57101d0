import Interpolation.Proofs.Yaml.Gap
import Interpolation.Yaml.Scalar.Inline

/-! Text of one line that neither begins with an indicator nor has one inside is read as it stands,
up to the line end or the colon behind it. -/

namespace Interpolation.Yaml.Plain

open Yaml.Scalar

/-- Text that can stand plainly. -/
structure Standing (text : List Char) : Prop where
  nonempty : text ≠ []
  printable : ∀ c ∈ text, Double.isPrintable c = true
  oneLine : ∀ c ∈ text, isBreak c = false
  head : text.head? ≠ some ' '
  last : text.getLast? ≠ some ' '
  start : beginsWithIndicator text = false
  inside : hasIndicator text = false

instance (text : List Char) : Decidable (Standing text) :=
  decidable_of_iff (text ≠ [] ∧ text.all (fun c => Double.isPrintable c && !isBreak c) = true ∧
      text.head? ≠ some ' ' ∧ text.getLast? ≠ some ' ' ∧ beginsWithIndicator text = false ∧
      hasIndicator text = false) <| by
    simp only [List.all_eq_true, Bool.and_eq_true, Bool.not_eq_true']
    constructor
    · rintro ⟨hne, hshown, hhead, hlast, hstart, hinside⟩
      exact ⟨hne, fun c hc => (hshown c hc).1, fun c hc => (hshown c hc).2, hhead, hlast, hstart,
        hinside⟩
    · intro h
      exact ⟨h.nonempty, fun c hc => ⟨h.printable c hc, h.oneLine c hc⟩, h.head, h.last, h.start,
        h.inside⟩

variable {margin : Nat} {gap : Gap} {c : Char} {rest : List Char}

theorem read?_of_blank (hc : c ≠ '\t') (h : (isBlank c || isBreak c) = true) :
    read? margin false gap (c :: rest) = read? margin false (gap.push c) rest := by
  have htab : (c == '\t') = false := beq_eq_false_iff_ne.mpr hc
  rw [read?, if_pos h, htab]
  rfl

theorem read?_of_letter (hblank : isBlank c = false) (hbreak : isBreak c = false)
    (hgap : endsWithGap margin false gap c rest = false)
    (hcolon : c = ':' → endsWord rest = false) :
    read? margin false gap (c :: rest) =
      (read? margin false .empty rest).map fun read =>
        { read with content := gap.text ++ c :: read.content } := by
  have hmisplaced : isMisplacedColon false c rest = false := rfl
  have hends : endsBefore false c rest = false := by
    unfold endsBefore
    by_cases hc : c = ':'
    · rw [hcolon hc, Bool.and_false]
      rfl
    · rw [beq_eq_false_iff_ne.mpr hc]
      rfl
  rw [read?]
  simp only [hblank, hbreak, hgap, hmisplaced, hends, Bool.or_self, Bool.false_eq_true, if_false]

theorem endsWithGap_within {blanks : List Char} (h : blanks ≠ [] → c ≠ '#') :
    endsWithGap margin false (.within blanks) c rest = false := by
  unfold endsWithGap
  rw [Gap.isEmpty_within, Gap.atLineStart_within, Gap.isBroken_within]
  cases blanks with
  | nil => rfl
  | cons d blanks =>
    rw [beq_eq_false_iff_ne.mpr (h (List.cons_ne_nil d blanks))]
    simp

theorem endsWord_append {text : List Char} (h : text ≠ []) (rest : List Char) :
    endsWord (text ++ rest) = endsWord text := by
  cases text with
  | nil => exact absurd rfl h
  | cons c text => rfl

theorem not_indicator {a : Char} (h : hasIndicator (a :: c :: rest) = false) :
    (c = ':' → endsWord rest = false) ∧ (isBlank a = true → c ≠ '#') ∧
      hasIndicator (c :: rest) = false := by
  unfold hasIndicator at h
  simp only [Bool.or_eq_false_iff] at h
  obtain ⟨⟨hcolon, hsign⟩, hrest⟩ := h
  refine ⟨?_, ?_, hrest⟩
  · rintro rfl
    exact hcolon
  · rintro ha rfl
    rw [ha] at hsign
    exact Bool.noConfusion hsign

/-- The rest of a scalar, behind its character `a` and the blanks that follow it. -/
theorem read?_rest {a : Char} {blanks text tail : List Char} {broken : Bool}
    (hprintable : ∀ c ∈ text, Double.isPrintable c = true)
    (honeLine : ∀ c ∈ text, isBreak c = false)
    (hinside : hasIndicator (a :: text) = false) (hblanks : blanks ≠ [] → isBlank a = true)
    (hlast : isBlank (text.getLast?.getD a) = false)
    (htail : read? margin false .empty tail = some ⟨[], broken, rest⟩) :
    read? margin false (.within blanks) (text ++ tail) = some ⟨blanks ++ text, broken, rest⟩ := by
  induction text generalizing a blanks with
  | nil =>
    -- Blanks at the end would be lost, but the last character is none.
    have hnil : blanks = [] := by
      apply Classical.byContradiction
      intro hne
      exact Bool.noConfusion (hlast.symm.trans (hblanks hne))
    rw [hnil]
    exact htail
  | cons c text ih =>
    have hc := hprintable c List.mem_cons_self
    have hbreak := honeLine c List.mem_cons_self
    have hprintable' := fun d hd => hprintable d (List.mem_cons_of_mem c hd)
    have honeLine' := fun d hd => honeLine d (List.mem_cons_of_mem c hd)
    obtain ⟨hcolon, hsign, hrest⟩ := not_indicator hinside
    have hlast' : isBlank (text.getLast?.getD c) = false := by
      rw [List.getLast?_cons] at hlast
      exact hlast
    by_cases hspace : c = ' '
    · subst hspace
      have h : read? margin false (.within (blanks ++ [' '])) (text ++ tail) =
          some ⟨blanks ++ [' '] ++ text, broken, rest⟩ :=
        ih hprintable' honeLine' hrest (fun _ => rfl) hlast'
      rw [List.cons_append, read?_of_blank (by decide) rfl, Gap.push_within rfl, h,
        List.append_assoc]
      rfl
    · have h : read? margin false (.within []) (text ++ tail) = some ⟨[] ++ text, broken, rest⟩ :=
        ih hprintable' honeLine' hrest (fun h => absurd rfl h) hlast'
      have hends : c = ':' → endsWord (text ++ tail) = false := by
        intro hc
        cases text with
        | nil => exact Bool.noConfusion (hcolon hc)
        | cons d text => exact hcolon hc
      rw [List.cons_append, read?_of_letter (isBlank_eq_false hc hspace) hbreak
        (endsWithGap_within fun hne => hsign (hblanks hne)) hends, ← Gap.within_nil, h]
      rfl

theorem begins_eq_false {text : List Char} (h : beginsWithIndicator (c :: text) = false) :
    (∀ d ∈ "#,[]\x7b\x7d&*!|>'\"%@`".toList, c ≠ d) ∧
      (c = '?' ∨ c = ':' ∨ c = '-' → text ≠ [] ∧ endsWord text = false) := by
  unfold beginsWithIndicator at h
  split at h
  · cases h
  · cases h
  · rename_i heq
    cases heq
  · rename_i heq
    cases heq
    obtain ⟨hlist, hword⟩ := Bool.or_eq_false_iff.mp h
    constructor
    · rintro d hd rfl
      rw [List.contains_iff_mem.mpr hd] at hlist
      cases hlist
    · intro hc
      have hends : endsWord text = false := by
        rcases hc with rfl | rfl | rfl
        · exact hword
        · exact hword
        · exact hword
      refine ⟨?_, hends⟩
      rintro rfl
      cases hends

theorem Standing.last_not_blank {text : List Char} (h : Standing (c :: text)) :
    isBlank (text.getLast?.getD c) = false := by
  have hlast : (c :: text).getLast? = some (text.getLast?.getD c) := List.getLast?_cons
  have hprintable := h.printable _ (List.mem_of_getLast? hlast)
  apply isBlank_eq_false hprintable
  intro hspace
  rw [hspace] at hlast
  exact h.last hlast

theorem read?_append {text tail : List Char} {broken : Bool} (h : Standing text)
    (htail : read? margin false .empty tail = some ⟨[], broken, rest⟩) :
    read? margin false .empty (text ++ tail) = some ⟨text, broken, rest⟩ := by
  obtain ⟨c, text, rfl⟩ := List.exists_cons_of_ne_nil h.nonempty
  have hmark := (begins_eq_false h.start).2
  have hprintable := h.printable c List.mem_cons_self
  have hspace : c ≠ ' ' := by
    rintro rfl
    exact h.head rfl
  have hends : c = ':' → endsWord (text ++ tail) = false := by
    intro hc
    obtain ⟨hne, hword⟩ := hmark (Or.inr (Or.inl hc))
    rw [endsWord_append hne, hword]
  -- The first character cannot be a blank, so the rest is read behind an empty gap.
  have hrest : read? margin false (.within []) (text ++ tail) = some ⟨[] ++ text, broken, rest⟩ :=
    read?_rest (fun d hd => h.printable d (List.mem_cons_of_mem c hd))
      (fun d hd => h.oneLine d (List.mem_cons_of_mem c hd)) h.inside (fun hne => absurd rfl hne)
      h.last_not_blank htail
  have hgap : endsWithGap margin false .empty c (text ++ tail) = false :=
    endsWithGap_within fun hne => absurd rfl hne
  rw [List.cons_append, read?_of_letter (isBlank_eq_false hprintable hspace)
    (h.oneLine c List.mem_cons_self) hgap hends, ← Gap.within_nil, hrest]
  rfl

theorem read?_colon (h : endsWord rest = true) :
    read? margin false .empty (':' :: rest) = some ⟨[], false, ':' :: rest⟩ := by
  have hends : endsBefore false ':' rest = true := by
    rw [endsBefore, h]
    rfl
  have hgap : endsWithGap margin false .empty ':' rest = false := rfl
  have hmisplaced : isMisplacedColon false ':' rest = false := rfl
  rw [read?, hgap, hmisplaced, hends]
  rfl

theorem read?_spaces {breaks : List Char} (hne : breaks ≠ []) (column k : Nat) (rest : List Char) :
    read? margin false (.behind breaks column) (List.replicate k ' ' ++ rest) =
      read? margin false (.behind breaks (column + k)) rest := by
  induction k generalizing column with
  | zero => rfl
  | succ k ih =>
    rw [List.replicate_succ, List.cons_append, read?_of_blank (by decide) rfl,
      Gap.push_behind_blank hne rfl, ih]
    congr 2
    omega

theorem read?_line {column : Nat} (hcolumn : column < margin) (h : BeginsToken rest) :
    read? margin false .empty ('\n' :: (List.replicate column ' ' ++ rest)) =
      some ⟨[], true, rest⟩ := by
  have hne : ['\n'] ≠ [] := List.cons_ne_nil _ _
  have hbroken : (Gap.behind ['\n'] column).isBroken = true := Gap.isBroken_behind hne
  rw [read?_of_blank (by decide) rfl, ← Gap.within_nil, Gap.push_break rfl, read?_spaces hne,
    Nat.zero_add]
  cases rest with
  | nil => rw [read?, hbroken]
  | cons c rest =>
    obtain ⟨hblank, hbreak, hsign⟩ := h.head
    have hends : endsWithGap margin false (.behind ['\n'] column) c rest = true := by
      unfold endsWithGap Gap.isEmpty
      rw [hbroken, decide_eq_true (show (Gap.behind ['\n'] column).column < margin from hcolumn)]
      simp
    rw [read?]
    simp only [hblank, hbreak, hends, hbroken, Bool.or_self, Bool.false_eq_true, if_false, if_true]

end Interpolation.Yaml.Plain
