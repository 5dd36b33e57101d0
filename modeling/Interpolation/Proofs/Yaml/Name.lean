import Interpolation.Proofs.Name
import Interpolation.Proofs.Yaml.Token

/-! A name is written plainly, or in single quotes where plain it would be a number, a truth value
or nothing. In either case it stays on one line. -/

namespace Interpolation

def hiddenCodes : List Nat :=
  List.range 0x20 ++ List.range' 0x7f 0x21 ++ [0xfeff, 0xfffe, 0xffff]

theorem not_mem_hiddenCodes {c : Char} (h : isNameLetter c = true) : c.toNat ∉ hiddenCodes := by
  intro hmem
  have hcodes : ∀ n ∈ hiddenCodes,
      n < 0x10000 ∧ Text.inRanges n Text.basicAlphanumerics = false ∧ n ≠ '_'.toNat := by
    decide +kernel
  obtain ⟨hlt, hranges, hne⟩ := hcodes _ hmem
  rw [isNameLetter_eq_false hlt hranges hne] at h
  cases h

namespace Yaml

theorem isPrintable_of_isNameLetter {c : Char} (h : isNameLetter c = true) :
    Double.isPrintable c = true := by
  have hmem := not_mem_hiddenCodes h
  simp only [hiddenCodes, List.mem_append, List.mem_range, List.mem_range'_1, List.mem_cons,
    List.not_mem_nil, or_false] at hmem
  simp only [Double.isPrintable, Bool.or_eq_true, Bool.and_eq_true, decide_eq_true_eq, beq_iff_eq,
    bne_iff_ne]
  omega

theorem isBreak_of_isNameLetter {c : Char} (h : isNameLetter c = true) : isBreak c = false := by
  have hblank := isBlank_of_isNameLetter h
  apply isBreak_eq_false
  · rintro rfl
    cases hblank
  · rintro rfl
    cases hblank
  · rintro rfl
    cases hblank

theorem length_le_utf8ByteSize (text : List Char) :
    text.length ≤ (String.ofList text).utf8ByteSize := by
  induction text with
  | nil => exact Nat.zero_le _
  | cons c text ih =>
    rw [String.ofList_cons, String.utf8ByteSize_append]
    have hc : 0 < (String.singleton c).utf8ByteSize := by
      simp [Char.utf8Size_pos]
    rw [List.length_cons]
    omega

/-- A character that means nothing wherever it stands, except perhaps in front. -/
structure IsSafe (c : Char) : Prop where
  printable : Double.isPrintable c = true
  oneLine : isBreak c = false
  space : c ≠ ' '
  colon : c ≠ ':'
  sign : c ≠ '#'

def IsSafeText (text : List Char) : Prop :=
  ∀ c ∈ text, IsSafe c

variable {text : List Char}

theorem IsSafeText.hasIndicator (h : IsSafeText text) : Scalar.hasIndicator text = false := by
  induction text with
  | nil => rfl
  | cons a text ih =>
    cases text with
    | nil => rfl
    | cons c text =>
      have hc := h c (List.mem_cons_of_mem a List.mem_cons_self)
      have hrest := ih fun d hd => h d (List.mem_cons_of_mem a hd)
      unfold Scalar.hasIndicator
      rw [hrest, beq_eq_false_iff_ne.mpr hc.colon, beq_eq_false_iff_ne.mpr hc.sign]
      rfl

theorem IsSafeText.anyNeighbours {p : Char → Char → Bool} (h : IsSafeText text)
    (hp : ∀ a b, IsSafe a → IsSafe b → p a b = false) : Scalar.anyNeighbours p text = false := by
  induction text with
  | nil => rfl
  | cons a text ih =>
    cases text with
    | nil => rfl
    | cons b text =>
      have ha := h a List.mem_cons_self
      have hb := h b (List.mem_cons_of_mem a List.mem_cons_self)
      have hrest := ih fun d hd => h d (List.mem_cons_of_mem a hd)
      unfold Scalar.anyNeighbours
      rw [hp a b ha hb, hrest]
      rfl

theorem IsSafeText.standing (h : IsSafeText text) (hne : text ≠ [])
    (hbegins : Scalar.beginsWithIndicator text = false) : Plain.Standing text := by
  refine ⟨hne, fun c hc => (h c hc).printable, fun c hc => (h c hc).oneLine, ?_, ?_, hbegins,
    h.hasIndicator⟩
  · intro hhead
    exact (h ' ' (List.mem_of_head? hhead)).space rfl
  · intro hlast
    exact (h ' ' (List.mem_of_getLast? hlast)).space rfl

theorem IsSafeText.allowsSingle (h : IsSafeText text) : Scalar.allowsSingle text = true := by
  have hprintable : text.any (!Double.isPrintable ·) = false := by
    rw [List.any_eq_false]
    intro c hc
    simp [(h c hc).printable]
  have hbefore : Scalar.anyNeighbours (fun a b => a == ' ' && isBreak b) text = false :=
    h.anyNeighbours fun a b ha _ => by rw [beq_eq_false_iff_ne.mpr ha.space, Bool.false_and]
  have hbehind : Scalar.anyNeighbours (fun a b => isBreak a && b == ' ') text = false :=
    h.anyNeighbours fun a b ha _ => by rw [ha.oneLine, Bool.false_and]
  unfold Scalar.allowsSingle Scalar.needsEscapes
  rw [hprintable, hbefore, hbehind]
  rfl

theorem isSafe_of_isNameLetter {c : Char} (h : isNameLetter c = true) : IsSafe c where
  printable := isPrintable_of_isNameLetter h
  oneLine := isBreak_of_isNameLetter h
  space := ne_of_isNameLetter h (isNameLetter_of_isBlank rfl)
  colon := ne_of_isNameLetter h (by decide +kernel)
  sign := ne_of_isNameLetter h (by decide +kernel)

theorem isSafeText_of_isName {name : String} (h : isName name = true) : IsSafeText name.toList :=
  fun c hc => isSafe_of_isNameLetter ((isName_iff.mp h).2 c hc)

theorem style_of_safe {name : String} (h : IsSafeText name.toList) :
    Scalar.style name = .plain ∨ Scalar.style name = .single := by
  have hfeed : name.toList.contains '\n' = false := by
    rw [← Bool.not_eq_true, List.contains_iff_mem]
    intro hmem
    have hbreak := (h '\n' hmem).oneLine
    cases hbreak
  unfold Scalar.style
  simp only [hfeed, h.allowsSingle, Bool.false_eq_true, if_false, if_true]
  split
  · exact Or.inl rfl
  · exact Or.inr rfl

/-- In single quotes a line stays a line, with at most two characters for one. -/
theorem Single.write_of_oneLine (indent : Nat) (h : ∀ c ∈ text, isBreak c = false) :
    (∀ c ∈ Single.writeChars indent false text, isBreak c = false) ∧
      (Single.writeChars indent false text).length ≤ 2 * text.length := by
  induction text with
  | nil => exact ⟨by simp [Single.writeChars], Nat.le_refl _⟩
  | cons c text ih =>
    have hc := h c List.mem_cons_self
    obtain ⟨honeLine, hlength⟩ := ih fun d hd => h d (List.mem_cons_of_mem c hd)
    rw [Single.writeChars_letter hc, if_neg Bool.false_ne_true, List.nil_append]
    by_cases hquote : c = '\''
    · rw [if_pos hquote]
      constructor
      · intro d hd
        rcases List.mem_append.mp hd with hd | hd
        · have heq : d = '\'' := by simpa using hd
          rw [heq]
          rfl
        · exact honeLine d hd
      · simp only [List.length_append, List.length_cons, List.length_nil]
        omega
    · rw [if_neg hquote]
      constructor
      · intro d hd
        rcases List.mem_append.mp hd with hd | hd
        · rw [List.mem_singleton.mp hd]
          exact hc
        · exact honeLine d hd
      · simp only [List.length_append, List.length_cons, List.length_nil]
        omega

theorem write_of_safe (indent : Nat) {name : String} (h : IsSafeText name.toList) :
    (∀ c ∈ Scalar.write indent name, isBreak c = false) ∧
      (Scalar.write indent name).length ≤ 2 * name.toList.length + 2 := by
  have honeLine : ∀ c ∈ name.toList, isBreak c = false := fun c hc => (h c hc).oneLine
  unfold Scalar.write
  -- Such a text is plain, or it stands in single quotes and has two characters more.
  rcases style_of_safe h with hstyle | hstyle
  · rw [hstyle]
    refine ⟨honeLine, ?_⟩
    dsimp only
    omega
  · rw [hstyle]
    obtain ⟨hchars, hlength⟩ := Single.write_of_oneLine indent honeLine
    have hlast : name.toList.getLast?.any isBreak = false := by
      cases hlast : name.toList.getLast? with
      | none => rfl
      | some c => exact honeLine c (List.mem_of_getLast? hlast)
    have hwrite : Single.write indent name.toList =
        '\'' :: Single.writeChars indent false name.toList ++ ['\''] := by
      unfold Single.write
      rw [hlast]
      simp
    dsimp only
    rw [hwrite]
    constructor
    · intro c hc
      rcases List.mem_append.mp hc with hc | hc
      · rcases List.mem_cons.mp hc with rfl | hc
        · rfl
        · exact hchars c hc
      · rw [List.mem_singleton.mp hc]
        rfl
    · simp only [List.length_append, List.length_cons, List.length_nil]
      omega

end Yaml

end Interpolation
