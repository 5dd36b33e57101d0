import Interpolation.Proofs.Yaml.Scalar.Writer

/-! Only characters that can be shown are written, whatever the text that is written. Such text is
read as it is: none of its characters is refused, and none is taken for another line end. -/

namespace Interpolation.Yaml

def Shown (text : List Char) : Prop :=
  ∀ c ∈ text, Double.isPrintable c = true

namespace Shown

variable {c : Char} {s t : List Char}

theorem nil : Shown [] := by
  intro c hc
  cases hc

theorem cons (hc : Double.isPrintable c = true) (h : Shown t) : Shown (c :: t) :=
  List.forall_mem_cons.mpr ⟨hc, h⟩

theorem append (hs : Shown s) (ht : Shown t) : Shown (s ++ t) := by
  intro c hc
  rcases List.mem_append.mp hc with hc | hc
  · exact hs c hc
  · exact ht c hc

theorem spaces (n : Nat) : Shown (List.replicate n ' ') := by
  intro c hc
  rw [List.eq_of_mem_replicate hc]
  rfl

theorem tail (h : Shown (c :: t)) : Shown t :=
  fun d hd => h d (List.mem_cons_of_mem c hd)

end Shown

theorem isReadable_of_isPrintable {c : Char} (h : Double.isPrintable c = true) :
    isReadable c = true := by
  simp only [Double.isPrintable, Bool.or_eq_true, Bool.and_eq_true, decide_eq_true_eq, beq_iff_eq,
    bne_iff_ne] at h
  simp only [isReadable, Bool.or_eq_true, Bool.and_eq_true, decide_eq_true_eq, beq_iff_eq]
  omega

theorem normalizeBreaks_of_shown {text : List Char} (h : Shown text) :
    normalizeBreaks text = text := by
  induction text with
  | nil => rfl
  | cons c text ih =>
    have hc := h c List.mem_cons_self
    have hreturn : c ≠ '\r' := by
      rintro rfl
      cases hc
    have hnext : c ≠ '\x85' := by
      rintro rfl
      cases hc
    unfold normalizeBreaks
    split
    · rename_i heq
      cases heq
    · rename_i heq
      exact absurd (List.cons.inj heq).1 hreturn
    · rename_i heq
      exact absurd (List.cons.inj heq).1 hreturn
    · rename_i heq
      exact absurd (List.cons.inj heq).1 hnext
    · rename_i heq
      obtain ⟨rfl, rfl⟩ := List.cons.inj heq
      rw [ih h.tail]

theorem source?_of_shown {text : List Char} (h : Shown text) : source? text = some text := by
  have hmark {rest : List Char} : text ≠ '\ufeff' :: rest := by
    rintro rfl
    exact absurd (h '\ufeff' List.mem_cons_self) (by decide)
  have hreadable : text.all isReadable = true :=
    List.all_eq_true.mpr fun c hc => isReadable_of_isPrintable (h c hc)
  unfold source?
  split
  · exact absurd rfl hmark
  · exact absurd rfl hmark
  · dsimp only
    rw [if_pos hreadable, normalizeBreaks_of_shown h]

namespace Double

theorem isPrintable_hexDigit : ∀ d < 16, isPrintable (Nat.digitChar d).toUpper = true := by
  decide

theorem shown_hexDigits (count n : Nat) : Shown (hexDigits count n) := by
  induction count generalizing n with
  | zero => exact Shown.nil
  | succ count ih =>
    have hlast := isPrintable_hexDigit (n % 16) (Nat.mod_lt n (by omega))
    unfold hexDigits
    rw [Text.toDigits, List.map_append, List.map_singleton]
    exact (ih (n / 16)).append (Shown.nil.cons hlast)

theorem shown_escape (c : Char) : Shown (escape c) := by
  unfold escape
  split
  case h_16 =>
    split
    · exact ((shown_hexDigits _ _).cons rfl).cons rfl
    · split
      · exact ((shown_hexDigits _ _).cons rfl).cons rfl
      · exact ((shown_hexDigits _ _).cons rfl).cons rfl
  all_goals exact (Shown.nil.cons rfl).cons rfl

theorem shown_write (text : List Char) : Shown (write text) := by
  unfold write
  apply Shown.append _ (Shown.nil.cons rfl)
  apply Shown.cons rfl
  intro d hd
  obtain ⟨c, -, hc⟩ := List.mem_flatMap.mp hd
  rcases writeChar_cases c with hwrite | ⟨hwrite, hprintable, -⟩
  · rw [hwrite] at hc
    exact shown_escape c d hc
  · rw [hwrite] at hc
    rw [List.mem_singleton.mp hc]
    exact hprintable

end Double

namespace Single

theorem shown_writeChars {indent : Nat} {broken : Bool} {text : List Char} (h : Shown text) :
    Shown (writeChars indent broken text) := by
  induction text generalizing broken with
  | nil => exact Shown.nil
  | cons c text ih =>
    have hbody : Shown (if c = '\'' then ['\'', '\''] else [c]) := by
      split
      · exact (Shown.nil.cons rfl).cons rfl
      · exact Shown.nil.cons (h c List.mem_cons_self)
    have hindent : Shown (if broken then List.replicate indent ' ' else []) := by
      split
      · exact Shown.spaces indent
      · exact Shown.nil
    unfold writeChars
    dsimp only
    split
    · exact hbody.append (ih h.tail)
    · exact (hindent.append hbody).append (ih h.tail)

theorem shown_write {indent : Nat} {text : List Char} (h : Shown text) :
    Shown (write indent text) := by
  have hlast : Shown (if text.getLast?.any isBreak then List.replicate indent ' ' else []) := by
    split
    · exact Shown.spaces indent
    · exact Shown.nil
  exact (((shown_writeChars h).cons rfl).append hlast).append (Shown.nil.cons rfl)

end Single

namespace Block

theorem shown_writeLines {indent : Nat} {lineStart : Bool} {text : List Char} (h : Shown text) :
    Shown (writeLines indent lineStart text) := by
  induction text generalizing lineStart with
  | nil => exact Shown.nil
  | cons c text ih =>
    have hc := h c List.mem_cons_self
    have hindent : Shown (if lineStart then List.replicate indent ' ' else []) := by
      split
      · exact Shown.spaces indent
      · exact Shown.nil
    unfold writeLines
    split
    · exact (ih h.tail).cons hc
    · exact hindent.append ((ih h.tail).cons hc)

theorem shown_write {indent : Nat} {text : List Char} (h : Shown text) :
    Shown (write indent text) := by
  have hheader : Shown (writeHeader text) := by
    unfold writeHeader
    cases needsHint text with
    | true =>
      cases chompingOf text with
      | strip => exact ((Shown.nil.cons rfl).cons rfl).cons rfl
      | clip => exact (Shown.nil.cons rfl).cons rfl
      | keep => exact ((Shown.nil.cons rfl).cons rfl).cons rfl
    | false =>
      cases chompingOf text with
      | strip => exact (Shown.nil.cons rfl).cons rfl
      | clip => exact Shown.nil.cons rfl
      | keep => exact (Shown.nil.cons rfl).cons rfl
  exact hheader.append ((shown_writeLines h).cons rfl)

end Block

theorem Scalar.shown_write (indent : Nat) (text : String) : Shown (Scalar.write indent text) := by
  have hwritten := written_style text
  unfold Scalar.write
  cases hstyle : style text with
  | plain =>
    rw [hstyle] at hwritten
    cases hwritten with
    | plain hstanding => exact hstanding.printable
  | single =>
    rw [hstyle] at hwritten
    cases hwritten with
    | single hquotable => exact Single.shown_write hquotable.printable
  | double => exact Double.shown_write text.toList
  | literal =>
    rw [hstyle] at hwritten
    cases hwritten with
    | literal hfeed hprintable => exact Block.shown_write hprintable
  | folded => exact Double.shown_write text.toList

end Interpolation.Yaml
