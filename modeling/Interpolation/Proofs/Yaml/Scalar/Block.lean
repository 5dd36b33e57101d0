import Interpolation.Proofs.Yaml.Gap
import Interpolation.Yaml.Scalar.Block

/-! A text is cut into a body, which ends with a character that is no break, and the breaks behind
it. The body is read line by line whatever the chomping is; the breaks behind it are what the
chomping has been chosen for. -/

namespace Interpolation.Yaml.Block

variable {chomping : Chomping} {indent column : Nat} {lines : Lines} {c : Char} {rest : List Char}

def literal (chomping : Chomping) (indent : Nat) : Style :=
  ⟨false, chomping, indent⟩

theorem lines?_inside (hc : isBreak c = false) :
    lines? (literal chomping indent) lines none (c :: rest) =
      (lines? (literal chomping indent) lines none rest).map fun (content, rest) =>
        (c :: content, rest) := by
  rw [lines?]
  simp only [hc, Bool.false_eq_true, if_false]

theorem lines?_end (hc : isBreak c = true) :
    lines? (literal chomping indent) lines none (c :: rest) =
      lines? (literal chomping indent) ⟨[c], [], lines.blank⟩ (some 0) rest := by
  rw [lines?]
  simp only [hc, if_true]

theorem lines?_empty (hc : isBreak c = true) :
    lines? (literal chomping indent) lines (some column) (c :: rest) =
      lines? (literal chomping indent) ⟨lines.lastBreak, lines.emptyLines ++ [c], lines.blank⟩
        (some 0) rest := by
  rw [lines?]
  simp only [hc, if_true]

theorem lines?_spaces (k : Nat) (h : column + k ≤ indent) (rest : List Char) :
    lines? (literal chomping indent) lines (some column) (List.replicate k ' ' ++ rest) =
      lines? (literal chomping indent) lines (some (column + k)) rest := by
  induction k generalizing column with
  | zero => rfl
  | succ k ih =>
    have hlt : column < (literal chomping indent).indent := by
      unfold literal
      dsimp only
      omega
    have hbreak : isBreak ' ' = false := rfl
    have hsum : column + 1 + k = column + (k + 1) := by omega
    have hrec := @ih (column + 1) (by omega)
    rw [hsum] at hrec
    rw [List.replicate_succ, List.cons_append, lines?]
    simp only [hbreak, hlt, Bool.false_eq_true, if_false, if_true]
    exact hrec

theorem lines?_first (hc : isBreak c = false) :
    lines? (literal chomping indent) lines (some indent) (c :: rest) =
      (lines? (literal chomping indent) ⟨[], [], isBlank c⟩ none rest).map fun (content, rest) =>
        (lines.lastBreak ++ lines.emptyLines ++ c :: content, rest) := by
  have hlt : ¬ indent < (literal chomping indent).indent := Nat.lt_irrefl indent
  have heq : indent = (literal chomping indent).indent := rfl
  have hjoin : lines.join (literal chomping indent).folded c =
      lines.lastBreak ++ lines.emptyLines := rfl
  rw [lines?]
  simp only [hc, hlt, Bool.false_eq_true, if_false]
  rw [if_pos heq, hjoin]

theorem lines?_leave (hcolumn : column < indent) (h : BeginsToken rest) :
    lines? (literal chomping indent) lines (some 0) (List.replicate column ' ' ++ rest) =
      some (lines.chomp chomping, rest) := by
  rw [lines?_spaces column (by omega), Nat.zero_add]
  cases rest with
  | nil => rfl
  | cons c rest =>
    obtain ⟨hblank, hbreak, -⟩ := h.head
    have hlt : column < (literal chomping indent).indent := hcolumn
    have hspace : c ≠ ' ' := by
      rintro rfl
      exact Bool.noConfusion hblank
    have htab : c ≠ '\t' := by
      rintro rfl
      exact Bool.noConfusion hblank
    rw [lines?]
    simp only [hbreak, hlt, hspace, htab, Bool.false_eq_true, if_false, if_true]
    rfl

theorem writeLines_break (hc : isBreak c = true) (lineStart : Bool) (rest : List Char) :
    writeLines indent lineStart (c :: rest) = c :: writeLines indent true rest := by
  rw [writeLines, if_pos hc]

theorem writeLines_inside (hc : isBreak c = false) (rest : List Char) :
    writeLines indent false (c :: rest) = c :: writeLines indent false rest := by
  rw [writeLines, if_neg (by simp [hc])]
  rfl

theorem writeLines_first (hc : isBreak c = false) (rest : List Char) :
    writeLines indent true (c :: rest) =
      List.replicate indent ' ' ++ c :: writeLines indent false rest := by
  rw [writeLines, if_neg (by simp [hc])]
  rfl

def EndsInside (text : List Char) : Prop :=
  text.getLast?.any isBreak = false

theorem EndsInside.tail {text : List Char} (h : EndsInside (c :: text)) : EndsInside text := by
  unfold EndsInside at h ⊢
  rw [List.getLast?_cons] at h
  cases hlast : text.getLast? with
  | none => rfl
  | some d =>
    rw [hlast] at h
    exact h

theorem EndsInside.ne_nil {text : List Char} (h : EndsInside (c :: text)) (hc : isBreak c = true) :
    text ≠ [] := by
  rintro rfl
  exact Bool.noConfusion (hc.symm.trans h)

/-- A body is read from within a line and, with the breaks in front of it, from the start of one. -/
theorem lines?_body {body : List Char} (hbody : EndsInside body) (tail : List Char) :
    (∀ blank, ∃ blank', lines? (literal chomping indent) ⟨[], [], blank⟩ none
        (writeLines indent false body ++ tail) =
      (lines? (literal chomping indent) ⟨[], [], blank'⟩ none tail).map fun (content, rest) =>
        (body ++ content, rest)) ∧
    (body ≠ [] → ∀ lines, ∃ blank', lines? (literal chomping indent) lines (some 0)
        (writeLines indent true body ++ tail) =
      (lines? (literal chomping indent) ⟨[], [], blank'⟩ none tail).map fun (content, rest) =>
        (lines.lastBreak ++ lines.emptyLines ++ body ++ content, rest)) := by
  induction body with
  | nil =>
    refine ⟨fun blank => ⟨blank, ?_⟩, fun hne => absurd rfl hne⟩
    exact Option.map_id'.symm ▸ rfl
  | cons c body ih =>
    obtain ⟨inside, start⟩ := ih hbody.tail
    -- Behind a break the next line is read from its start, with the break still to be joined.
    cases hc : isBreak c with
    | true =>
      have hne := hbody.ne_nil hc
      constructor
      · intro blank
        obtain ⟨blank', h⟩ := start hne ⟨[c], [], blank⟩
        refine ⟨blank', ?_⟩
        rw [writeLines_break hc, List.cons_append, lines?_end hc, h]
        rfl
      · intro _ lines
        obtain ⟨blank', h⟩ := start hne ⟨lines.lastBreak, lines.emptyLines ++ [c], lines.blank⟩
        refine ⟨blank', ?_⟩
        rw [writeLines_break hc, List.cons_append, lines?_empty hc, h]
        simp only [List.append_assoc, List.nil_append, List.cons_append]
    | false =>
      constructor
      · intro blank
        obtain ⟨blank', h⟩ := inside blank
        refine ⟨blank', ?_⟩
        rw [writeLines_inside hc, List.cons_append, lines?_inside hc, h, Option.map_map]
        rfl
      · intro _ lines
        obtain ⟨blank', h⟩ := inside (isBlank c)
        refine ⟨blank', ?_⟩
        rw [writeLines_first hc, List.append_assoc, lines?_spaces indent (by omega), Nat.zero_add,
          List.cons_append, lines?_first hc, h, Option.map_map]
        simp only [List.append_assoc, Function.comp_def, List.cons_append]

theorem exists_body (text : List Char) : ∃ body breaks, text = body ++ breaks ∧ EndsInside body ∧
    ∀ c ∈ breaks, isBreak c = true := by
  induction text with
  | nil => exact ⟨[], [], rfl, rfl, by simp⟩
  | cons c text ih =>
    obtain ⟨body, breaks, rfl, hbody, hbreaks⟩ := ih
    cases body with
    | nil =>
      cases hc : isBreak c with
      | true => exact ⟨[], c :: breaks, rfl, rfl, List.forall_mem_cons.mpr ⟨hc, hbreaks⟩⟩
      | false => exact ⟨[c], breaks, rfl, hc, hbreaks⟩
    | cons d body =>
      refine ⟨c :: d :: body, breaks, rfl, ?_, hbreaks⟩
      unfold EndsInside at hbody ⊢
      rw [List.getLast?_cons, List.getLast?_cons] at *
      exact hbody

theorem writeLines_breaks {breaks : List Char} (h : ∀ c ∈ breaks, isBreak c = true)
    (lineStart : Bool) :
    writeLines indent lineStart breaks = breaks := by
  induction breaks generalizing lineStart with
  | nil => rfl
  | cons c breaks ih =>
    rw [writeLines_break (h c List.mem_cons_self), ih fun d hd => h d (List.mem_cons_of_mem c hd)]

theorem writeLines_append {breaks : List Char} (h : ∀ c ∈ breaks, isBreak c = true)
    (lineStart : Bool) (body : List Char) :
    writeLines indent lineStart (body ++ breaks) = writeLines indent lineStart body ++ breaks := by
  induction body generalizing lineStart with
  | nil => exact writeLines_breaks h lineStart
  | cons c body ih =>
    rw [List.cons_append, writeLines, writeLines, ih, ih]
    split
    · rfl
    · rw [List.append_assoc, List.cons_append]

theorem lines?_breaks {breaks : List Char} (h : ∀ c ∈ breaks, isBreak c = true) (tail : List Char) :
    lines? (literal chomping indent) lines (some 0) (breaks ++ tail) =
      lines? (literal chomping indent) ⟨lines.lastBreak, lines.emptyLines ++ breaks, lines.blank⟩
        (some 0) tail := by
  induction breaks generalizing lines with
  | nil => rw [List.append_nil, List.nil_append]
  | cons c breaks ih =>
    rw [List.cons_append, lines?_empty (h c List.mem_cons_self),
      ih fun d hd => h d (List.mem_cons_of_mem c hd), List.append_assoc]
    rfl

theorem chompingOf_of_endsInside {text : List Char} (h : EndsInside text) :
    chompingOf text = .strip := by
  unfold EndsInside at h
  rw [List.getLast?_eq_head?_reverse] at h
  unfold chompingOf
  split
  · rfl
  · rename_i c heq
    rw [heq] at h
    have hc : isBreak c = false := h
    simp only [hc, Bool.false_eq_true, if_false]
  · rename_i c d rest heq
    rw [heq] at h
    have hc : isBreak c = false := h
    simp only [hc, Bool.false_eq_true, if_false]

theorem chompingOf_two {text rest : List Char} {c d : Char} (h : text.reverse = c :: d :: rest)
    (hc : isBreak c = true) : chompingOf text = if isBreak d then .keep else .clip := by
  unfold chompingOf
  rw [h]
  simp only [hc, if_true]

theorem chompingOf_one (hc : isBreak c = true) : chompingOf [c] = .keep :=
  if_pos hc

/-- One break behind a body is clipped to, all other breaks are kept. -/
theorem chomp_chompingOf {body breaks : List Char} (hbody : EndsInside body)
    (hc : isBreak c = true) (hbreaks : ∀ d ∈ breaks, isBreak d = true) (blank : Bool) :
    (body ≠ [] → Lines.chomp ⟨[c], breaks, blank⟩ (chompingOf (body ++ c :: breaks)) =
      c :: breaks) ∧
      Lines.chomp ⟨[], c :: breaks, blank⟩ (chompingOf (c :: breaks)) = c :: breaks := by
  cases hlast : breaks.reverse with
  | nil =>
    obtain rfl := List.reverse_eq_nil_iff.mp hlast
    refine ⟨fun hne => ?_, ?_⟩
    · cases hreverse : body.reverse with
      | nil => exact absurd (List.reverse_eq_nil_iff.mp hreverse) hne
      | cons d rest =>
        have hd : isBreak d = false := by
          unfold EndsInside at hbody
          rw [List.getLast?_eq_head?_reverse, hreverse] at hbody
          exact hbody
        have htext : (body ++ [c]).reverse = c :: d :: rest := by
          rw [List.reverse_append, hreverse]
          rfl
        rw [chompingOf_two htext hc, hd]
        rfl
    · rw [chompingOf_one hc]
      rfl
  | cons d rest =>
    have hd : isBreak d = true := hbreaks d (List.mem_reverse.mp (hlast ▸ List.mem_cons_self))
    have hkeep : ∀ body : List Char, chompingOf (body ++ c :: breaks) = .keep := by
      intro body
      cases rest with
      | nil =>
        have htext : (body ++ c :: breaks).reverse = d :: c :: body.reverse := by
          simp [hlast]
        rw [chompingOf_two htext hd, hc]
        rfl
      | cons e rest =>
        have he : isBreak e = true :=
          hbreaks e (List.mem_reverse.mp (hlast ▸ List.mem_cons_of_mem d List.mem_cons_self))
        have htext : (body ++ c :: breaks).reverse = d :: e :: (rest ++ c :: body.reverse) := by
          simp [hlast]
        rw [chompingOf_two htext hd, he]
        rfl
    have hempty := hkeep []
    rw [List.nil_append] at hempty
    rw [hkeep body, hempty]
    exact ⟨fun _ => rfl, rfl⟩

def lineEnd (text : List Char) : List Char :=
  if text.getLast?.any isBreak then [] else ['\n']

theorem lineEnd_append {body breaks : List Char} (hbreaks : ∀ c ∈ breaks, isBreak c = true)
    (hne : breaks ≠ []) : lineEnd (body ++ breaks) = [] := by
  unfold lineEnd
  rw [List.getLast?_append, List.getLast?_eq_some_getLast hne]
  exact if_pos (hbreaks _ (List.getLast_mem hne))

theorem lineEnd_of_endsInside {text : List Char} (h : EndsInside text) : lineEnd text = ['\n'] := by
  unfold lineEnd
  rw [h]
  rfl

theorem lines?_writeLines {text : List Char} (hne : text ≠ []) (hcolumn : column < indent)
    (hrest : BeginsToken rest) :
    lines? (literal (chompingOf text) indent) ⟨[], [], false⟩ (some 0)
      (writeLines indent true text ++ (lineEnd text ++ (List.replicate column ' ' ++ rest))) =
        some (text, rest) := by
  obtain ⟨body, breaks, rfl, hbody, hbreaks⟩ := exists_body text
  rw [writeLines_append hbreaks, List.append_assoc]
  have hread := @lines?_body (chompingOf (body ++ breaks)) indent body hbody
    (breaks ++ (lineEnd (body ++ breaks) ++ (List.replicate column ' ' ++ rest)))
  cases breaks with
  | nil =>
    rw [List.append_nil] at hne hread ⊢
    rw [List.nil_append] at hread ⊢
    obtain ⟨blank, h⟩ := hread.2 hne ⟨[], [], false⟩
    rw [h, lineEnd_of_endsInside hbody, chompingOf_of_endsInside hbody, List.singleton_append,
      lines?_end rfl, lines?_leave hcolumn hrest]
    simp [Lines.chomp]
  | cons c breaks =>
    have hc := hbreaks c List.mem_cons_self
    have hmore := fun d hd => hbreaks d (List.mem_cons_of_mem c hd)
    rw [lineEnd_append hbreaks (List.cons_ne_nil c breaks), List.nil_append] at hread ⊢
    -- A text of breaks only has no line in which the last of them could be clipped.
    cases hnil : body with
    | nil =>
      have hchomp := (chomp_chompingOf hbody hc hmore false).2
      rw [writeLines, List.nil_append, List.nil_append, lines?_breaks hbreaks,
        lines?_leave hcolumn hrest]
      exact congrArg (fun content => some (content, rest)) hchomp
    | cons d rest' =>
      rw [← hnil]
      have hbodyNe : body ≠ [] := hnil ▸ List.cons_ne_nil d rest'
      obtain ⟨blank, h⟩ := hread.2 hbodyNe ⟨[], [], false⟩
      have hchomp := (chomp_chompingOf hbody hc hmore blank).1 hbodyNe
      rw [h, List.cons_append, lines?_end hc, lines?_breaks hmore, lines?_leave hcolumn hrest]
      exact congrArg (fun content => some (body ++ content, rest)) hchomp

theorem getLast?_writeLines (lineStart : Bool) (text : List Char) :
    (writeLines indent lineStart text).getLast? = text.getLast? := by
  induction text generalizing lineStart with
  | nil => rfl
  | cons c text ih =>
    unfold writeLines
    split
    · rw [List.getLast?_cons, List.getLast?_cons, ih]
    · rw [List.getLast?_append, List.getLast?_cons, List.getLast?_cons, ih]
      rfl

theorem getLast?_write {text : List Char} (hne : text ≠ []) :
    (write indent text).getLast? = text.getLast? := by
  unfold write
  rw [List.getLast?_append, List.getLast?_cons, getLast?_writeLines,
    List.getLast?_eq_some_getLast hne]
  rfl

theorem exists_break {text : List Char} (hne : text ≠ []) :
    ∃ front c, write indent text ++ lineEnd text = front ++ [c] ∧ isBreak c = true := by
  have hlast := @getLast?_write indent text hne
  rw [List.getLast?_eq_some_getLast hne] at hlast
  cases hbreak : isBreak (text.getLast hne) with
  | false =>
    have hinside : EndsInside text := by
      unfold EndsInside
      rw [List.getLast?_eq_some_getLast hne]
      exact hbreak
    exact ⟨write indent text, '\n', by rw [lineEnd_of_endsInside hinside], rfl⟩
  | true =>
    have hempty : lineEnd text = [] := by
      unfold lineEnd
      rw [List.getLast?_eq_some_getLast hne]
      exact if_pos hbreak
    obtain ⟨front, hfront⟩ := List.getLast?_eq_some_iff.mp hlast
    exact ⟨front, _, by rw [hempty, List.append_nil, hfront], hbreak⟩

theorem header?_writeHeader (text tail : List Char) :
    header? ((writeHeader text ++ '\n' :: tail).drop 1) =
    some (⟨chompingOf text, if needsHint text then some 2 else none⟩, '\n' :: tail) := by
  unfold writeHeader
  cases needsHint text with
  | true =>
    cases chompingOf text with
    | strip => rfl
    | clip => rfl
    | keep => rfl
  | false =>
    cases chompingOf text with
    | strip => rfl
    | clip => rfl
    | keep => rfl

theorem endLine?_feed (tail : List Char) : endLine? ('\n' :: tail) = some tail := rfl

theorem opening?_spaces (deepest k : Nat) (hc : isBlank c = false) (hbreak : isBreak c = false)
    (tail : List Char) : opening? [] column deepest (List.replicate k ' ' ++ c :: tail) =
      some ⟨[], column + k, max deepest (column + k), c :: tail⟩ := by
  induction k generalizing column with
  | zero =>
    have hspace : c ≠ ' ' := by
      rintro rfl
      exact Bool.noConfusion hc
    have htab : c ≠ '\t' := by
      rintro rfl
      exact Bool.noConfusion hc
    rw [List.replicate_zero, List.nil_append, opening?, if_neg hspace, if_neg htab, hbreak]
    rfl
  | succ k ih =>
    rw [List.replicate_succ, List.cons_append, opening?, if_pos rfl, ih]
    congr 2
    · omega
    · congr 1
      omega

theorem needsHint_eq_false {text : List Char} (hne : text ≠ [])
    (hprintable : ∀ c ∈ text, Double.isPrintable c = true) (h : needsHint text = false) :
    ∃ c tail, text = c :: tail ∧ isBlank c = false ∧ isBreak c = false := by
  obtain ⟨c, tail, rfl⟩ := List.exists_cons_of_ne_nil hne
  have hc : c ≠ ' ' ∧ isBreak c = false := by simpa [needsHint] using h
  exact ⟨c, tail, rfl, isBlank_eq_false (hprintable c List.mem_cons_self) hc.1, hc.2⟩

theorem read?_write {text : List Char} {parent : Nat} (hne : text ≠ [])
    (hprintable : ∀ c ∈ text, Double.isPrintable c = true) (hcolumn : column ≤ parent)
    (hrest : BeginsToken rest) :
    read? false (some parent) ((write (parent + 2) text ++
      (lineEnd text ++ (List.replicate column ' ' ++ rest))).drop 1) = some (text, rest) := by
  have hlines := @lines?_writeLines (parent + 2) column rest text hne (by omega) hrest
  unfold write
  rw [List.append_assoc, List.cons_append]
  unfold read?
  rw [header?_writeHeader]
  simp only [bind, Option.bind_some, endLine?_feed]
  cases hhint : needsHint text with
  | true => exact hlines
  | false =>
    obtain ⟨c, tail, rfl, hblank, hbreak⟩ := needsHint_eq_false hne hprintable hhint
    rw [writeLines_first hbreak, List.append_assoc, List.cons_append] at hlines ⊢
    rw [lines?_spaces (parent + 2) (Nat.le_of_eq (Nat.zero_add _)), Nat.zero_add] at hlines
    have hindent : max (max 0 (parent + 2)) (max (parent + 1) 1) = parent + 2 := by omega
    simp only [Bool.false_eq_true, if_false, opening?_spaces 0 (parent + 2) hblank hbreak,
      Option.bind_some, Option.elim_some, Nat.zero_add, hindent]
    exact hlines

end Interpolation.Yaml.Block
