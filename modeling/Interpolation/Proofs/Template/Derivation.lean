import Interpolation.Proofs.Template.Fault

/-! A text has at most one derivation: the words of the grammar are kept apart by their first
characters, and within a placeholder blanks, name letters and marks by their classes. Parts and
items determine each other, so a template is read exactly from the texts that derive its items. -/

namespace Interpolation.Template

/-- Two runs of a class, neither of which goes on behind its end. -/
theorem append_inj_of_all {p : Char → Bool} {a b r s : List Char}
    (ha : ∀ c ∈ a, p c = true) (hb : ∀ c ∈ b, p c = true)
    (hr : ∀ c, r.head? = some c → p c = false) (hs : ∀ c, s.head? = some c → p c = false)
    (h : a ++ r = b ++ s) : a = b ∧ r = s := by
  induction a generalizing b with
  | nil =>
    cases b with
    | nil => exact ⟨rfl, h⟩
    | cons d b =>
      rw [List.nil_append] at h
      subst h
      exact Bool.noConfusion ((hr d rfl).symm.trans (hb d List.mem_cons_self))
  | cons c a ih =>
    cases b with
    | nil =>
      rw [List.nil_append] at h
      subst h
      exact Bool.noConfusion ((hs c rfl).symm.trans (ha c List.mem_cons_self))
    | cons d b =>
      obtain ⟨rfl, htail⟩ : c = d ∧ a ++ r = b ++ s := by simpa using h
      obtain ⟨rfl, hrs⟩ := ih (fun e he => ha e (List.mem_cons_of_mem c he))
        (fun e he => hb e (List.mem_cons_of_mem c he)) htail
      exact ⟨rfl, hrs⟩

theorem closing_inj {after after' rest rest' : List Char}
    (hafter : ∀ c ∈ after, Text.isBlank c = true) (hafter' : ∀ c ∈ after', Text.isBlank c = true)
    (h : after ++ '}' :: rest = after' ++ '}' :: rest') : after = after' ∧ rest = rest' := by
  have hbrace : Text.isBlank '}' = false := by decide
  obtain ⟨rfl, hrest⟩ := append_inj_of_all hafter hafter' (by simp [hbrace]) (by simp [hbrace]) h
  exact ⟨rfl, (List.cons.inj hrest).2⟩

/-- A reference is told by its spelling where no letter follows that would prolong its name. -/
theorem reference_inj {reference reference' : Reference} {rest rest' : List Char}
    (hreference : reference.IsSpellable) (hreference' : reference'.IsSpellable)
    (hrest : reference ≠ .default → ∀ c, rest.head? = some c → isNameLetter c = false)
    (hrest' : reference' ≠ .default → ∀ c, rest'.head? = some c → isNameLetter c = false)
    (h : reference.spelling ++ rest = reference'.spelling ++ rest') :
    reference = reference' ∧ rest = rest' := by
  cases reference with
  | default =>
    cases reference' with
    | default => exact ⟨rfl, (List.cons.inj h).2⟩
    | named name' => exact absurd (List.cons.inj h).1 (by decide)
  | named name =>
    cases reference' with
    | default => exact absurd (List.cons.inj h).1 (by decide)
    | named name' =>
      have hname := (isName_iff.mp (hreference name rfl)).2
      have hname' := (isName_iff.mp (hreference' name' rfl)).2
      have htail : name.toList ++ rest = name'.toList ++ rest' := (List.cons.inj h).2
      obtain ⟨hsame, htail⟩ :=
        append_inj_of_all hname hname' (hrest (by simp)) (hrest' (by simp)) htail
      exact ⟨congrArg Reference.named (String.toList_inj.mp hsame), htail⟩

theorem head?_placeholder_ne {before : List Char} (reference : Reference) (rest : List Char)
    (hbefore : ∀ c ∈ before, Text.isBlank c = true) :
    (before ++ (reference.spelling ++ rest)).head? ≠ some '{' := by
  cases before with
  | nil =>
    obtain ⟨mark, letters, hspelling, -, hmark⟩ := reference.exists_spelling_eq_cons
    simp [hspelling, hmark]
  | cons c before =>
    intro h
    obtain rfl : c = '{' := by simpa using h
    exact absurd (hbefore '{' List.mem_cons_self) (by decide)

theorem Word.placeholder_text_append (before : List Char) (reference : Reference)
    (after rest : List Char) : (placeholder before reference after).text ++ rest =
      '{' :: (before ++ (reference.spelling ++ (after ++ '}' :: rest))) := by
  simp [text]

/-- No valid word is the beginning of another. -/
theorem Word.text_append_inj {word word' : Word} {rest rest' : List Char} (valid : word.IsValid)
    (valid' : word'.IsValid) (h : word.text ++ rest = word'.text ++ rest') :
    word = word' ∧ rest = rest' := by
  -- The first character tells the kind of a word, but for a doubled brace and a placeholder.
  cases valid with
  | openingBrace =>
    cases valid' with
    | openingBrace => exact ⟨rfl, List.append_cancel_left h⟩
    | closingBrace => exact absurd (List.cons.inj h).1 (by decide)
    | character hopen _ => exact absurd (List.cons.inj h).1.symm hopen
    | @placeholder before after reference hbefore _ _ =>
      rw [placeholder_text_append] at h
      refine absurd ?_ (head?_placeholder_ne reference (after ++ '}' :: rest') hbefore)
      rw [← (List.cons.inj h).2]
      rfl
  | closingBrace =>
    cases valid' with
    | openingBrace => exact absurd (List.cons.inj h).1 (by decide)
    | closingBrace => exact ⟨rfl, List.append_cancel_left h⟩
    | character _ hclose => exact absurd (List.cons.inj h).1.symm hclose
    | placeholder _ _ _ =>
      rw [placeholder_text_append] at h
      exact absurd (List.cons.inj h).1 (by decide)
  | character hopen hclose =>
    cases valid' with
    | openingBrace => exact absurd (List.cons.inj h).1 hopen
    | closingBrace => exact absurd (List.cons.inj h).1 hclose
    | character _ _ => exact ⟨congrArg Word.character (List.cons.inj h).1, (List.cons.inj h).2⟩
    | placeholder _ _ _ =>
      rw [placeholder_text_append] at h
      exact absurd (List.cons.inj h).1 hopen
  | @placeholder before after reference hbefore hreference hafter =>
    rw [placeholder_text_append] at h
    cases valid' with
    | openingBrace =>
      refine absurd ?_ (head?_placeholder_ne reference (after ++ '}' :: rest) hbefore)
      rw [(List.cons.inj h).2]
      rfl
    | closingBrace => exact absurd (List.cons.inj h).1 (by decide)
    | character hopen _ => exact absurd (List.cons.inj h).1.symm hopen
    | placeholder hbefore' hreference' hafter' =>
      rw [placeholder_text_append] at h
      obtain ⟨rfl, hrest⟩ := append_inj_of_all hbefore hbefore' (isBlank_head?_spelling _ _)
        (isBlank_head?_spelling _ _) (List.cons.inj h).2
      obtain ⟨rfl, hclosing⟩ := reference_inj hreference hreference'
        (fun _ => isNameLetter_head?_closing rest hafter)
        (fun _ => isNameLetter_head?_closing rest' hafter') hrest
      obtain ⟨rfl, rfl⟩ := closing_inj hafter hafter' hclosing
      exact ⟨rfl, rfl⟩

theorem Word.text_ne_nil (word : Word) : word.text ≠ [] := by
  cases word <;> simp [text]

namespace Derives

theorem append {words others : List Word} {text more : List Char}
    (derives : Derives words text) (other : Derives others more) :
    Derives (words ++ others) (text ++ more) := by
  induction derives with
  | nil => exact other
  | cons valid _ ih =>
    rw [List.append_assoc]
    exact .cons valid ih

theorem single {word : Word} (valid : word.IsValid) : Derives [word] word.text := by
  have h := Derives.cons valid .nil
  rwa [List.append_nil] at h

theorem words_unique {words others : List Word} {text : List Char} (derives : Derives words text)
    (other : Derives others text) : words = others := by
  induction derives generalizing others with
  | nil =>
    generalize htext : ([] : List Char) = text at other
    cases other with
    | nil => rfl
    | @cons word _ _ _ _ => exact absurd (List.append_eq_nil_iff.mp htext.symm).1 word.text_ne_nil
  | @cons word words rest valid _ ih =>
    generalize htext : word.text ++ rest = text at other
    cases other with
    | nil => exact absurd (List.append_eq_nil_iff.mp htext).1 word.text_ne_nil
    | cons valid' tail =>
      obtain ⟨rfl, rfl⟩ := Word.text_append_inj valid valid' htext
      rw [ih tail]

end Derives

theorem items_eq_run (scope : Scope) (text : List Char) :
    items scope text = State.run scope .start text := rfl

theorem items_of_derives {scope : Scope} {words : List Word} {text : List Char}
    (derives : Derives words text) :
    items scope text = (scope.checkWords .start words).map fun _ => Word.items .start words := by
  rw [items_eq_run, State.start, ← List.append_nil text, State.run_words derives]
  cases scope.checkWords .start words with
  | error e => rfl
  | ok _ =>
    change Except.ok ((Word.items .start words).reverse ++ []).reverse = _
    rw [List.append_nil, List.reverse_reverse]
    rfl

theorem items_of_fault {scope : Scope} {words : List Word} {front : List Char} {fault : Fault}
    (derives : Derives words front) (valid : fault.IsValid) :
    items scope (front ++ fault.text) = (scope.checkWords .start words).bind fun _ =>
      (scope.check (Position.start.after front) fault.name?).bind fun _ =>
        .error (fault.error (.after .start front)) := by
  rw [items_eq_run, State.start, State.run_words derives]
  cases scope.checkWords .start words with
  | error e => rfl
  | ok _ => exact State.run_fault valid

theorem join_characters (run chars : List Char) (rest : List Item) :
    join run (chars.map .character ++ rest) = join (chars.reverse ++ run) rest := by
  induction chars generalizing run with
  | nil => rfl
  | cons c chars ih => simpa [join] using ih (c :: run)

theorem literal_flatMap_items (run : List Char) :
    (literal run).flatMap Part.items = run.map .character := by
  cases run with
  | nil => rfl
  | cons c run => simp [literal, Part.items]

theorem join_flatMap_items (run : List Char) (items : List Item) :
    (join run items).flatMap Part.items = run.reverse.map .character ++ items := by
  induction items generalizing run with
  | nil => simp [join, literal_flatMap_items]
  | cons item items ih =>
    cases item with
    | character c => simp [join, ih]
    | placeholder p => simp [join, literal_flatMap_items, Part.items, ih]

theorem isJoined_literal_append {run : List Char} {p : Placeholder} {parts : List Part}
    (tail : IsJoined parts) : IsJoined (literal run ++ .placeholder p :: parts) := by
  cases run with
  | nil => exact .placeholder tail
  | cons c run => exact .literalPlaceholder (by simp) tail

theorem isJoined_join (run : List Char) (items : List Item) : IsJoined (join run items) := by
  induction items generalizing run with
  | nil =>
    rw [join]
    cases run.reverse with
    | nil => exact .nil
    | cons c run => exact .literal (by simp)
  | cons item items ih =>
    cases item with
    | character c => exact ih (c :: run)
    | placeholder p => exact isJoined_literal_append (ih [])

theorem literal_toList {text : String} (hne : text ≠ "") :
    literal text.toList = [.literal text] := by
  cases hlist : text.toList with
  | nil => exact absurd (String.toList_eq_nil_iff.mp hlist) hne
  | cons c run =>
    rw [literal, ← hlist, String.ofList_toList]
    simp

theorem IsJoined.join_eq {parts : List Part} (joined : IsJoined parts) :
    join [] (parts.flatMap Part.items) = parts := by
  induction joined with
  | nil => rfl
  | @literal text hne =>
    have h := join_characters [] text.toList []
    simpa [Part.items, join, literal_toList hne] using h
  | @placeholder p parts _ ih => simpa [Part.items, join, Template.literal] using ih
  | @literalPlaceholder text p parts hne _ ih =>
    have h := join_characters [] text.toList (.placeholder p :: parts.flatMap Part.items)
    simpa [Part.items, join, literal_toList hne, ih] using h

end Interpolation.Template
