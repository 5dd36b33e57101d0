import Interpolation.Proofs.Template.Concatenation
import Interpolation.Template.Grammar

/-! A printed template reads back as the same template in its new places. Printing what was read
gives the text without the blanks around its references, so these blanks and the positions are all
that two texts of one template can differ in. -/

namespace Interpolation.Template

def Word.ofChar (c : Char) : Word :=
  if c = '{' then openingBrace else if c = '}' then closingBrace else character c

/-- The shortest word of an item. -/
def Item.word : Item → Word
  | character c => .ofChar c
  | placeholder p => .placeholder [] p.reference []

theorem Word.ofChar_cases (c : Char) :
    (c = '{' ∧ ofChar c = openingBrace) ∨ (c = '}' ∧ ofChar c = closingBrace) ∨
      (c ≠ '{' ∧ c ≠ '}' ∧ ofChar c = character c) := by
  by_cases hopen : c = '{'
  · exact .inl ⟨hopen, if_pos hopen⟩
  · by_cases hclose : c = '}'
    · exact .inr (.inl ⟨hclose, (if_neg hopen).trans (if_pos hclose)⟩)
    · exact .inr (.inr ⟨hopen, hclose, (if_neg hopen).trans (if_neg hclose)⟩)

theorem Word.text_ofChar (c : Char) : (ofChar c).text = doubleBrace c := by
  rcases ofChar_cases c with ⟨rfl, hword⟩ | ⟨rfl, hword⟩ | ⟨hopen, hclose, hword⟩
  · rfl
  · rfl
  · simp [hword, text, doubleBrace, hopen, hclose]

theorem Word.isValid_ofChar (c : Char) : (ofChar c).IsValid := by
  rcases ofChar_cases c with ⟨-, hword⟩ | ⟨-, hword⟩ | ⟨hopen, hclose, hword⟩
  · rw [hword]
    exact .openingBrace
  · rw [hword]
    exact .closingBrace
  · rw [hword]
    exact .character hopen hclose

theorem Word.item_ofChar (c : Char) (here : Position) :
    (ofChar c).item here = .character c := by
  rcases ofChar_cases c with ⟨rfl, hword⟩ | ⟨rfl, hword⟩ | ⟨-, -, hword⟩
  · rfl
  · rfl
  · rw [hword, item]

theorem Word.name?_ofChar (c : Char) : (ofChar c).name? = none := by
  rcases ofChar_cases c with ⟨-, hword⟩ | ⟨-, hword⟩ | ⟨-, -, hword⟩
  all_goals
    rw [hword]
    rfl

theorem Part.print_eq (part : Part) : part.print = part.items.flatMap (·.word.text) := by
  cases part with
  | literal text =>
    rw [Part.print, Part.items, List.flatMap_map]
    exact congrArg text.toList.flatMap (funext fun c => (Word.text_ofChar c).symm)
  | placeholder p => simp [Part.print, Part.items, Item.word, Word.text]

theorem toList_print (template : Template) : (print template).toList =
    (template.parts.flatMap Part.items).flatMap (·.word.text) := by
  rw [print, String.toList_ofList, List.flatMap_assoc]
  exact congrArg template.parts.flatMap (funext Part.print_eq)

theorem Item.isValid_word {item : Item}
    (h : ∀ p, item = .placeholder p → p.reference.IsSpellable) : item.word.IsValid := by
  cases item with
  | character c => exact Word.isValid_ofChar c
  | placeholder p => exact .placeholder (List.forall_mem_nil _) (h p rfl) (List.forall_mem_nil _)

theorem derives_words {items : List Item}
    (h : ∀ p, .placeholder p ∈ items → p.reference.IsSpellable) :
    Derives (items.map Item.word) (items.flatMap (·.word.text)) := by
  rw [derives_iff]
  constructor
  · intro word hword
    obtain ⟨item, hitem, rfl⟩ := List.mem_map.mp hword
    apply Item.isValid_word
    rintro p rfl
    exact h p hitem
  · rw [List.flatMap_map]

theorem Item.item_word_relocate (item : Item) (here place : Position) :
    (item.word.item here).relocate (fun _ => place) = item.relocate fun _ => place := by
  cases item with
  | character c => exact congrArg (Item.relocate _) (Word.item_ofChar c here)
  | placeholder p => rfl

theorem Word.items_word_relocate (items : List Item) (here place : Position) :
    (Word.items here (items.map Item.word)).map (Item.relocate fun _ => place) =
      items.map (Item.relocate fun _ => place) := by
  induction items generalizing here with
  | nil => rfl
  | cons item items ih =>
    rw [List.map_cons, Word.items, List.map_cons, ih, Item.item_word_relocate, List.map_cons]

theorem Part.mem_items {parts : List Part} {p : Placeholder} :
    .placeholder p ∈ parts.flatMap Part.items ↔ .placeholder p ∈ parts := by
  rw [List.mem_flatMap]
  constructor
  · rintro ⟨part, hpart, hp⟩
    cases part with
    | literal text => simp [Part.items] at hp
    | placeholder q =>
      obtain rfl : p = q := by simpa [Part.items] using hp
      exact hpart
  · intro hp
    exact ⟨.placeholder p, hp, List.mem_singleton.mpr rfl⟩

theorem Item.name?_word {item : Item} {name : String} (h : item.word.name? = some name) :
    ∃ p, item = .placeholder p ∧ p.reference.name? = some name := by
  cases item with
  | character c =>
    have hnone : (Item.character c).word.name? = none := Word.name?_ofChar c
    rw [hnone] at h
    cases h
  | placeholder p => exact ⟨p, rfl, h⟩

theorem exists_parse_print {scope : Scope} {parts : List Part} (joined : IsJoined parts)
    (spellable : ∀ p, .placeholder p ∈ parts → p.reference.IsSpellable)
    (permitted : ∀ p, .placeholder p ∈ parts → ∀ name, p.reference.name? = some name →
      scope.permits name = true) :
    ∃ template, parse scope (print ⟨parts⟩) = .ok template ∧
      template.unplaced = unplaced ⟨parts⟩ := by
  have hderives : Derives ((parts.flatMap Part.items).map Item.word) (print ⟨parts⟩).toList := by
    rw [toList_print]
    exact derives_words fun p hp => spellable p (Part.mem_items.mp hp)
  have hcheck : scope.checkWords .start ((parts.flatMap Part.items).map Item.word) = .ok () := by
    apply Scope.checkWords_of_permits
    intro word hword name hname
    obtain ⟨item, hitem, rfl⟩ := List.mem_map.mp hword
    obtain ⟨p, rfl, hname⟩ := Item.name?_word hname
    exact permitted p (Part.mem_items.mp hitem) name hname
  refine ⟨⟨join [] (Word.items .start ((parts.flatMap Part.items).map Item.word))⟩, ?_, ?_⟩
  · rw [parse_of_derives hderives, hcheck]
    rfl
  · rw [unplaced, unplaced, relocate, relocate, ← join_relocate, Word.items_word_relocate,
      join_relocate, joined.join_eq]

theorem eq_literal_of_relocate {f : Position → Position} {parts : List Part} {run : List Char}
    (h : parts.map (Part.relocate f) = literal run) : parts = literal run := by
  cases run with
  | nil => exact List.map_eq_nil_iff.mp h
  | cons c run =>
    obtain ⟨part, rfl, hpart⟩ := List.map_eq_singleton_iff.mp h
    cases part with
    | literal text => exact congrArg (fun part => [part]) hpart
    | placeholder p => cases hpart

theorem parse_doubleBrace (scope : Scope) (text : String) :
    parse scope (String.ofList (text.toList.flatMap doubleBrace)) =
      .ok ⟨literal text.toList⟩ := by
  have hparts : IsJoined (literal text.toList) := by
    have h := isJoined_join text.toList.reverse []
    rwa [join, List.reverse_reverse] at h
  have hnone : ∀ p, .placeholder p ∉ literal text.toList := by
    intro p hp
    cases htext : text.toList <;> simp [htext, literal] at hp
  have hprint : print ⟨literal text.toList⟩ =
      String.ofList (text.toList.flatMap doubleBrace) := by
    cases htext : text.toList <;> simp [print, literal, Part.print]
  obtain ⟨template, hparse, htemplate⟩ : ∃ template, parse scope (print ⟨literal text.toList⟩) =
      .ok template ∧ template.unplaced = unplaced ⟨literal text.toList⟩ :=
    exists_parse_print hparts (fun p hp => absurd hp (hnone p)) fun p hp => absurd hp (hnone p)
  rw [← hprint, hparse]
  obtain ⟨parts⟩ := template
  have hrelocate : parts.map (Part.relocate fun _ => .start) = literal text.toList := by
    rw [← literal_relocate (fun _ => .start) text.toList]
    exact congrArg Template.parts htemplate
  rw [eq_literal_of_relocate hrelocate]

theorem render_literal (text : String) (context : Context) :
    render ⟨literal text.toList⟩ context = .ok text := by
  by_cases hne : text = ""
  · subst hne
    rfl
  · rw [literal_toList hne, render_cons, render_nil]
    exact congrArg Except.ok String.append_empty

theorem tighten_opening {rest : List Char} (h : rest.head? ≠ some '{') :
    tighten ('{' :: rest) = '{' :: tightenInside rest := by
  cases rest with
  | nil => rfl
  | cons c rest =>
    have hc : c ≠ '{' := fun heq => h (congrArg some heq)
    simp [tighten, hc]

theorem tighten_character {c : Char} (h : c ≠ '{') (rest : List Char) :
    tighten (c :: rest) = c :: tighten rest := by
  cases rest with
  | nil => rfl
  | cons d rest => simp [tighten, h]

theorem tightenInside_blanks {blanks : List Char} (h : ∀ c ∈ blanks, Text.isBlank c = true)
    (rest : List Char) : tightenInside (blanks ++ rest) = tightenInside rest := by
  induction blanks with
  | nil => rfl
  | cons c blanks ih =>
    have hc := h c List.mem_cons_self
    have hbrace : c ≠ '}' := by
      rintro rfl
      cases hc
    rw [List.cons_append, tightenInside, if_neg hbrace, if_pos hc]
    exact ih fun d hd => h d (List.mem_cons_of_mem c hd)

theorem tightenInside_solid {solid : List Char}
    (h : ∀ c ∈ solid, Text.isBlank c = false ∧ c ≠ '}') (rest : List Char) :
    tightenInside (solid ++ rest) = solid ++ tightenInside rest := by
  induction solid with
  | nil => rfl
  | cons c solid ih =>
    obtain ⟨hblank, hbrace⟩ := h c List.mem_cons_self
    rw [List.cons_append, tightenInside, if_neg hbrace, hblank,
      ih fun d hd => h d (List.mem_cons_of_mem c hd)]
    rfl

theorem Reference.spelling_solid {reference : Reference} (spellable : reference.IsSpellable) :
    ∀ c ∈ reference.spelling, Text.isBlank c = false ∧ c ≠ '}' := by
  intro c hc
  cases reference with
  | default =>
    obtain rfl : c = '.' := List.mem_singleton.mp hc
    decide
  | named name =>
    rcases List.mem_cons.mp hc with rfl | hc
    · decide
    · have hletter := (isName_iff.mp (spellable name rfl)).2 c hc
      exact ⟨isBlank_of_isNameLetter hletter, ne_of_isNameLetter hletter (by decide +kernel)⟩

/-- Tightening makes a word the shortest of its item. -/
theorem Word.tighten_text {word : Word} (valid : word.IsValid) (here : Position)
    (rest : List Char) :
    tighten (word.text ++ rest) = (word.item here).word.text ++ tighten rest := by
  cases valid with
  | openingBrace => simp [text, item, Item.word, ofChar, tighten]
  | closingBrace =>
    change tighten ('}' :: '}' :: rest) = '}' :: '}' :: tighten rest
    rw [tighten_character (by decide), tighten_character (by decide)]
  | @character c hopen hclose =>
    simp [text, item, Item.word, ofChar, hopen, hclose, tighten_character hopen]
  | @placeholder before after reference hbefore hreference hafter =>
    rw [placeholder_text_append, tighten_opening (head?_placeholder_ne reference _ hbefore),
      tightenInside_blanks hbefore, tightenInside_solid (Reference.spelling_solid hreference),
      tightenInside_blanks hafter, tightenInside, if_pos rfl]
    simp [item, Item.word, text]

theorem tighten_of_derives {words : List Word} {text : List Char} (derives : Derives words text)
    (here : Position) : tighten text = (Word.items here words).flatMap (·.word.text) := by
  induction derives generalizing here with
  | nil => rfl
  | cons valid _ ih => rw [Word.tighten_text valid here, ih, Word.items, List.flatMap_cons]

/-- Behind a doubled brace the blanks are part of the text. -/
example : tighten "\x7b\x7b $x \x7d\x7d\x7b\n$x \x7d".toList =
    "\x7b\x7b $x \x7d\x7d\x7b$x\x7d".toList := by decide

theorem toList_print_of_parse {text : String} {template : Template}
    (h : parse .anyName text = .ok template) :
    (print template).toList = tighten text.toList := by
  obtain ⟨words, hderives, rfl⟩ := exists_derives_of_parse h
  rw [toList_print, join_flatMap_items, tighten_of_derives hderives .start]
  rfl

theorem print_unplaced (template : Template) : print template.unplaced = print template := by
  have hpart : ∀ part : Part, (part.relocate fun _ => .start).print = part.print := by
    intro part
    cases part <;> rfl
  rw [print, print, unplaced, relocate, List.flatMap_map]
  simp only [hpart]

theorem exists_parse_print_of_parse {text : String} {template : Template}
    (h : parse .anyName text = .ok template) :
    ∃ again, parse .anyName (print template) = .ok again ∧ again.unplaced = template.unplaced := by
  obtain ⟨words, hderives, rfl⟩ := exists_derives_of_parse h
  apply exists_parse_print (isJoined_join [] _) ?_ fun p hp name hname => rfl
  intro p hp
  rw [← Part.mem_items, join_flatMap_items] at hp
  obtain ⟨front, word, back, rfl, hitem⟩ := Word.exists_split_of_mem_items hp
  obtain ⟨before, after, -, -, hvalid, -⟩ := hderives.split
  obtain ⟨-, blanks, others, rfl⟩ := Word.eq_placeholder_of_item hitem.symm
  cases hvalid with
  | placeholder _ hreference _ => exact hreference

/-- Reading inverts printing, and loses nothing but the blanks around references. A printed template
reads back as the same parts; a text whose braces are doubled reads and renders as that text, in any
scope and context; and two texts are read as the same parts, their positions aside, exactly if they
are the same when tightened. -/
theorem parse_inverts_print :
    (∀ parts, IsJoined parts → (∀ p, .placeholder p ∈ parts → p.reference.IsSpellable) →
      ∃ template, parse .anyName (print ⟨parts⟩) = .ok template ∧
        template.unplaced = unplaced ⟨parts⟩) ∧
    (∀ (scope : Scope) (text : String), ∃ template,
      parse scope (String.ofList (text.toList.flatMap doubleBrace)) = .ok template ∧
      template.placeholders = [] ∧ ∀ context, template.render context = .ok text) ∧
    ∀ (first second : String) (template other : Template), parse .anyName first = .ok template →
      parse .anyName second = .ok other →
      (template.unplaced = other.unplaced ↔ tighten first.toList = tighten second.toList) := by
  refine ⟨?_, ?_, ?_⟩
  · intro parts hjoined hspellable
    apply exists_parse_print hjoined hspellable
    intro p hp name hname
    rfl
  · intro scope text
    refine ⟨⟨literal text.toList⟩, parse_doubleBrace scope text, ?_, render_literal text⟩
    cases htext : text.toList <;> simp [placeholders, literal, Part.placeholder?]
  · intro first second template other hfirst hsecond
    rw [← toList_print_of_parse hfirst, ← toList_print_of_parse hsecond]
    constructor
    · intro h
      rw [← print_unplaced, h, print_unplaced]
    · intro h
      -- Both are what is read from their common print.
      obtain ⟨again, hagain, hsame⟩ := exists_parse_print_of_parse hfirst
      obtain ⟨again', hagain', hsame'⟩ := exists_parse_print_of_parse hsecond
      rw [String.toList_inj.mp h, hagain'] at hagain
      obtain rfl : again' = again := Except.ok.inj hagain
      rw [← hsame, hsame']

end Interpolation.Template
