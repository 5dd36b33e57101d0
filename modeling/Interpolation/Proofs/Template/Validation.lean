import Interpolation.Proofs.Template.Parse

/-! A closed scope changes nothing about which template a text stands for. It only adds a verdict on
each name as soon as the name is complete, so that of an undeclared name and a fault the one that
comes first is reported. -/

namespace Interpolation.Template

def Declared (names : NameSet) (words : List Word) : Prop :=
  ∀ word ∈ words, ∀ name, word.name? = some name → name ∈ names

/-- An opening brace, blanks, the mark of a name and a name that does not go on. -/
inductive Announces : List Char → String → Prop
  | intro {before rest : List Char} {name : String}
    (hbefore : ∀ c ∈ before, Text.isBlank c = true) (hname : isName name = true)
    (hrest : ∀ c, rest.head? = some c → isNameLetter c = false) :
    Announces ('{' :: before ++ '$' :: name.toList ++ rest) name

/-- Where the first undeclared name of a text stands: words whose names are all declared, and then a
placeholder with this name. -/
inductive FirstUndeclared (names : NameSet) : List Char → String → Position → Prop
  | intro {words : List Word} {before after : List Char} {name : String}
    (derives : Derives words before) (declared : Declared names words)
    (announces : Announces after name) (undeclared : name ∉ names) :
    FirstUndeclared names (before ++ after) name (.after .start before)

theorem derives_iff {words : List Word} {text : List Char} :
    Derives words text ↔ (∀ word ∈ words, word.IsValid) ∧ text = words.flatMap Word.text := by
  constructor
  · intro derives
    induction derives with
    | nil => simp
    | cons valid _ ih =>
      obtain ⟨hvalid, rfl⟩ := ih
      exact ⟨List.forall_mem_cons.mpr ⟨valid, hvalid⟩, by simp⟩
  · rintro ⟨hvalid, rfl⟩
    induction words with
    | nil => exact .nil
    | cons word words ih =>
      obtain ⟨hword, hwords⟩ := List.forall_mem_cons.mp hvalid
      exact .cons hword (ih hwords)

theorem Derives.split {front back : List Word} {word : Word} {text : List Char}
    (derives : Derives (front ++ word :: back) text) :
    ∃ before after, text = before ++ (word.text ++ after) ∧ Derives front before ∧ word.IsValid ∧
      before = front.flatMap Word.text := by
  obtain ⟨hvalid, rfl⟩ := derives_iff.mp derives
  refine ⟨front.flatMap Word.text, back.flatMap Word.text, by simp, derives_iff.mpr ⟨?_, rfl⟩,
    hvalid word (by simp), rfl⟩
  intro x hx
  exact hvalid x (List.mem_append_left _ hx)

theorem Word.items_append (here : Position) (front back : List Word) :
    items here (front ++ back) =
      items here front ++ items (here.after (front.flatMap text)) back := by
  induction front generalizing here with
  | nil => rfl
  | cons word front ih => simp [items, ih]

def Item.placeholder? : Item → Option Placeholder
  | character _ => none
  | placeholder p => some p

theorem filterMap_placeholder? (parts : List Part) : parts.filterMap Part.placeholder? =
    (parts.flatMap Part.items).filterMap Item.placeholder? := by
  induction parts with
  | nil => rfl
  | cons part parts ih =>
    cases part with
    | literal text =>
      have hnone : (Part.literal text).items.filterMap Item.placeholder? = [] := by
        simp [Part.items, Item.placeholder?]
      rw [List.flatMap_cons, List.filterMap_append, hnone]
      exact ih
    | placeholder p => simp [Part.placeholder?, Part.items, Item.placeholder?, ih]

theorem placeholders_of_words (words : List Word) :
    placeholders ⟨join [] (Word.items .start words)⟩ =
      (Word.items .start words).filterMap Item.placeholder? := by
  rw [placeholders, filterMap_placeholder?, join_flatMap_items]
  simp

theorem Word.placeholder?_item (here : Position) (word : Word) :
    (word.item here).placeholder?.bind (·.reference.name?) = word.name? := by
  cases word <;> rfl

theorem Item.mem_filterMap_placeholder? {items : List Item} {p : Placeholder} :
    p ∈ items.filterMap Item.placeholder? ↔ .placeholder p ∈ items := by
  rw [List.mem_filterMap]
  constructor
  · rintro ⟨item, hitem, hp⟩
    cases item with
    | character c => cases hp
    | placeholder q =>
      obtain rfl : q = p := Option.some.inj hp
      exact hitem
  · intro hp
    exact ⟨.placeholder p, hp, rfl⟩

theorem Word.exists_split_of_mem_items {here : Position} {words : List Word} {item : Item}
    (h : item ∈ items here words) : ∃ front word back, words = front ++ word :: back ∧
      item = word.item (here.after (front.flatMap text)) := by
  induction words generalizing here with
  | nil => cases h
  | cons word words ih =>
    rcases List.mem_cons.mp h with rfl | h
    · exact ⟨[], word, words, rfl, rfl⟩
    · obtain ⟨front, other, back, rfl, rfl⟩ := ih h
      refine ⟨word :: front, other, back, rfl, ?_⟩
      rw [List.flatMap_cons, Position.after_append]

theorem Word.exists_mem_of_mem_items {here : Position} {words : List Word} {p : Placeholder}
    (h : p ∈ (items here words).filterMap Item.placeholder?) :
    ∃ word ∈ words, word.name? = p.reference.name? := by
  obtain ⟨front, word, back, rfl, hitem⟩ :=
    exists_split_of_mem_items (Item.mem_filterMap_placeholder?.mp h)
  refine ⟨word, by simp, ?_⟩
  have hname := word.placeholder?_item (here.after (front.flatMap text))
  rw [← hitem] at hname
  exact hname.symm

theorem Word.exists_item_of_name {here : Position} {word : Word} {name : String}
    (h : word.name? = some name) : word.item here = .placeholder ⟨.named name, here⟩ := by
  cases word with
  | placeholder before reference after =>
    cases reference with
    | named other =>
      obtain rfl : other = name := by simpa [name?, Reference.name?] using h
      rfl
    | default => simp [name?, Reference.name?] at h
  | _ => simp [name?] at h

theorem mem_names_of_words {words : List Word} {name : String} :
    name ∈ names ⟨join [] (Word.items .start words)⟩ ↔ ∃ word ∈ words, word.name? = some name := by
  simp only [names, NameSet.mem_ofList, placeholders_of_words]
  constructor
  · intro h
    obtain ⟨p, hp, hname⟩ := List.mem_filterMap.mp h
    obtain ⟨word, hword, hsame⟩ := Word.exists_mem_of_mem_items hp
    exact ⟨word, hword, hsame.trans hname⟩
  · rintro ⟨word, hword, hname⟩
    obtain ⟨front, back, rfl⟩ := List.append_of_mem hword
    refine List.mem_filterMap.mpr
      ⟨⟨.named name, Position.start.after (front.flatMap Word.text)⟩, ?_, rfl⟩
    rw [Word.items_append, Word.items, Word.exists_item_of_name hname]
    simp [Item.placeholder?]

theorem declared_iff_names {names : NameSet} {words : List Word} : Declared names words ↔
    ∀ name ∈ Template.names ⟨join [] (Word.items .start words)⟩, name ∈ names := by
  simp only [mem_names_of_words, Declared]
  grind

theorem Scope.checkWords_of_declared {names : NameSet} {words : List Word}
    (h : Declared names words) (here : Position) :
    (only names).checkWords here words = .ok () :=
  checkWords_of_permits fun word hword name hname =>
    NameSet.contains_iff.mpr (h word hword name hname)

theorem Scope.exists_undeclared {names : NameSet} {words : List Word} (h : ¬ Declared names words) :
    ∃ front word back name, words = front ++ word :: back ∧ Declared names front ∧
      word.name? = some name ∧ name ∉ names ∧ ∀ here, (only names).checkWords here words =
        .error (.undeclaredName name (here.after (front.flatMap Word.text))) := by
  -- The induction is on the words, for every position that the first of them may begin at.
  induction words with
  | nil => exact absurd (fun word hword => absurd hword List.not_mem_nil) h
  | cons first words ih =>
    by_cases hfirst : ∃ name, first.name? = some name ∧ name ∉ names
    · obtain ⟨name, hname, hundeclared⟩ := hfirst
      refine ⟨[], first, words, name, rfl, by simp [Declared], hname, hundeclared, fun here => ?_⟩
      have hpermits : (only names).permits name = false :=
        Bool.eq_false_iff.mpr fun h => hundeclared (NameSet.contains_iff.mp h)
      rw [checkWords, hname, check_of_not_permits hpermits]
      rfl
    · have hdeclared : ∀ name, first.name? = some name → name ∈ names := fun name hname =>
        Classical.byContradiction fun hnot => hfirst ⟨name, hname, hnot⟩
      have hrest : ¬ Declared names words := fun hall =>
        h (List.forall_mem_cons.mpr ⟨hdeclared, hall⟩)
      obtain ⟨front, word, back, name, rfl, hfront, hname, hnot, herror⟩ := ih hrest
      refine ⟨first :: front, word, back, name, rfl, List.forall_mem_cons.mpr ⟨hdeclared, hfront⟩,
        hname, hnot, fun here => ?_⟩
      have hcheck : (only names).check here first.name? = .ok () :=
        check_of_permits fun name hname => NameSet.contains_iff.mpr (hdeclared name hname)
      rw [checkWords, hcheck]
      simpa [Except.bind] using herror (here.after first.text)

theorem Word.announces {word : Word} {name : String} (valid : word.IsValid)
    (h : word.name? = some name) (rest : List Char) : Announces (word.text ++ rest) name := by
  cases valid with
  | @placeholder before after reference hbefore hreference hafter =>
    cases reference with
    | named other =>
      obtain rfl : other = name := by simpa [name?, Reference.name?] using h
      rw [placeholder_text_append]
      simpa [Reference.spelling] using Announces.intro hbefore (hreference other rfl)
        (isNameLetter_head?_closing rest hafter)
    | default => simp [name?, Reference.name?] at h
  | _ => simp [name?] at h

theorem Stage.isBlank_head? {before rest : List Char} {stage : Stage}
    (hrest : ∀ c, rest.head? = some c → stage.Rejects before c) :
    ∀ c, (stage.text ++ rest).head? = some c → Text.isBlank c = false := by
  intro c hc
  cases stage with
  | inside => exact (hrest c hc).1
  | marked =>
    obtain rfl : '$' = c := by simpa [text] using hc
    decide
  | behind reference after =>
    rw [text, List.append_assoc] at hc
    exact isBlank_head?_spelling reference _ c hc

theorem Fault.announces {fault : Fault} {name : String} (valid : fault.IsValid)
    (h : fault.name? = some name) : Announces fault.text name := by
  cases fault with
  | stray rest => simp [name?] at h
  | broken before stage rest =>
    obtain ⟨hbefore, hstage, hrest⟩ := valid
    cases stage with
    | behind reference after =>
      cases reference with
      | named other =>
        obtain rfl : other = name := by simpa [name?, Stage.name?, Reference.name?] using h
        have hend := Stage.isNameLetter_head?_behind hstage.2 hrest (by simp)
        simpa [text, Stage.text, Reference.spelling] using
          Announces.intro hbefore (hstage.1 other rfl) hend
      | default => simp [name?, Stage.name?, Reference.name?] at h
    | _ => simp [name?, Stage.name?] at h

theorem Fault.name?_of_announces {fault : Fault} {name : String} (valid : fault.IsValid)
    (h : Announces fault.text name) : fault.name? = some name := by
  generalize htext : fault.text = text at h
  obtain ⟨hblanks, hname, hletter⟩ := h
  rename_i blanks tail
  obtain ⟨hne, hletters⟩ := isName_iff.mp hname
  cases fault with
  | stray rest => exact absurd (List.cons.inj htext).1 (by decide)
  | broken before stage rest =>
    obtain ⟨hbefore, hstage, hrest⟩ := valid
    have hmark : Text.isBlank '$' = false := by decide
    have hinner : before ++ (stage.text ++ rest) = blanks ++ '$' :: (name.toList ++ tail) := by
      simpa [text] using htext
    -- Both texts have the same blanks behind the brace; then the stage decides.
    obtain ⟨rfl, hstart⟩ := append_inj_of_all hbefore hblanks (Stage.isBlank_head? hrest)
      (by simp [hmark]) hinner
    cases stage with
    | inside =>
      have hhead : rest.head? = some '$' := congrArg List.head? hstart
      exact absurd rfl (hrest '$' hhead).2.2.1
    | marked =>
      obtain ⟨c, letters, hc⟩ := List.exists_cons_of_ne_nil hne
      have htail : rest = name.toList ++ tail := (List.cons.inj hstart).2
      have hnot : isNameLetter c = false := hrest c (by simp [htail, hc])
      exact Bool.noConfusion (hnot.symm.trans (hletters c (by simp [hc])))
    | behind reference after =>
      have hspelling : reference.spelling ++ (after ++ rest) =
          (Reference.named name).spelling ++ tail := by
        simpa [Stage.text, Reference.spelling] using hstart
      obtain ⟨rfl, -⟩ := reference_inj hstage.1 (isSpellable_named hname)
        (Stage.isNameLetter_head?_behind hstage.2 hrest) (fun _ => hletter) hspelling
      rfl

theorem Fault.announces_iff {fault : Fault} {name : String} (valid : fault.IsValid) :
    Announces fault.text name ↔ fault.name? = some name :=
  ⟨Fault.name?_of_announces valid, Fault.announces valid⟩

theorem Fault.offset_le (fault : Fault) (here : Position) :
    here.offset ≤ (fault.error here).position.offset := by
  cases fault with
  | stray rest => exact Nat.le_refl _
  | broken before stage rest =>
    cases rest with
    | nil => exact Nat.le_refl _
    | cons c rest =>
      have hle := here.offset_le_after ('{' :: before ++ stage.text)
      rw [error]
      rcases stage.error_cases here (here.after ('{' :: before ++ stage.text)) c with h | h | h
      · rw [h]
        exact Nat.le_refl _
      · rw [h]
        exact hle
      · rw [h]
        exact hle

theorem Fault.error_ne_undeclaredName (fault : Fault) (here : Position) (name : String)
    (position : Position) : fault.error here ≠ .undeclaredName name position := by
  cases fault with
  | stray rest => exact Error.noConfusion
  | broken before stage rest =>
    cases rest with
    | nil => exact Error.noConfusion
    | cons c rest =>
      rw [error]
      rcases stage.error_cases here (here.after ('{' :: before ++ stage.text)) c with h | h | h
      · rw [h]
        exact Error.noConfusion
      · rw [h]
        exact Error.noConfusion
      · rw [h]
        exact Error.noConfusion

section Closed
variable {names : NameSet} {text : String} {words : List Word} {front : List Char}

theorem parse_only_of_derives (derives : Derives words text.toList) (h : Declared names words) :
    parse (.only names) text = .ok ⟨join [] (Word.items .start words)⟩ := by
  rw [parse_of_derives derives, Scope.checkWords_of_declared h]
  rfl

theorem parse_of_permitted_fault {scope : Scope} {fault : Fault} (derives : Derives words front)
    (valid : fault.IsValid) (htext : text.toList = front ++ fault.text)
    (hwords : ∀ word ∈ words, ∀ name, word.name? = some name → scope.permits name = true)
    (hname : ∀ name, fault.name? = some name → scope.permits name = true) :
    parse scope text = .error (fault.error (.after .start front)) := by
  rw [parse_of_fault derives valid htext, Scope.checkWords_of_permits hwords,
    Scope.check_of_permits hname]
  rfl

theorem parse_of_undeclared_fault {scope : Scope} {fault : Fault} {name : String}
    (derives : Derives words front) (valid : fault.IsValid)
    (htext : text.toList = front ++ fault.text)
    (hwords : ∀ word ∈ words, ∀ name, word.name? = some name → scope.permits name = true)
    (hname : fault.name? = some name) (hnot : scope.permits name = false) :
    parse scope text = .error (.undeclaredName name (.after .start front)) := by
  rw [parse_of_fault derives valid htext, Scope.checkWords_of_permits hwords, hname,
    Scope.check_of_not_permits hnot]
  rfl

theorem parse_only_of_fault {fault : Fault} (derives : Derives words front) (valid : fault.IsValid)
    (htext : text.toList = front ++ fault.text) (h : Declared names words)
    (hname : ∀ name, fault.name? = some name → name ∈ names) :
    parse (.only names) text = .error (fault.error (.after .start front)) := by
  apply parse_of_permitted_fault derives valid htext
  · intro word hword name hsome
    exact NameSet.contains_iff.mpr (h word hword name hsome)
  · intro name hsome
    exact NameSet.contains_iff.mpr (hname name hsome)

theorem parse_only_of_undeclared_fault {fault : Fault} {name : String}
    (derives : Derives words front)
    (valid : fault.IsValid) (htext : text.toList = front ++ fault.text) (h : Declared names words)
    (hname : fault.name? = some name) (hnot : name ∉ names) :
    parse (.only names) text = .error (.undeclaredName name (.after .start front)) := by
  apply parse_of_undeclared_fault derives valid htext _ hname
  · exact Bool.eq_false_iff.mpr fun h => hnot (NameSet.contains_iff.mp h)
  · intro word hword name hsome
    exact NameSet.contains_iff.mpr (h word hword name hsome)

theorem exists_firstUndeclared (derives : Derives words front) (h : ¬ Declared names words)
    (rest : List Char) :
    ∃ name position, FirstUndeclared names (front ++ rest) name position ∧
      position.offset ≤ (Position.start.after front).offset ∧
      (Scope.only names).checkWords .start words = .error (.undeclaredName name position) := by
  obtain ⟨back, word, others, name, rfl, hback, hname, hnot, herror⟩ := Scope.exists_undeclared h
  obtain ⟨before, after, rfl, hbefore, hword, rfl⟩ := derives.split
  refine ⟨name, _, ?_, ?_, herror .start⟩
  · rw [List.append_assoc, List.append_assoc]
    exact .intro hbefore hback (word.announces hword hname _) hnot
  · rw [Position.after_append]
    exact Position.offset_le_after _ _

/-- The undeclared name that is reported belongs to the first placeholder with such a name. -/
theorem exists_undeclared_placeholder (derives : Derives words text.toList)
    (h : ¬ Declared names words) : ∃ before name position after,
      placeholders ⟨join [] (Word.items .start words)⟩ =
        before ++ ⟨.named name, position⟩ :: after ∧
      (∀ p ∈ before, ∀ other, p.reference = .named other → other ∈ names) ∧ name ∉ names ∧
      parse (.only names) text = .error (.undeclaredName name position) := by
  obtain ⟨back, word, others, name, rfl, hback, hname, hnot, herror⟩ := Scope.exists_undeclared h
  refine ⟨(Word.items .start back).filterMap Item.placeholder?, name,
    Position.start.after (back.flatMap Word.text),
    (Word.items ((Position.start.after (back.flatMap Word.text)).after word.text) others).filterMap
      Item.placeholder?, ?_, fun p hp other hother => ?_, hnot, ?_⟩
  · rw [placeholders_of_words, Word.items_append, List.filterMap_append, Word.items,
      Word.exists_item_of_name hname]
    rfl
  · obtain ⟨first, hfirst, hsame⟩ := Word.exists_mem_of_mem_items hp
    exact hback first hfirst other (hsame.trans (by rw [hother, Reference.name?]))
  · rw [parse_of_derives derives, herror]
    rfl

/-- On a faulty text the first of the undeclared names and the fault counts. -/
theorem parse_only_of_fault_cases {fault : Fault} (derives : Derives words front)
    (valid : fault.IsValid) (htext : text.toList = front ++ fault.text) :
    (Declared names words ∧ (∀ name, Announces fault.text name → name ∈ names) ∧
      parse (.only names) text = .error (fault.error (.after .start front))) ∨
    (¬ (Declared names words ∧ ∀ name, Announces fault.text name → name ∈ names) ∧
      ∃ name position, FirstUndeclared names text.toList name position ∧
        position.offset ≤ (fault.error (.after .start front)).position.offset ∧
        parse (.only names) text = .error (.undeclaredName name position)) := by
  have hfault := fault.offset_le (Position.start.after front)
  -- The words come first, then the name that the fault completes, then the fault itself.
  by_cases hwords : Declared names words
  · by_cases hname : ∀ name, fault.name? = some name → name ∈ names
    · refine .inl ⟨hwords, fun name hname' =>
        hname name (Fault.name?_of_announces valid hname'), ?_⟩
      exact parse_only_of_fault derives valid htext hwords hname
    · obtain ⟨name, hname⟩ := Classical.not_forall.mp hname
      obtain ⟨hsome, hnot⟩ := Classical.not_imp.mp hname
      have hannounces := Fault.announces valid hsome
      refine .inr ⟨fun h => hnot (h.2 name hannounces), name, Position.start.after front, ?_,
        hfault, ?_⟩
      · rw [htext]
        exact .intro derives hwords hannounces hnot
      · exact parse_only_of_undeclared_fault derives valid htext hwords hsome hnot
  · obtain ⟨name, position, hfirst, hle, herror⟩ :=
      exists_firstUndeclared derives hwords fault.text
    refine .inr ⟨fun h => hwords h.1, name, position, htext ▸ hfirst, Nat.le_trans hle hfault, ?_⟩
    rw [parse_of_fault derives valid htext, herror]
    rfl

theorem exists_declared_of_parse {template : Template}
    (h : parse (.only names) text = .ok template) :
    ∃ words, Derives words text.toList ∧ Declared names words ∧
      template = ⟨join [] (Word.items .start words)⟩ := by
  cases derives_or_fault text.toList with
  | inl hwords =>
    obtain ⟨words, hderives⟩ := hwords
    by_cases hdeclared : Declared names words
    · rw [parse_only_of_derives hderives hdeclared] at h
      exact ⟨words, hderives, hdeclared, (Except.ok.inj h).symm⟩
    · obtain ⟨name, position, -, -, herror⟩ := exists_firstUndeclared hderives hdeclared []
      rw [parse_of_derives hderives, herror] at h
      cases h
  | inr hfault =>
    obtain ⟨words, front, fault, hderives, hvalid, htext⟩ := hfault
    rcases parse_only_of_fault_cases hderives hvalid htext with
      ⟨-, -, hparse⟩ | ⟨-, name, position, -, -, hparse⟩
    · rw [hparse] at h
      cases h
    · rw [hparse] at h
      cases h

end Closed

/-- A closed scope accepts the templates whose names are all declared, unchanged. Of the others it
reports the first placeholder with an undeclared name. On a faulty text it gives the error of the
fault exactly if all names completed before the fault are declared, and otherwise the first that is
not, which stands no later than the fault. -/
theorem parse_only_eq_parse_anyName_and_check (names : NameSet) (text : String) :
    (∀ template, parse (.only names) text = .ok template ↔
      parse .anyName text = .ok template ∧ ∀ name ∈ template.names, name ∈ names) ∧
    (∀ template, parse .anyName text = .ok template → (∃ name ∈ template.names, name ∉ names) →
      ∃ before name position after,
        template.placeholders = before ++ ⟨.named name, position⟩ :: after ∧
        (∀ p ∈ before, ∀ other, p.reference = .named other → other ∈ names) ∧ name ∉ names ∧
        parse (.only names) text = .error (.undeclaredName name position)) ∧
    ∀ e, parse .anyName text = .error e →
      (parse (.only names) text = .error e ∨ ∃ name position,
        FirstUndeclared names text.toList name position ∧ position.offset ≤ e.position.offset ∧
        parse (.only names) text = .error (.undeclaredName name position)) ∧
      ∃ words front fault, Derives words front ∧ Fault.IsValid fault ∧
        text.toList = front ++ fault.text ∧ e = fault.error (.after .start front) ∧
        (parse (.only names) text = .error e ↔
          Declared names words ∧ ∀ name, Announces fault.text name → name ∈ names) := by
  refine ⟨fun template => ⟨fun h => ?_, fun h => ?_⟩, fun template h hundeclared => ?_,
    fun e h => ?_⟩
  · obtain ⟨words, hderives, hdeclared, rfl⟩ := exists_declared_of_parse h
    exact ⟨parse_anyName_of_derives hderives, declared_iff_names.mp hdeclared⟩
  · obtain ⟨words, hderives, rfl⟩ := exists_derives_of_parse h.1
    exact parse_only_of_derives hderives (declared_iff_names.mpr h.2)
  · obtain ⟨words, hderives, rfl⟩ := exists_derives_of_parse h
    obtain ⟨name, hname, hnot⟩ := hundeclared
    exact exists_undeclared_placeholder hderives fun hall =>
      hnot (declared_iff_names.mp hall name hname)
  · obtain ⟨words, front, fault, hderives, hvalid, htext, rfl⟩ := exists_fault_of_parse h
    rcases parse_only_of_fault_cases hderives hvalid htext with
      ⟨hwords, hname, hparse⟩ | ⟨hnot, name, position, hfirst, hle, hparse⟩
    · exact ⟨.inl hparse, words, front, fault, hderives, hvalid, htext, rfl,
        fun _ => ⟨hwords, hname⟩, fun _ => hparse⟩
    · refine ⟨.inr ⟨name, position, hfirst, hle, hparse⟩, words, front, fault, hderives, hvalid,
        htext, rfl, fun hsame => ?_, fun hall => absurd hall hnot⟩
      rw [hparse] at hsame
      exact absurd (Except.error.inj hsame).symm (fault.error_ne_undeclaredName _ _ _)

end Interpolation.Template
