import Interpolation.Proofs.Template.Location
import Interpolation.Proofs.Template.Rendering

/-! Of a scope only the verdicts on the names that a text refers to matter, also if the text is
faulty, and of a context only the texts of the values that a template refers to. -/

namespace Interpolation.Template

/-- Behind words, a text announces a name. The text need not be a template. -/
inductive Refers : List Char → String → Prop
  | intro {words : List Word} {before after : List Char} {name : String}
    (derives : Derives words before) (announces : Announces after name) :
    Refers (before ++ after) name

/-- Two contexts have the same texts for all that a template refers to. A name may also be unbound
in both. -/
structure Agree (template : Template) (first second : Context) : Prop where
  names : ∀ name ∈ template.names,
    (first.get? name).map Value.toText = (second.get? name).map Value.toText
  default : template.usesDefault = true → first.default.toText = second.default.toText

theorem Word.name?_of_announces {word : Word} {rest : List Char} {name : String}
    (valid : word.IsValid) (h : Announces (word.text ++ rest) name) : word.name? = some name := by
  generalize htext : word.text ++ rest = text at h
  obtain ⟨hblanks, hname, hletter⟩ := h
  rename_i blanks tail
  have hmark : Text.isBlank '$' = false := by decide
  cases valid with
  | openingBrace =>
    have hhead : (blanks ++ (Reference.spelling (.named name) ++ tail)).head? ≠ some '{' :=
      head?_placeholder_ne (.named name) tail hblanks
    apply absurd _ hhead
    have hinner : '{' :: rest = blanks ++ '$' :: name.toList ++ tail := (List.cons.inj htext).2
    rw [Reference.spelling, ← List.append_assoc, ← hinner]
    rfl
  | closingBrace => exact absurd (List.cons.inj htext).1 (by decide)
  | character hopen _ => exact absurd (List.cons.inj htext).1 hopen
  | @placeholder before after reference hbefore hreference hafter =>
    rw [placeholder_text_append] at htext
    have hinner : before ++ (reference.spelling ++ (after ++ '}' :: rest)) =
        blanks ++ '$' :: (name.toList ++ tail) := by
      simpa using htext
    obtain ⟨rfl, hstart⟩ := append_inj_of_all hbefore hblanks (isBlank_head?_spelling reference _)
      (by simp [hmark]) hinner
    obtain ⟨rfl, -⟩ := @reference_inj reference (.named name) _ tail hreference
      (isSpellable_named hname) (fun _ => isNameLetter_head?_closing rest hafter) (fun _ => hletter)
      hstart
    rfl

theorem Announces.ne_nil {text : List Char} {name : String} (h : Announces text name) :
    text ≠ [] := by
  cases h
  simp

theorem Refers.isName {text : List Char} {name : String} (h : Refers text name) :
    isName name = true := by
  obtain ⟨-, hannounces⟩ := h
  cases hannounces
  assumption

variable {text : String} {template : Template}

theorem refers_of_name {words : List Word} {front : List Char} {word : Word} {name : String}
    (derives : Derives words front) (hword : word ∈ words) (hname : word.name? = some name)
    (rest : List Char) : Refers (front ++ rest) name := by
  obtain ⟨before, after, rfl⟩ := List.append_of_mem hword
  obtain ⟨head, tail, rfl, hhead, hvalid, -⟩ := derives.split
  rw [List.append_assoc, List.append_assoc]
  exact .intro hhead (word.announces hvalid hname (tail ++ rest))

theorem mem_names_iff_refers (h : parse .anyName text = .ok template) {name : String} :
    name ∈ template.names ↔ Refers text.toList name := by
  obtain ⟨words, hderives, rfl⟩ := exists_derives_of_parse h
  rw [mem_names_of_words]
  constructor
  · rintro ⟨word, hword, hname⟩
    have hrefers := refers_of_name hderives hword hname []
    rwa [List.append_nil] at hrefers
  · intro hrefers
    generalize hchars : text.toList = chars at hrefers hderives
    obtain ⟨hfront, hannounces⟩ := hrefers
    rename_i front before after
    rcases derives_or_fault after with ⟨back, hback⟩ | ⟨back, middle, fault, hback, hvalid, rfl⟩
    · obtain rfl : words = front ++ back := hderives.words_unique (hfront.append hback)
      cases hback with
      | nil => exact absurd rfl hannounces.ne_nil
      | @cons word others rest hword _ =>
        exact ⟨word, by simp, word.name?_of_announces hword hannounces⟩
    · rw [← List.append_assoc] at hchars
      rw [parse_anyName_of_fault (hfront.append hback) hvalid hchars] at h
      cases h

theorem Scope.check_congr {scope other : Scope} (brace : Position) {name? : Option String}
    (h : ∀ name, name? = some name → scope.permits name = other.permits name) :
    scope.check brace name? = other.check brace name? := by
  cases name? with
  | none => rfl
  | some name => rw [check, check, h name rfl]

theorem Scope.checkWords_congr {scope other : Scope} {words : List Word}
    (h : ∀ word ∈ words, ∀ name, word.name? = some name →
      scope.permits name = other.permits name) (here : Position) :
    scope.checkWords here words = other.checkWords here words := by
  induction words generalizing here with
  | nil => rfl
  | cons word words ih =>
    obtain ⟨hword, hwords⟩ := List.forall_mem_cons.mp h
    rw [checkWords, checkWords, check_congr here hword, ih hwords]

theorem parse_congr {scope other : Scope}
    (h : ∀ name, Refers text.toList name → scope.permits name = other.permits name) :
    parse scope text = parse other text := by
  -- A name is judged in a word or in the fault, and the text refers to both.
  rcases derives_or_fault text.toList with
    ⟨words, hderives⟩ | ⟨words, front, fault, hderives, hvalid, htext⟩
  · have hwords : scope.checkWords .start words = other.checkWords .start words := by
      apply Scope.checkWords_congr
      intro word hword name hname
      have hrefers := refers_of_name hderives hword hname []
      rw [List.append_nil] at hrefers
      exact h name hrefers
    rw [parse_of_derives hderives, parse_of_derives hderives, hwords]
  · have hwords : scope.checkWords .start words = other.checkWords .start words := by
      apply Scope.checkWords_congr
      intro word hword name hname
      apply h
      rw [htext]
      exact refers_of_name hderives hword hname fault.text
    have hfault : scope.check (.after .start front) fault.name? =
        other.check (.after .start front) fault.name? := by
      apply Scope.check_congr
      intro name hname
      apply h
      rw [htext]
      exact .intro hderives (fault.announces hvalid hname)
    rw [parse_of_fault hderives hvalid htext, parse_of_fault hderives hvalid htext, hwords, hfault]

theorem parse_anyName_of_parse {scope : Scope} (h : parse scope text = .ok template) :
    parse .anyName text = .ok template := by
  obtain ⟨words, hderives, -, rfl⟩ := exists_permitted_of_parse h
  exact parse_anyName_of_derives hderives

variable {first second : Context}

theorem Part.render_congr {part : Part}
    (hnames : ∀ name position, part = .placeholder ⟨.named name, position⟩ →
      (first.get? name).map Value.toText = (second.get? name).map Value.toText)
    (hdefault : ∀ position, part = .placeholder ⟨.default, position⟩ →
      first.default.toText = second.default.toText) :
    part.render first = part.render second := by
  cases part with
  | literal text => rfl
  | placeholder p =>
    obtain ⟨reference, position⟩ := p
    cases reference with
    | default => exact congrArg Except.ok (hdefault position rfl)
    | named name =>
      have h := hnames name position rfl
      unfold Part.render Placeholder.value
      dsimp only
      cases hfirst : first.get? name with
      | none =>
        rw [hfirst, Option.map_none, eq_comm, Option.map_eq_none_iff] at h
        rw [h]
      | some value =>
        rw [hfirst, Option.map_some, eq_comm, Option.map_eq_some_iff] at h
        obtain ⟨other, hsecond, htext⟩ := h
        rw [hsecond]
        exact congrArg Except.ok htext.symm

theorem usesDefault_of_mem {position : Position}
    (h : .placeholder ⟨.default, position⟩ ∈ template.parts) : template.usesDefault = true :=
  List.any_eq_true.mpr ⟨⟨.default, position⟩, mem_placeholders.mpr h, by simp⟩

theorem Agree.render_eq (h : template.Agree first second) :
    template.render first = template.render second := by
  have hparts : ∀ part ∈ template.parts, part.render first = part.render second := by
    intro part hpart
    apply Part.render_congr
    · rintro name position rfl
      exact h.names name (mem_names.mpr ⟨position, hpart⟩)
    · rintro position rfl
      exact h.default (usesDefault_of_mem hpart)
  obtain ⟨parts⟩ := template
  clear h
  induction parts with
  | nil => rfl
  | cons part parts ih =>
    obtain ⟨hpart, hrest⟩ := List.forall_mem_cons.mp hparts
    rw [render_cons, render_cons, hpart, ih hrest]

end Interpolation.Template
