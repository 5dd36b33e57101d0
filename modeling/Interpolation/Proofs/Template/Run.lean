import Interpolation.Proofs.Name
import Interpolation.Template.Grammar

/-! What the reader makes of a text that begins with a word: it judges the name in the word, if
there is one, passes over the word and keeps the item. A word is read the same way whatever comes
behind it, so texts can be read word by word. -/

namespace Interpolation

namespace Position

variable (here : Position)

@[simp] theorem after_nil : here.after [] = here := rfl

@[simp] theorem after_cons (c : Char) (text : List Char) :
    here.after (c :: text) = (here.advance c).after text := rfl

@[simp] theorem after_append (a b : List Char) : here.after (a ++ b) = (here.after a).after b :=
  List.foldl_append

theorem offset_le_advance (c : Char) : here.offset ≤ (here.advance c).offset := by
  unfold advance
  split <;> simp

theorem offset_le_after (text : List Char) : here.offset ≤ (here.after text).offset := by
  induction text generalizing here with
  | nil => exact Nat.le_refl _
  | cons c text ih => exact Nat.le_trans (here.offset_le_advance c) (ih (here.advance c))

end Position

namespace Template

/-- The verdict on a name that has just been completed. -/
def Scope.check (scope : Scope) (brace : Position) : Option String → Except Error Unit
  | none => .ok ()
  | some name => if scope.permits name then .ok () else .error (.undeclaredName name brace)

@[simp] theorem Scope.check_none (scope : Scope) (brace : Position) :
    scope.check brace none = .ok () := rfl

@[simp] theorem Scope.check_anyName (brace : Position) (name? : Option String) :
    anyName.check brace name? = .ok () := by
  cases name? with
  | none => rfl
  | some name => rfl

theorem Scope.check_of_permits {scope : Scope} {brace : Position} {name? : Option String}
    (h : ∀ name, name? = some name → scope.permits name = true) :
    scope.check brace name? = .ok () := by
  cases name? with
  | none => rfl
  | some name => simp [check, h name rfl]

theorem Scope.check_of_not_permits {scope : Scope} {brace : Position} {name : String}
    (h : scope.permits name = false) :
    scope.check brace (some name) = .error (.undeclaredName name brace) := by
  simp [check, h]

theorem isSpellable_default : Reference.default.IsSpellable := by
  intro name hname
  cases hname

theorem isSpellable_named {name : String} (h : isName name = true) :
    (Reference.named name).IsSpellable := by
  intro other hother
  obtain rfl : name = other := Reference.named.inj hother
  exact h

theorem Reference.exists_spelling_eq_cons (reference : Reference) :
    ∃ mark letters, reference.spelling = mark :: letters ∧ Text.isBlank mark = false ∧
      mark ≠ '{' := by
  cases reference with
  | named name => exact ⟨'$', name.toList, rfl, by decide, by decide⟩
  | default => exact ⟨'.', [], rfl, by decide, by decide⟩

theorem isBlank_head?_spelling (reference : Reference) (rest : List Char) :
    ∀ c, (reference.spelling ++ rest).head? = some c → Text.isBlank c = false := by
  intro c hc
  obtain ⟨mark, letters, hspelling, hmark, -⟩ := reference.exists_spelling_eq_cons
  rw [hspelling] at hc
  obtain rfl : mark = c := by simpa using hc
  exact hmark

theorem isNameLetter_head?_closing {after : List Char} (rest : List Char)
    (hafter : ∀ c ∈ after, Text.isBlank c = true) :
    ∀ c, (after ++ '}' :: rest).head? = some c → isNameLetter c = false := by
  intro c hc
  cases after with
  | nil =>
    obtain rfl : '}' = c := by simpa using hc
    decide +kernel
  | cons d after =>
    obtain rfl : d = c := by simpa using hc
    exact isNameLetter_of_isBlank (hafter d List.mem_cons_self)

namespace State

def run (scope : Scope) (state : State) (text : List Char) : Except Error (List Item) := do
  let state ← text.foldlM (step scope) state
  state.finish scope

variable {scope : Scope} {here brace : Position} {reference : Reference} {kept : List Item}
  {rest : List Char}

theorem run_nil (state : State) : run scope state [] = state.finish scope := rfl

theorem run_cons (state : State) (c : Char) :
    run scope state (c :: rest) = (step scope state c).bind fun state => run scope state rest := by
  simp only [run, List.foldlM_cons, bind_assoc]
  rfl

theorem run_cons_of_next {mode mode' : Mode} {c : Char}
    (h : mode.next scope here c = .ok (mode', none)) :
    run scope ⟨here, mode, kept⟩ (c :: rest) = run scope ⟨here.advance c, mode', kept⟩ rest := by
  rw [run_cons]
  simp only [step, h]
  rfl

theorem run_cons_of_item {mode mode' : Mode} {c : Char} {item : Item}
    (h : mode.next scope here c = .ok (mode', some item)) :
    run scope ⟨here, mode, kept⟩ (c :: rest) =
      run scope ⟨here.advance c, mode', item :: kept⟩ rest := by
  rw [run_cons]
  simp only [step, h]
  rfl

theorem run_cons_of_error {mode : Mode} {c : Char} {e : Error}
    (h : mode.next scope here c = .error e) :
    run scope ⟨here, mode, kept⟩ (c :: rest) = .error e := by
  rw [run_cons]
  simp only [step, h]
  rfl

/-- Behind an opening brace only a second brace is special. -/
theorem run_opened (h : rest.head? ≠ some '{') :
    run scope ⟨here, .opened brace, kept⟩ rest = run scope ⟨here, .blanks brace, kept⟩ rest := by
  cases rest with
  | nil => rfl
  | cons c rest =>
    have hc : c ≠ '{' := fun heq => h (by simp [heq])
    rw [run_cons, run_cons]
    simp only [step, Mode.next, if_neg hc]

theorem run_blanks {blanks : List Char} (h : ∀ c ∈ blanks, Text.isBlank c = true) :
    run scope ⟨here, .blanks brace, kept⟩ (blanks ++ rest) =
      run scope ⟨here.after blanks, .blanks brace, kept⟩ rest := by
  induction blanks generalizing here with
  | nil => rfl
  | cons c blanks ih =>
    have hc := h c List.mem_cons_self
    have hnext : (Mode.blanks brace).next scope here c = .ok (.blanks brace, none) := by
      simp [Mode.next, Mode.inside, hc]
    rw [List.cons_append, run_cons_of_next hnext, ih fun x hx => h x (List.mem_cons_of_mem c hx)]
    rfl

theorem run_opening {blanks : List Char} (h : ∀ c ∈ blanks, Text.isBlank c = true)
    (hrest : blanks = [] → rest.head? ≠ some '{') :
    run scope ⟨here, .text, kept⟩ ('{' :: blanks ++ rest) =
      run scope ⟨here.after ('{' :: blanks), .blanks here, kept⟩ rest := by
  have hhead : (blanks ++ rest).head? ≠ some '{' := by
    cases blanks with
    | nil => exact hrest rfl
    | cons c blanks =>
      have hc := h c List.mem_cons_self
      simp only [List.cons_append, List.head?_cons, ne_eq, Option.some.injEq]
      rintro rfl
      cases hc
  rw [List.cons_append, run_cons_of_next rfl, run_opened hhead, run_blanks h]
  rfl

theorem run_letters {read letters : List Char} (h : ∀ c ∈ letters, isNameLetter c = true) :
    run scope ⟨here, .named brace read, kept⟩ (letters ++ rest) =
      run scope ⟨here.after letters, .named brace (letters.reverse ++ read), kept⟩ rest := by
  induction letters generalizing here read with
  | nil => rfl
  | cons c letters ih =>
    have hc := h c List.mem_cons_self
    have hnext : (Mode.named brace read).next scope here c =
        .ok (.named brace (c :: read), none) := by
      simp [Mode.next, hc]
    rw [List.cons_append, run_cons_of_next hnext, ih fun x hx => h x (List.mem_cons_of_mem c hx)]
    simp

/-- A name is judged before the character behind it is looked at. -/
theorem run_named {letters : List Char} (hne : letters ≠ [])
    (hrest : ∀ c, rest.head? = some c → isNameLetter c = false) :
    run scope ⟨here, .named brace letters, kept⟩ rest =
      (scope.check brace (some (String.ofList letters.reverse))).bind fun _ =>
        run scope ⟨here, .referred brace (.named (String.ofList letters.reverse)), kept⟩ rest := by
  have hempty : letters.isEmpty = false := by simpa using hne
  cases rest with
  | nil =>
    simp only [run_nil, finish, Mode.finish, hempty, Mode.named?, Scope.check]
    cases scope.permits (String.ofList letters.reverse) <;> rfl
  | cons c rest =>
    have hc := hrest c rfl
    rw [run_cons, run_cons]
    simp only [step, Mode.next, hc, hempty, Mode.named?, Scope.check]
    cases scope.permits (String.ofList letters.reverse) <;> rfl

/-- A reference is read as a whole if nothing behind it prolongs it. -/
theorem run_reference (hspell : reference.IsSpellable)
    (hrest : reference ≠ .default → ∀ c, rest.head? = some c → isNameLetter c = false) :
    run scope ⟨here, .blanks brace, kept⟩ (reference.spelling ++ rest) =
      (scope.check brace reference.name?).bind fun _ =>
        run scope ⟨here.after reference.spelling, .referred brace reference, kept⟩ rest := by
  cases reference with
  | default => exact run_cons_of_next (c := '.') rfl
  | named name =>
    obtain ⟨hne, hletters⟩ := isName_iff.mp (hspell name rfl)
    have hnext : (Mode.blanks brace).next scope here '$' = .ok (.named brace [], none) := rfl
    simp only [Reference.spelling, List.cons_append]
    rw [run_cons_of_next hnext, run_letters hletters,
      run_named (by simpa using hne) (hrest (by simp))]
    simp [Reference.name?]

theorem run_referred {blanks : List Char} (h : ∀ c ∈ blanks, Text.isBlank c = true) :
    run scope ⟨here, .referred brace reference, kept⟩ (blanks ++ rest) =
      run scope ⟨here.after blanks, .referred brace reference, kept⟩ rest := by
  induction blanks generalizing here with
  | nil => rfl
  | cons c blanks ih =>
    have hc := h c List.mem_cons_self
    have hbrace : c ≠ '}' := by
      rintro rfl
      cases hc
    have hnext : (Mode.referred brace reference).next scope here c =
        .ok (.referred brace reference, none) := by
      simp [Mode.next, Mode.behind, hc, hbrace]
    rw [List.cons_append, run_cons_of_next hnext, ih fun x hx => h x (List.mem_cons_of_mem c hx)]
    rfl

theorem run_word {word : Word} (valid : word.IsValid) :
    run scope ⟨here, .text, kept⟩ (word.text ++ rest) =
      (scope.check here word.name?).bind fun _ =>
        run scope ⟨here.after word.text, .text, word.item here :: kept⟩ rest := by
  cases valid with
  | openingBrace => exact (run_cons_of_next rfl).trans (run_cons_of_item rfl)
  | closingBrace => exact (run_cons_of_next rfl).trans (run_cons_of_item rfl)
  | @character c hopen hclose =>
    exact run_cons_of_item (by simp [Mode.next, hopen, hclose, Word.item])
  | @placeholder before after reference hbefore hreference hafter =>
    obtain ⟨mark, letters, hspelling, -, hmark⟩ := reference.exists_spelling_eq_cons
    have htext : (Word.placeholder before reference after).text ++ rest =
        '{' :: before ++ (reference.spelling ++ (after ++ '}' :: rest)) := by
      simp [Word.text]
    rw [htext, run_opening hbefore (by simp [hspelling, hmark]),
      run_reference hreference fun _ => isNameLetter_head?_closing rest hafter, run_referred hafter,
        run_cons_of_item rfl]
    simp [Word.text, Word.name?, Word.item]

end State

/-- The verdict on all names in words, the first of which begins at a position. -/
def Scope.checkWords (scope : Scope) (here : Position) : List Word → Except Error Unit
  | [] => .ok ()
  | word :: words =>
    (scope.check here word.name?).bind fun _ => scope.checkWords (here.after word.text) words

namespace State

variable {scope : Scope} {here : Position} {kept : List Item} {rest : List Char}

theorem run_words {words : List Word} {text : List Char} (derives : Derives words text) :
    run scope ⟨here, .text, kept⟩ (text ++ rest) =
      (scope.checkWords here words).bind fun _ =>
        run scope ⟨here.after text, .text, (Word.items here words).reverse ++ kept⟩ rest := by
  induction derives generalizing here kept with
  | nil => rfl
  | @cons word words text valid _ ih =>
    rw [List.append_assoc, run_word valid, Scope.checkWords]
    cases scope.check here word.name? with
    | error e => rfl
    | ok _ =>
      change run scope ⟨here.after word.text, .text, word.item here :: kept⟩ (text ++ rest) = _
      rw [ih]
      simp [Except.bind, Word.items]

end State

theorem Scope.checkWords_of_permits {scope : Scope} {here : Position} {words : List Word}
    (h : ∀ word ∈ words, ∀ name, word.name? = some name → scope.permits name = true) :
    scope.checkWords here words = .ok () := by
  induction words generalizing here with
  | nil => rfl
  | cons word words ih =>
    rw [checkWords, check_of_permits (h word List.mem_cons_self)]
    exact ih fun x hx => h x (List.mem_cons_of_mem word hx)

@[simp] theorem Scope.checkWords_anyName (here : Position) (words : List Word) :
    anyName.checkWords here words = .ok () :=
  checkWords_of_permits fun _ _ _ _ => rfl

end Template

end Interpolation
