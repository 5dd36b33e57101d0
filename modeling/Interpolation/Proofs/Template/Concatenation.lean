import Interpolation.Proofs.Template.Location
import Interpolation.Proofs.Template.Rendering
import Interpolation.Template.Relocation

/-! A template is read to its end without anything pending, so that a text behind it is read as if
it stood alone, only with its positions moved. The items of the two texts follow one another, and so
do their renderings. -/

namespace Interpolation.Template

def Mode.relocate (f : Position → Position) : Mode → Mode
  | text => text
  | opened brace => opened (f brace)
  | blanks brace => blanks (f brace)
  | named brace letters => named (f brace) letters
  | referred brace reference => referred (f brace) reference
  | closed brace => closed (f brace)

def State.relocate (f : Position → Position) (kept : List Item) (state : State) : State :=
  ⟨f state.position, state.mode.relocate f, state.items.map (Item.relocate f) ++ kept⟩

section Reader
variable (f : Position → Position) {scope : Scope}

def Mode.relocateNext (next : Next) : Next :=
  (next.mapError (Error.relocate f)).map fun (mode, item?) =>
    (mode.relocate f, item?.map (Item.relocate f))

theorem Mode.inside_relocate (brace here : Position) (c : Char) :
    inside (f brace) (f here) c = relocateNext f (inside brace here c) := by
  unfold inside
  split_ifs <;> rfl

theorem Mode.behind_relocate (brace here : Position) (reference : Reference) (c : Char) :
    behind (f brace) reference (f here) c = relocateNext f (behind brace reference here c) := by
  unfold behind
  split_ifs <;> rfl

theorem Mode.named?_relocate (brace : Position) (letters : List Char) :
    named? scope (f brace) letters = (named? scope brace letters).mapError (Error.relocate f) := by
  unfold named?
  dsimp only
  split_ifs <;> rfl

/-- The reader only hands positions on. -/
theorem Mode.next_relocate (mode : Mode) (here : Position) (c : Char) :
    (mode.relocate f).next scope (f here) c = relocateNext f (mode.next scope here c) := by
  cases mode with
  | text =>
    simp only [relocate, next]
    split_ifs <;> rfl
  | opened brace =>
    simp only [relocate, next]
    split_ifs
    · rfl
    · exact inside_relocate f brace here c
  | blanks brace => exact inside_relocate f brace here c
  | named brace letters =>
    simp only [relocate, next, named?_relocate]
    split_ifs
    · rfl
    · rfl
    · cases named? scope brace letters with
      | error e => rfl
      | ok reference => exact behind_relocate f brace here reference c
  | referred brace reference => exact behind_relocate f brace here reference c
  | closed brace =>
    simp only [relocate, next]
    split_ifs <;> rfl

theorem Mode.finish_relocate (mode : Mode) :
    (mode.relocate f).finish scope = (mode.finish scope).mapError (Error.relocate f) := by
  cases mode with
  | named brace letters =>
    simp only [relocate, finish, named?_relocate]
    split_ifs
    · rfl
    · cases named? scope brace letters <;> rfl
  | _ => rfl

variable {f} {state : State} (kept : List Item)

theorem State.step_relocate (c : Char)
    (hf : f (state.position.advance c) = (f state.position).advance c) :
    step scope (state.relocate f kept) c =
      ((step scope state c).mapError (Error.relocate f)).map (relocate f kept) := by
  have hnext : (state.mode.relocate f).next scope (f state.position) c = _ :=
    Mode.next_relocate f state.mode state.position c
  simp only [step, relocate, hnext, ← hf]
  cases state.mode.next scope state.position c with
  | error e => rfl
  | ok next =>
    obtain ⟨mode, item?⟩ := next
    cases item? <;> rfl

theorem State.finish_relocate : finish scope (state.relocate f kept) =
    ((finish scope state).mapError (Error.relocate f)).map
      fun items => kept.reverse ++ items.map (Item.relocate f) := by
  simp only [finish, relocate, Mode.finish_relocate]
  cases state.mode.finish scope with
  | error e => rfl
  | ok _ =>
    change Except.ok _ = Except.ok _
    simp

theorem State.position_of_step {c : Char} {next : State} (h : step scope state c = .ok next) :
    next.position = state.position.advance c := by
  simp only [step] at h
  cases hnext : state.mode.next scope state.position c with
  | error e =>
    rw [hnext] at h
    cases h
  | ok result =>
    rw [hnext] at h
    cases h
    rfl

/-- Reading on behind a text is reading from the start, moved behind that text. -/
theorem State.run_shift (hline : 0 < state.position.line) (before text : List Char) :
    run scope (state.relocate (.shift before) kept) text =
      ((run scope state text).mapError (Error.relocate (.shift before))).map
        fun items => kept.reverse ++ items.map (Item.relocate (.shift before)) := by
  -- The state is general, so that the induction can go on from the next, whose line is positive.
  induction text generalizing state with
  | nil => exact finish_relocate kept
  | cons c text ih =>
    rw [run_cons, run_cons, step_relocate kept c (Position.shift_advance hline before c)]
    cases hstep : step scope state c with
    | error e => rfl
    | ok next =>
      apply ih
      rw [position_of_step hstep]
      exact Position.line_pos_advance hline c

theorem items_append {words : List Word} {front : List Char} (derives : Derives words front)
    (permitted : scope.checkWords .start words = .ok ()) (text : List Char) :
    items scope (front ++ text) =
      ((items scope text).mapError (Error.relocate (.shift front))).map
        fun more => Word.items .start words ++ more.map (Item.relocate (.shift front)) := by
  have hstate : State.mk (.after .start front) .text ((Word.items .start words).reverse ++ []) =
      State.relocate (.shift front) (Word.items .start words).reverse .start := by
    rw [Position.after_start, ← Position.shift_start, List.append_nil]
    rfl
  rw [items_eq_run, items_eq_run, State.start, State.run_words derives, permitted]
  change State.run scope ⟨Position.start.after front, .text, _⟩ text = _
  rw [hstate, State.run_shift _ Nat.one_pos, List.reverse_reverse]
  rfl

end Reader

theorem Part.attach_eq (part : Part) (parts : List Part) :
    (∃ first second rest, part = .literal first ∧ parts = .literal second :: rest ∧
      part.attach parts = .literal (first ++ second) :: rest) ∨
    part.attach parts = part :: parts := by
  unfold attach
  split
  · exact .inl ⟨_, _, _, rfl, rfl, rfl⟩
  · exact .inr rfl

theorem Part.attach_flatMap_items (part : Part) (parts : List Part) :
    (part.attach parts).flatMap Part.items = part.items ++ parts.flatMap Part.items := by
  rcases part.attach_eq parts with ⟨first, second, rest, rfl, rfl, hattach⟩ | hattach
  · rw [hattach]
    simp [Part.items]
  · rw [hattach, List.flatMap_cons]

theorem concat_flatMap_items (parts more : List Part) :
    (concat parts more).flatMap Part.items =
      parts.flatMap Part.items ++ more.flatMap Part.items := by
  induction parts, more using concat.induct with
  | case1 more => rfl
  | case2 last more =>
    rw [concat, Part.attach_flatMap_items, List.flatMap_singleton]
  | case3 part next rest more ih =>
    rw [concat, List.flatMap_cons, ih, ← List.append_assoc, ← List.flatMap_cons]

theorem IsJoined.attach_literal {text : String} {parts : List Part} (hne : text ≠ "")
    (joined : IsJoined parts) : IsJoined ((Part.literal text).attach parts) := by
  have happend : ∀ second, text ++ second ≠ "" := by
    intro second h
    exact hne (String.append_eq_empty_iff.mp h).1
  cases joined with
  | nil => exact .literal hne
  | literal _ => exact .literal (happend _)
  | placeholder tail => exact .literalPlaceholder hne tail
  | literalPlaceholder _ tail => exact .literalPlaceholder (happend _) tail

theorem IsJoined.concat {parts more : List Part} (joined : IsJoined parts) (hmore : IsJoined more) :
    IsJoined (concat parts more) := by
  induction joined with
  | nil => exact hmore
  | literal hne => exact hmore.attach_literal hne
  | @placeholder p parts _ ih =>
    cases parts with
    | nil => exact .placeholder hmore
    | cons next rest => exact .placeholder ih
  | @literalPlaceholder text p parts hne _ ih =>
    cases parts with
    | nil => exact .literalPlaceholder hne hmore
    | cons next rest => exact .literalPlaceholder hne ih

/-- The parts of two texts meet in at most one literal. -/
theorem join_append (first second : List Item) :
    join [] (first ++ second) = concat (join [] first) (join [] second) := by
  have hjoined := (isJoined_join [] first).concat (isJoined_join [] second)
  have hitems : (concat (join [] first) (join [] second)).flatMap Part.items = first ++ second := by
    rw [concat_flatMap_items, join_flatMap_items, join_flatMap_items]
    rfl
  rw [← hitems]
  exact hjoined.join_eq

theorem literal_relocate (f : Position → Position) (run : List Char) :
    (literal run).map (Part.relocate f) = literal run := by
  cases run <;> rfl

theorem join_relocate (f : Position → Position) (run : List Char) (items : List Item) :
    join run (items.map (Item.relocate f)) = (join run items).map (Part.relocate f) := by
  induction items generalizing run with
  | nil => exact (literal_relocate f run.reverse).symm
  | cons item items ih =>
    cases item with
    | character c => exact ih (c :: run)
    | placeholder p =>
      have htail := ih []
      simp only [List.map_cons, Item.relocate, join, htail, List.map_append, literal_relocate,
        Part.relocate]

section Rendering
variable {context : Context}

theorem render_attach (part : Part) (parts : List Part) : render ⟨part.attach parts⟩ context =
    (part.render context).bind fun text => (render ⟨parts⟩ context).map (text ++ ·) := by
  rcases part.attach_eq parts with ⟨first, second, rest, rfl, rfl, hattach⟩ | hattach
  · rw [hattach, render_cons, render_cons]
    change (render ⟨rest⟩ context).map _ = ((render ⟨rest⟩ context).map _).map _
    cases render ⟨rest⟩ context with
    | error e => rfl
    | ok text => exact congrArg Except.ok String.append_assoc
  · rw [hattach, render_cons]

theorem render_append (first second : Template) : (first ++ second).render context =
    (first.render context).bind fun text => (second.render context).map (text ++ ·) := by
  obtain ⟨parts⟩ := first
  obtain ⟨more⟩ := second
  change render ⟨concat parts more⟩ context = _
  -- Only the last part of the first template is attached, so the cases are those of `concat`.
  induction parts, more using concat.induct with
  | case1 more =>
    rw [concat, render_nil]
    change render ⟨more⟩ context = (render ⟨more⟩ context).map _
    cases render ⟨more⟩ context with
    | error e => rfl
    | ok text => simp [Except.map]
  | case2 last more =>
    rw [concat, render_attach, render_cons, render_nil]
    cases last.render context with
    | error e => rfl
    | ok text => simp [Except.bind, Except.map]
  | case3 part next rest more ih =>
    rw [concat, render_cons, ih, render_cons part]
    cases part.render context with
    | error e => rfl
    | ok text =>
      cases render ⟨next :: rest⟩ context with
      | error e => rfl
      | ok front =>
        cases render ⟨more⟩ context with
        | error e => rfl
        | ok back => simp [Except.bind, Except.map, String.append_assoc]

theorem Part.render_relocate (f : Position → Position) (part : Part) :
    (part.relocate f).render context = (part.render context).mapError (RenderError.relocate f) := by
  cases part with
  | literal text => rfl
  | placeholder p =>
    obtain ⟨reference, position⟩ := p
    cases reference with
    | default => rfl
    | named name =>
      cases h : context.get? name with
      | none => simp [relocate, Part.render, Placeholder.relocate, Placeholder.value, h,
          Except.map, Except.mapError, RenderError.relocate]
      | some value => simp [relocate, Part.render, Placeholder.relocate, Placeholder.value, h,
          Except.map, Except.mapError]

theorem render_relocate (f : Position → Position) (template : Template) :
    (template.relocate f).render context =
      (template.render context).mapError (RenderError.relocate f) := by
  obtain ⟨parts⟩ := template
  induction parts with
  | nil => rfl
  | cons part parts ih =>
    change render ⟨part.relocate f :: parts.map (Part.relocate f)⟩ context = _
    have htail : render ⟨parts.map (Part.relocate f)⟩ context = _ := ih
    rw [render_cons, render_cons, Part.render_relocate, htail]
    cases part.render context with
    | error e => rfl
    | ok text => cases render ⟨parts⟩ context <;> rfl

end Rendering

theorem parse_append_eq {scope : Scope} {first : String} {template : Template}
    (h : parse scope first = .ok template) (second : String) : parse scope (first ++ second) =
      ((parse scope second).mapError (Error.relocate (.shift first.toList))).map
        fun more => template ++ more.relocate (.shift first.toList) := by
  obtain ⟨words, hderives, hcheck, rfl⟩ := exists_permitted_of_parse h
  rw [parse_eq, parse_eq, String.toList_append, items_append hderives hcheck]
  cases items scope second.toList with
  | error e => rfl
  | ok more =>
    change Except.ok (Template.mk (join [] (_ ++ _))) = Except.ok (Template.mk (concat _ _))
    rw [join_append, join_relocate]
    rfl

/-- Reading and rendering respect concatenation. Behind a text that is a template, another text
gives the same template or the same error as alone, only with its positions moved; the two templates
are put one behind the other, and so are the texts they render to, where the first error counts. -/
theorem parse_append (scope : Scope) (first second : String) (template : Template)
    (h : parse scope first = .ok template) :
    (∀ more, parse scope second = .ok more →
      parse scope (first ++ second) = .ok (template ++ more.relocate (.shift first.toList))) ∧
    (∀ e, parse scope second = .error e →
      parse scope (first ++ second) = .error (e.relocate (.shift first.toList))) ∧
    ∀ more, parse scope second = .ok more → ∀ context, ∃ whole,
      parse scope (first ++ second) = .ok whole ∧ whole.render context = do
        let front ← template.render context
        let back ← (more.render context).mapError (·.relocate (.shift first.toList))
        return front ++ back := by
  have happend := parse_append_eq h second
  have hok : ∀ more, parse scope second = .ok more →
      parse scope (first ++ second) = .ok (template ++ more.relocate (.shift first.toList)) := by
    intro more hmore
    rw [happend, hmore]
    rfl
  refine ⟨hok, ?_, ?_⟩
  · intro e he
    rw [happend, he]
    rfl
  · intro more hmore context
    refine ⟨_, hok more hmore, ?_⟩
    rw [render_append, render_relocate]
    rfl

/-- Braces on either side of the seam stay apart, and their literals become one. -/
theorem parse_append_braces :
    parse (.ofList ["x"]) "\x7b$x\x7dé\n\x7b\x7b" =
      .ok ⟨[.placeholder ⟨.named "x", ⟨0, 1, 1⟩⟩, .literal "é\n\x7b"]⟩ ∧
    parse (.ofList ["x"]) ("\x7b$x\x7dé\n\x7b\x7b" ++ "\x7d\x7d\x7b . \x7d") =
      .ok ⟨[.placeholder ⟨.named "x", ⟨0, 1, 1⟩⟩, .literal "é\n\x7b\x7d",
        .placeholder ⟨.default, ⟨11, 2, 5⟩⟩]⟩ ∧
    parse (.ofList ["x"]) ("\x7b$x\x7dé\n\x7b\x7b" ++ "\x7d\x7d\x7b$y") =
      .error (.undeclaredName "y" ⟨11, 2, 5⟩) := by
  have hfirst : parse (.ofList ["x"]) "\x7b$x\x7dé\n\x7b\x7b" =
      .ok ⟨[.placeholder ⟨.named "x", ⟨0, 1, 1⟩⟩, .literal "é\n\x7b"]⟩ := by decide +kernel
  have hmore : parse (.ofList ["x"]) "\x7d\x7d\x7b . \x7d" =
      .ok ⟨[.literal "\x7d", .placeholder ⟨.default, ⟨2, 1, 3⟩⟩]⟩ := by decide +kernel
  have herror : parse (.ofList ["x"]) "\x7d\x7d\x7b$y" =
      .error (.undeclaredName "y" ⟨2, 1, 3⟩) := by decide +kernel
  refine ⟨hfirst, ?_, ?_⟩
  · exact (parse_append _ _ _ _ hfirst).1 _ hmore
  · exact (parse_append _ _ _ _ hfirst).2.1 _ herror

end Interpolation.Template
