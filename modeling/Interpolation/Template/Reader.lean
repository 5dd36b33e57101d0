import Interpolation.Name
import Interpolation.Template
import Interpolation.Text

/-! A doubled brace stands for the brace, and a placeholder is `.` or `$` and a name between braces,
with blanks around it. The reader is an automaton: it looks at each character once, in order, and
what it has read so far is all in its state. The first fault ends the reading; a text that ends
inside a placeholder or after a single closing brace is at fault at its end. -/

namespace Interpolation.Template

inductive Error
  | unclosedPlaceholder (position : Position)
  | strayClosingBrace (position : Position)
  | emptyPlaceholder (position : Position)
  | missingName (position : Position)
  | unexpectedCharacter (found : Char) (position : Position)
  | undeclaredName (name : String) (position : Position)
deriving DecidableEq

namespace Error

def position : Error → Position
  | unclosedPlaceholder p => p
  | strayClosingBrace p => p
  | emptyPlaceholder p => p
  | missingName p => p
  | unexpectedCharacter _ p => p
  | undeclaredName _ p => p

def message : Error → String
  | unclosedPlaceholder p => s!"unterminated placeholder starting at {p.toText}"
  | strayClosingBrace p =>
    s!"unexpected closing brace at {p.toText} (use '\x7d\x7d' for a literal brace)"
  | emptyPlaceholder p => s!"empty placeholder at {p.toText}"
  | missingName p => s!"expected variable name after '$' at {p.toText}"
  | unexpectedCharacter c p => s!"unexpected character '{c}' in placeholder at {p.toText}"
  | undeclaredName name p => s!"unknown variable '{name}' at {p.toText}"

end Error

/-- What a template is read as, before adjacent characters are joined. -/
inductive Item
  | character (c : Char)
  | placeholder (placeholder : Placeholder)
deriving DecidableEq

/-- Where the reader stands. The position is that of the brace that was opened or closed. -/
inductive Mode
  | text
  | opened (brace : Position)
  | blanks (brace : Position)
  | named (brace : Position) (letters : List Char)
  | referred (brace : Position) (reference : Reference)
  | closed (brace : Position)
deriving DecidableEq

namespace Mode

abbrev Next := Except Error (Mode × Option Item)

def inside (brace here : Position) (c : Char) : Next :=
  if Text.isBlank c then .ok (blanks brace, none)
  else if c = '.' then .ok (referred brace .default, none)
  else if c = '$' then .ok (named brace [], none)
  else if c = '}' then .error (.emptyPlaceholder brace)
  else .error (.unexpectedCharacter c here)

def behind (brace : Position) (reference : Reference) (here : Position) (c : Char) : Next :=
  if c = '}' then .ok (text, some (.placeholder ⟨reference, brace⟩))
  else if Text.isBlank c then .ok (referred brace reference, none)
  else .error (.unexpectedCharacter c here)

/-- A name is judged as soon as its last letter is known. -/
def named? (scope : Scope) (brace : Position) (letters : List Char) :
    Except Error Reference :=
  let name := String.ofList letters.reverse
  if scope.permits name then .ok (.named name) else .error (.undeclaredName name brace)

def next (scope : Scope) : Mode → Position → Char → Next
  | text, here, c =>
    if c = '{' then .ok (opened here, none)
    else if c = '}' then .ok (closed here, none)
    else .ok (text, some (.character c))
  | opened brace, here, c =>
    if c = '{' then .ok (text, some (.character c)) else inside brace here c
  | blanks brace, here, c => inside brace here c
  | named brace letters, here, c =>
    if isNameLetter c then .ok (named brace (c :: letters), none)
    else if letters.isEmpty then .error (.missingName here)
    else do
      let reference ← named? scope brace letters
      behind brace reference here c
  | referred brace reference, here, c => behind brace reference here c
  | closed brace, _, c =>
    if c = '}' then .ok (text, some (.character c)) else .error (.strayClosingBrace brace)

/-- What the end of the text means; here too a name is judged first. -/
def finish (scope : Scope) : Mode → Except Error Unit
  | text => .ok ()
  | opened brace => .error (.unclosedPlaceholder brace)
  | blanks brace => .error (.unclosedPlaceholder brace)
  | named brace letters =>
    if letters.isEmpty then .error (.unclosedPlaceholder brace)
    else do
      let _ ← named? scope brace letters
      .error (.unclosedPlaceholder brace)
  | referred brace _ => .error (.unclosedPlaceholder brace)
  | closed brace => .error (.strayClosingBrace brace)

end Mode

structure State where
  position : Position
  mode : Mode
  items : List Item

namespace State

def start : State :=
  ⟨.start, .text, []⟩

def step (scope : Scope) (state : State) (c : Char) : Except Error State := do
  let (mode, item?) ← state.mode.next scope state.position c
  return ⟨state.position.advance c, mode, item?.toList ++ state.items⟩

def finish (scope : Scope) (state : State) : Except Error (List Item) := do
  state.mode.finish scope
  return state.items.reverse

end State

def items (scope : Scope) (text : List Char) : Except Error (List Item) := do
  let state ← text.foldlM (State.step scope) .start
  state.finish scope

def literal : List Char → List Part
  | [] => []
  | run => [.literal (String.ofList run)]

/-- The run under way is kept with its newest character first. -/
def join (run : List Char) : List Item → List Part
  | [] => literal run.reverse
  | .character c :: rest => join (c :: run) rest
  | .placeholder p :: rest => literal run.reverse ++ .placeholder p :: join [] rest

def parse (scope : Scope) (text : String) : Except Error Template := do
  let items ← items scope text.toList
  return ⟨join [] items⟩

end Interpolation.Template
