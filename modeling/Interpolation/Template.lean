import Interpolation.Name

/-! A template is a sequence of literal texts and placeholders. A placeholder refers to a name or to
the default and remembers where its opening brace stands. In an open scope a template may refer to
any name, in a closed one, even an empty one, only to the names declared. -/

namespace Interpolation

/-- A place in a text: bytes of UTF-8 before it, and line and column counted from one, the column
in characters. Only a line feed begins a line. -/
structure Position where
  offset : Nat
  line : Nat
  column : Nat
deriving DecidableEq

namespace Position

def start : Position :=
  ⟨0, 1, 1⟩

def advance (position : Position) (c : Char) : Position :=
  if c = '\n' then ⟨position.offset + c.utf8Size, position.line + 1, 1⟩
  else ⟨position.offset + c.utf8Size, position.line, position.column + 1⟩

def after (position : Position) (text : List Char) : Position :=
  text.foldl advance position

def toText (position : Position) : String :=
  s!"line {position.line}, column {position.column}"

end Position

namespace Template

inductive Reference
  | named (name : String)
  | default
deriving DecidableEq

structure Placeholder where
  reference : Reference
  position : Position
deriving DecidableEq

inductive Part
  | literal (text : String)
  | placeholder (placeholder : Placeholder)
deriving DecidableEq

def Reference.name? : Reference → Option String
  | named name => some name
  | default => none

def Part.placeholder? : Part → Option Placeholder
  | literal _ => none
  | placeholder p => some p

def Part.literal? : Part → Option String
  | literal text => some text
  | placeholder _ => none

end Template

structure Template where
  parts : List Template.Part
deriving DecidableEq

namespace Template

def placeholders (template : Template) : List Placeholder :=
  template.parts.filterMap Part.placeholder?

def names (template : Template) : NameSet :=
  .ofList (template.placeholders.filterMap (·.reference.name?))

def usesDefault (template : Template) : Bool :=
  template.placeholders.any (·.reference = .default)

def literalText (template : Template) : String :=
  String.join (template.parts.filterMap Part.literal?)

structure Summary where
  names : List String
  usesDefault : Bool
  placeholders : Nat
deriving DecidableEq

def summary (template : Template) : Summary :=
  ⟨template.names.toList, template.usesDefault, template.placeholders.length⟩

inductive Scope
  | anyName
  | only (names : NameSet)
deriving DecidableEq

namespace Scope

def ofList (names : List String) : Scope :=
  only (.ofList names)

def names? : Scope → Option NameSet
  | anyName => none
  | only names => some names

def isClosed : Scope → Bool
  | anyName => false
  | only _ => true

/-- Adds a name; an open scope is closed by its first one. -/
def declare (name : String) : Scope → Scope
  | anyName => ofList [name]
  | only names => only (names.insert name)

def permits (name : String) : Scope → Bool
  | anyName => true
  | only names => names.contains name

end Scope

end Template

end Interpolation
