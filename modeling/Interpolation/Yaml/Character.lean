/-! Which characters a document may hold, which of them separate words and lines, and where in a
document one stands. A carriage return, alone or before a line feed, and the control "next line"
become line feeds before anything else is looked at; the two Unicode separators also end a line, but
stay what they are. A gap is what lies between two words of a scalar that may go on over several
lines. -/

namespace Interpolation.Yaml

def isBreak (c : Char) : Bool :=
  c == '\n' || c == '\u2028' || c == '\u2029'

def isBlank (c : Char) : Bool :=
  c == ' ' || c == '\t'

def endsWord : List Char → Bool
  | [] => true
  | c :: _ => isBlank c || isBreak c

def isWordChar (c : Char) : Bool :=
  c.isAlphanum || c == '_' || c == '-'

def isReadable (c : Char) : Bool :=
  let n := c.toNat
  n == 0x09 || n == 0x0a || n == 0x0d || (0x20 ≤ n && n ≤ 0x7e) || n == 0x85 ||
    (0xa0 ≤ n && n ≤ 0xfffd) || 0x10000 ≤ n

/-- `---` or `...` as a word of its own, which ends a document at the start of a line. -/
def isDocumentMark : List Char → Bool
  | '-' :: '-' :: '-' :: rest => endsWord rest
  | '.' :: '.' :: '.' :: rest => endsWord rest
  | _ => false

def normalizeBreaks : List Char → List Char
  | [] => []
  | '\r' :: '\n' :: rest => '\n' :: normalizeBreaks rest
  | '\r' :: rest => '\n' :: normalizeBreaks rest
  | '\x85' :: rest => '\n' :: normalizeBreaks rest
  | c :: rest => c :: normalizeBreaks rest

/-- The text of a document, ready for reading. A byte order mark in front is dropped; a second one
counts as a space. -/
def source? (text : List Char) : Option (List Char) :=
  let text := match text with
    | '\ufeff' :: '\ufeff' :: rest => ' ' :: rest
    | '\ufeff' :: rest => rest
    | text => text
  if text.all isReadable then some (normalizeBreaks text) else none

structure Mark where
  index : Nat
  line : Nat
  column : Nat
deriving DecidableEq

namespace Mark

def start : Mark :=
  ⟨0, 0, 0⟩

def advance (mark : Mark) (c : Char) : Mark :=
  if isBreak c then ⟨mark.index + 1, mark.line + 1, 0⟩
  else ⟨mark.index + 1, mark.line, mark.column + 1⟩

def advanceAll (mark : Mark) (text : List Char) : Mark :=
  text.foldl advance mark

end Mark

structure Gap where
  blanks : List Char
  breaks : List Char
  column : Nat
  escaped : Bool

namespace Gap

def empty : Gap :=
  ⟨[], [], 0, false⟩

def escapedBreak : Gap :=
  ⟨[], [], 0, true⟩

def isBroken (gap : Gap) : Bool :=
  gap.escaped || !gap.breaks.isEmpty

def isEmpty (gap : Gap) : Bool :=
  gap.blanks.isEmpty && !gap.isBroken

def push (gap : Gap) (c : Char) : Gap :=
  if isBreak c then { gap with breaks := gap.breaks ++ [c], column := 0 }
  else if gap.isBroken then { gap with column := gap.column + 1 }
  else { gap with blanks := gap.blanks ++ [c] }

def atLineStart (gap : Gap) : Bool :=
  gap.isBroken && gap.column == 0

/-- Blanks within a line stay, and those around breaks do not. A single line feed becomes a space,
and of more breaks the first is dropped if it is a line feed. Behind an escaped break every break
stays. -/
def text (gap : Gap) : List Char :=
  if gap.escaped then gap.breaks
  else match gap.breaks with
    | [] => gap.blanks
    | ['\n'] => [' ']
    | '\n' :: more => more
    | breaks => breaks

end Gap

end Interpolation.Yaml
