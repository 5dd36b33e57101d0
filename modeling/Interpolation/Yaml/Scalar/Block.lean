import Interpolation.Yaml.Character

/-! A block scalar is a header and indented lines. The header says whether line ends are kept or
folded, what becomes of the last of them, and, if it must, how deep the lines are indented. Only the
literal form is written. -/

namespace Interpolation.Yaml.Block

/-- What becomes of the line ends behind the last line: none stays, one stays, all stay. -/
inductive Chomping
  | strip
  | clip
  | keep
deriving DecidableEq

structure Header where
  chomping : Chomping
  increment? : Option Nat
deriving DecidableEq

def increment? (c : Char) : Option Nat :=
  if c.isDigit && c != '0' then some (c.toNat - '0'.toNat) else none

def chomping? : Char → Option Chomping
  | '+' => some .keep
  | '-' => some .strip
  | _ => none

/-- The two indicators may come in either order, each once. A zero is no indentation. -/
def header? : List Char → Option (Header × List Char)
  | [] => some (⟨.clip, none⟩, [])
  | a :: rest =>
    match chomping? a with
    | some chomping =>
      match rest with
      | [] => some (⟨chomping, none⟩, [])
      | b :: rest =>
        if b.isDigit then (increment? b).map fun n => (⟨chomping, some n⟩, rest)
        else some (⟨chomping, none⟩, b :: rest)
    | none =>
      if a.isDigit then do
        let n ← increment? a
        match rest with
        | [] => some (⟨.clip, some n⟩, [])
        | b :: rest =>
          match chomping? b with
          | some chomping => some (⟨chomping, some n⟩, rest)
          | none => some (⟨.clip, some n⟩, b :: rest)
      else some (⟨.clip, none⟩, a :: rest)

def endLine? (text : List Char) : Option (List Char) :=
  let text := text.dropWhile isBlank
  let text := if text.head? == some '#' then text.dropWhile (!isBreak ·) else text
  match text with
  | [] => some []
  | c :: rest => if isBreak c then some rest else none

/-- Empty lines in front of the first line, and how deep the deepest of all is indented. -/
structure Opening where
  breaks : List Char
  column : Nat
  deepest : Nat
  rest : List Char

def opening? (breaks : List Char) (column deepest : Nat) : List Char → Option Opening
  | [] => some ⟨breaks, column, max deepest column, []⟩
  | c :: rest =>
    if c = ' ' then opening? breaks (column + 1) deepest rest
    else if c = '\t' then none
    else if isBreak c then opening? (breaks ++ [c]) 0 (max deepest column) rest
    else some ⟨breaks, column, max deepest column, c :: rest⟩

/-- Where the reading of lines stands: the break that ended the last line, the empty lines behind
it, and whether the last line began with a blank. -/
structure Lines where
  lastBreak : List Char
  emptyLines : List Char
  blank : Bool

/-- The line ends in front of a line. When folding, a line feed between two lines that do not begin
with a blank becomes a space, or nothing if there are empty lines. -/
def Lines.join (lines : Lines) (folded : Bool) (first : Char) : List Char :=
  if folded && lines.lastBreak == ['\n'] && !lines.blank && !isBlank first then
    if lines.emptyLines.isEmpty then [' '] else lines.emptyLines
  else lines.lastBreak ++ lines.emptyLines

def Lines.chomp (lines : Lines) : Chomping → List Char
  | .strip => []
  | .clip => lines.lastBreak
  | .keep => lines.lastBreak ++ lines.emptyLines

structure Style where
  folded : Bool
  chomping : Chomping
  indent : Nat

/-- Reads lines from a column on; without a column, from within a line. -/
def lines? (style : Style) (lines : Lines) (column? : Option Nat) :
    List Char → Option (List Char × List Char)
  | [] => some (lines.chomp style.chomping, [])
  | c :: rest =>
    match column? with
    | none =>
      if isBreak c then lines? style { lines with lastBreak := [c], emptyLines := [] } (some 0) rest
      else (lines? style lines none rest).map fun (content, rest) => (c :: content, rest)
    | some column =>
      if isBreak c then
        lines? style { lines with emptyLines := lines.emptyLines ++ [c] } (some 0) rest
      else if column < style.indent then
        if c = ' ' then lines? style lines (some (column + 1)) rest
        else if c = '\t' then none
        else some (lines.chomp style.chomping, c :: rest)
      else if column = style.indent then
        (lines? style ⟨[], [], isBlank c⟩ none rest).map fun (content, rest) =>
          (lines.join style.folded c ++ c :: content, rest)
      else some (lines.chomp style.chomping, c :: rest)

/-- The parent's indentation is missing outside of all collections. -/
def read? (folded : Bool) (parent? : Option Nat) (text : List Char) :
    Option (List Char × List Char) := do
  let (header, text) ← header? text
  let text ← endLine? text
  match header.increment? with
  | some n =>
    lines? ⟨folded, header.chomping, parent?.getD 0 + n⟩ ⟨[], [], false⟩ (some 0) text
  | none =>
    let opening ← opening? [] 0 0 text
    let indent := max opening.deepest (max (parent?.elim 0 (· + 1)) 1)
    lines? ⟨folded, header.chomping, indent⟩ ⟨[], opening.breaks, false⟩ (some opening.column)
      opening.rest

/-- One break at the end is clipped to. A text that is a single break needs to keep it. -/
def chompingOf (text : List Char) : Chomping :=
  match text.reverse with
  | [] => .strip
  | [c] => if isBreak c then .keep else .strip
  | c :: d :: _ => if isBreak c then (if isBreak d then .keep else .clip) else .strip

/-- Without a hint the first line would tell the indentation, which one that begins with a space or
a break cannot. -/
def needsHint (text : List Char) : Bool :=
  text.head?.any fun c => c == ' ' || isBreak c

def writeHeader (text : List Char) : List Char :=
  '|' :: (if needsHint text then ['2'] else []) ++
    match chompingOf text with
    | .strip => ['-']
    | .clip => []
    | .keep => ['+']

def writeLines (indent : Nat) (lineStart : Bool) : List Char → List Char
  | [] => []
  | c :: rest =>
    if isBreak c then c :: writeLines indent true rest
    else
      (if lineStart then List.replicate indent ' ' else []) ++ c :: writeLines indent false rest

def write (indent : Nat) (text : List Char) : List Char :=
  writeHeader text ++ '\n' :: writeLines indent true text

end Interpolation.Yaml.Block
