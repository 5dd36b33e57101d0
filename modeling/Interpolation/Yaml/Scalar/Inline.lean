import Interpolation.Text
import Interpolation.Yaml.Character

/-! Scalars in single quotes, in double quotes and without any. Between single quotes only a quote
is written in another way, twice; between double quotes every character can be written, by an escape
if it cannot be shown. A plain scalar ends before `: `, before ` #`, at a document mark, in a
collection between brackets also at the brackets and commas, and elsewhere at a line that is not
indented to the margin. -/

namespace Interpolation.Yaml.Single

def read? (gap : Gap) : List Char → Option (List Char × List Char)
  | [] => none
  | c :: rest =>
    if isBlank c || isBreak c then read? (gap.push c) rest
    else if gap.atLineStart && isDocumentMark (c :: rest) then none
    else if c = '\'' then
      match rest with
      | '\'' :: rest => (read? .empty rest).map fun (content, rest) =>
          (gap.text ++ '\'' :: content, rest)
      | rest => some (gap.text, rest)
    else (read? .empty rest).map fun (content, rest) => (gap.text ++ c :: content, rest)

def writeChars (indent : Nat) (broken : Bool) : List Char → List Char
  | [] => []
  | c :: rest =>
    let body := if c = '\'' then ['\'', '\''] else [c]
    if isBreak c then body ++ writeChars indent true rest
    else
      (if broken then List.replicate indent ' ' else []) ++ body ++ writeChars indent false rest

def write (indent : Nat) (text : List Char) : List Char :=
  let last := if (text.getLast?.any isBreak) then List.replicate indent ' ' else []
  '\'' :: writeChars indent false text ++ last ++ ['\'']

end Interpolation.Yaml.Single

namespace Interpolation.Yaml.Double

def unescape? : Char → Option Char
  | '0' => some '\x00'
  | 'a' => some '\x07'
  | 'b' => some '\x08'
  | 't' => some '\t'
  | '\t' => some '\t'
  | 'n' => some '\n'
  | 'v' => some '\x0b'
  | 'f' => some '\x0c'
  | 'r' => some '\r'
  | 'e' => some '\x1b'
  | ' ' => some ' '
  | '"' => some '"'
  | '/' => some '/'
  | '\\' => some '\\'
  | 'N' => some '\x85'
  | '_' => some '\xa0'
  | 'L' => some '\u2028'
  | 'P' => some '\u2029'
  | _ => none

def ofHex? (digits : List Char) : Option Char := do
  let code ← Text.ofDigits? 16 digits
  if code < 0xd800 ∨ (0xdfff < code ∧ code < 0x110000) then some (Char.ofNat code) else none

def read? (gap : Gap) : List Char → Option (List Char × List Char)
  | [] => none
  | c :: rest =>
    if isBlank c || isBreak c then read? (gap.push c) rest
    else if gap.atLineStart && isDocumentMark (c :: rest) then none
    else if c = '"' then some (gap.text, rest)
    else if c = '\\' then
      match rest with
      | [] => none
      | 'x' :: a :: b :: rest => do
        let c ← ofHex? [a, b]
        (read? .empty rest).map fun (content, rest) => (gap.text ++ c :: content, rest)
      | 'u' :: a :: b :: c :: d :: rest => do
        let c ← ofHex? [a, b, c, d]
        (read? .empty rest).map fun (content, rest) => (gap.text ++ c :: content, rest)
      | 'U' :: a :: b :: c :: d :: e :: f :: g :: h :: rest => do
        let c ← ofHex? [a, b, c, d, e, f, g, h]
        (read? .empty rest).map fun (content, rest) => (gap.text ++ c :: content, rest)
      | c :: rest =>
        if isBreak c then
          (read? .escapedBreak rest).map fun (content, rest) => (gap.text ++ content, rest)
        else do
          let c ← unescape? c
          (read? .empty rest).map fun (content, rest) => (gap.text ++ c :: content, rest)
    else (read? .empty rest).map fun (content, rest) => (gap.text ++ c :: content, rest)

/-- Characters that are shown as they are; a tab is not among them. -/
def isPrintable (c : Char) : Bool :=
  let n := c.toNat
  n == 0x0a || (0x20 ≤ n && n ≤ 0x7e) || (0xa0 ≤ n && n ≤ 0xfffd && n != 0xfeff) || 0x10000 ≤ n

def hexDigits (count n : Nat) : List Char :=
  (Text.toDigits 16 count n).map Char.toUpper

def escape : Char → List Char
  | '\x00' => ['\\', '0']
  | '\x07' => ['\\', 'a']
  | '\x08' => ['\\', 'b']
  | '\t' => ['\\', 't']
  | '\n' => ['\\', 'n']
  | '\x0b' => ['\\', 'v']
  | '\x0c' => ['\\', 'f']
  | '\r' => ['\\', 'r']
  | '\x1b' => ['\\', 'e']
  | '"' => ['\\', '"']
  | '\\' => ['\\', '\\']
  | '\x85' => ['\\', 'N']
  | '\xa0' => ['\\', '_']
  | '\u2028' => ['\\', 'L']
  | '\u2029' => ['\\', 'P']
  | c =>
    if c.toNat ≤ 0xff then '\\' :: 'x' :: hexDigits 2 c.toNat
    else if c.toNat ≤ 0xffff then '\\' :: 'u' :: hexDigits 4 c.toNat
    else '\\' :: 'U' :: hexDigits 8 c.toNat

def writeChar (c : Char) : List Char :=
  if !isPrintable c || isBreak c || c == '"' || c == '\\' then escape c else [c]

def write (text : List Char) : List Char :=
  '"' :: text.flatMap writeChar ++ ['"']

end Interpolation.Yaml.Double

namespace Interpolation.Yaml.Plain

def isFlowIndicator (c : Char) : Bool :=
  c == ',' || c == '[' || c == ']' || c == '{' || c == '}'

def endsBefore (flow : Bool) (c : Char) (rest : List Char) : Bool :=
  (c == ':' && endsWord rest) || (flow && isFlowIndicator c)

/-- Between brackets a colon may not touch an indicator. -/
def isMisplacedColon (flow : Bool) (c : Char) (rest : List Char) : Bool :=
  flow && c == ':' && rest.head?.any fun next => isFlowIndicator next || next == '?'

def endsWithGap (margin : Nat) (flow : Bool) (gap : Gap) (c : Char) (rest : List Char) : Bool :=
  !gap.isEmpty &&
    (c == '#' || (gap.atLineStart && isDocumentMark (c :: rest)) ||
      (!flow && gap.isBroken && gap.column < margin))

structure Read where
  content : List Char
  broken : Bool
  rest : List Char

/-- A tab may not take part in the indentation of a line. -/
def read? (margin : Nat) (flow : Bool) (gap : Gap) : List Char → Option Read
  | [] => some ⟨[], gap.isBroken, []⟩
  | c :: rest =>
    if isBlank c || isBreak c then
      if c == '\t' && gap.isBroken && gap.column < margin then none
      else read? margin flow (gap.push c) rest
    else if endsWithGap margin flow gap c rest then some ⟨[], gap.isBroken, c :: rest⟩
    else if isMisplacedColon flow c rest then none
    else if endsBefore flow c rest then some ⟨[], gap.isBroken, c :: rest⟩
    else (read? margin flow .empty rest).map fun read =>
      { read with content := gap.text ++ c :: read.content }

end Interpolation.Yaml.Plain
