import Interpolation.Yaml.Resolution
import Interpolation.Yaml.Scalar.Block
import Interpolation.Yaml.Scalar.Inline

/-! Text with a line feed is written as a literal block, other text plainly, in single quotes where
plain it would not be text. Where the content rules a style out the next safer one is taken, and
between double quotes everything can be written. Lines are never folded. -/

namespace Interpolation.Yaml.Scalar

def anyNeighbours (p : Char → Char → Bool) : List Char → Bool
  | a :: b :: rest => p a b || anyNeighbours p (b :: rest)
  | _ => false

/-- Also what becomes a break when a document is read makes a text one of several lines. -/
def isMultiline (text : List Char) : Bool :=
  text.any fun c => isBreak c || c == '\r' || c == '\x85'

def isEdge (c : Char) : Bool :=
  c == ' ' || isBreak c

def needsEscapes (text : List Char) : Bool :=
  text.any (!Double.isPrintable ·) || anyNeighbours (fun a b => a == ' ' && isBreak b) text

def allowsSingle (text : List Char) : Bool :=
  !needsEscapes text && !anyNeighbours (fun a b => isBreak a && b == ' ') text

def allowsLiteral (text : List Char) : Bool :=
  !needsEscapes text && text.getLast? != some ' '

def beginsWithIndicator : List Char → Bool
  | '-' :: '-' :: '-' :: _ => true
  | '.' :: '.' :: '.' :: _ => true
  | [] => false
  | c :: rest =>
    "#,[]\x7b\x7d&*!|>'\"%@`".toList.contains c ||
      ((c == '?' || c == ':' || c == '-') && endsWord rest)

def hasIndicator : List Char → Bool
  | a :: c :: rest =>
    (c == ':' && endsWord rest) || (c == '#' && (isBlank a || isBreak a)) ||
      hasIndicator (c :: rest)
  | _ => false

def allowsPlain (text : List Char) : Bool :=
  allowsSingle text && !isMultiline text && !text.head?.any isEdge && !text.getLast?.any isEdge &&
    !beginsWithIndicator text && !hasIndicator text

def isAmbiguous (text : String) : Bool :=
  Meaning.isPadded text.toList ||
    match Meaning.ofPlain? text with
    | some (.text _) => false
    | _ => true

def style (text : String) : Style :=
  let chars := text.toList
  if chars.contains '\n' then if allowsLiteral chars then .literal else .double
  else if !isAmbiguous text && allowsPlain chars then .plain
  else if allowsSingle chars then .single
  else .double

def write (indent : Nat) (text : String) : List Char :=
  match style text with
  | .plain => text.toList
  | .single => Single.write indent text.toList
  | .literal => Block.write indent text.toList
  | _ => Double.write text.toList

def isSimpleKey (text : String) : Bool :=
  !isMultiline text.toList && text.utf8ByteSize ≤ 128

end Interpolation.Yaml.Scalar
