import Interpolation.Text

/-! JSON text is cut into tokens by an automaton that looks at each character once. A text token
holds the text its characters and escapes spell, or nothing when an escape names half of a surrogate
pair; such a token is harmless where nobody reads it. A number token tells only whether the number
is written as a natural number, and which. -/

namespace Interpolation.Json

inductive Token
  | openObject
  | closeObject
  | openArray
  | closeArray
  | colon
  | comma
  | null
  | boolean (value : Bool)
  | number (natural? : Option Nat)
  | text (content? : Option String)
deriving DecidableEq

inductive Piece
  | character (c : Char)
  | unit (code : Nat)
deriving DecidableEq

/-- Two units of a surrogate pair make one character; half a pair makes none. -/
def decode? : List Piece → Option (List Char)
  | [] => some []
  | .character c :: rest => (decode? rest).map (c :: ·)
  | .unit high :: .unit low :: rest =>
    if 0xd800 ≤ high && high < 0xdc00 then
      if 0xdc00 ≤ low && low < 0xe000 then
        (decode? rest).map (Char.ofNat (0x10000 + (high - 0xd800) * 0x400 + (low - 0xdc00)) :: ·)
      else none
    else if 0xdc00 ≤ high && high < 0xe000 then none
    else (decode? (.unit low :: rest)).map (Char.ofNat high :: ·)
  | .unit code :: rest =>
    if 0xd800 ≤ code && code < 0xe000 then none
    else (decode? rest).map (Char.ofNat code :: ·)

def isSpace (c : Char) : Bool :=
  c == ' ' || c == '\t' || c == '\n' || c == '\r'

def unescape? : Char → Option Char
  | '"' => some '"'
  | '\\' => some '\\'
  | '/' => some '/'
  | 'b' => some '\x08'
  | 'f' => some '\x0c'
  | 'n' => some '\n'
  | 'r' => some '\r'
  | 't' => some '\t'
  | _ => none

namespace Token

def ofPunctuation? : Char → Option Token
  | '{' => some openObject
  | '}' => some closeObject
  | '[' => some openArray
  | ']' => some closeArray
  | ':' => some colon
  | ',' => some comma
  | _ => none

def isExponent : List Char → Bool
  | '+' :: digits => !digits.isEmpty && digits.all Char.isDigit
  | '-' :: digits => !digits.isEmpty && digits.all Char.isDigit
  | digits => !digits.isEmpty && digits.all Char.isDigit

def isFraction : List Char → Bool
  | '.' :: rest =>
    !(rest.takeWhile Char.isDigit).isEmpty &&
      match rest.dropWhile Char.isDigit with
      | [] => true
      | mark :: exponent => (mark == 'e' || mark == 'E') && isExponent exponent
  | mark :: exponent => (mark == 'e' || mark == 'E') && isExponent exponent
  | [] => false

/-- The whole part has no leading zero. -/
def ofNumber? (word : List Char) : Option Token :=
  let whole := word.takeWhile Char.isDigit
  let rest := word.dropWhile Char.isDigit
  if whole.isEmpty || (whole.head? == some '0' && 1 < whole.length) then none
  else if rest.isEmpty then some (number (some (Nat.ofDigitChars 10 whole 0)))
  else if isFraction rest then some (number none)
  else none

/-- A word is a maximal run of characters that are neither spaces nor punctuation nor quotes. -/
def ofWord? : List Char → Option Token
  | ['n', 'u', 'l', 'l'] => some null
  | ['t', 'r', 'u', 'e'] => some (boolean true)
  | ['f', 'a', 'l', 's', 'e'] => some (boolean false)
  | '-' :: word => (ofNumber? word).map fun _ => number none
  | word => ofNumber? word

end Token

inductive Mode
  | between
  | word (letters : List Char)
  | text (pieces : List Piece)
  | escape (pieces : List Piece)
  | hex (pieces : List Piece) (count value : Nat)
deriving DecidableEq

namespace Mode

abbrev Next := Option (Mode × Option Token)

def nextBetween (c : Char) : Next :=
  if isSpace c then some (between, none)
  else if c = '"' then some (text [], none)
  else match Token.ofPunctuation? c with
    | some token => some (between, some token)
    | none => some (word [c], none)

def nextText (pieces : List Piece) (c : Char) : Next :=
  if c = '"' then
    some (between, some (.text ((decode? pieces.reverse).map String.ofList)))
  else if c = '\\' then some (escape pieces, none)
  else if c.toNat < 0x20 then none
  else some (text (.character c :: pieces), none)

def nextEscape (pieces : List Piece) (c : Char) : Next :=
  if c = 'u' then some (hex pieces 0 0, none)
  else (unescape? c).map fun c => (text (.character c :: pieces), none)

def nextHex (pieces : List Piece) (count value : Nat) (c : Char) : Next :=
  (Text.digitValue? 16 c).map fun digit =>
    let value := 16 * value + digit
    if count = 3 then (text (.unit value :: pieces), none) else (hex pieces (count + 1) value, none)

end Mode

structure Cutting where
  tokens : List Token
  mode : Mode

namespace Cutting

def start : Cutting :=
  ⟨[], .between⟩

def endWord? (cutting : Cutting) : Option Cutting :=
  match cutting.mode with
  | .word letters => (Token.ofWord? letters.reverse).map fun token =>
      ⟨token :: cutting.tokens, .between⟩
  | _ => some cutting

def accept (cutting : Cutting) (next : Mode.Next) : Option Cutting :=
  next.map fun (mode, token?) => ⟨token?.toList ++ cutting.tokens, mode⟩

def endsWord (c : Char) : Bool :=
  isSpace c || c == '"' || (Token.ofPunctuation? c).isSome

def step (cutting : Cutting) (c : Char) : Option Cutting :=
  match cutting.mode with
  | .between => cutting.accept (Mode.nextBetween c)
  | .word letters =>
    if endsWord c then do
      let cutting ← cutting.endWord?
      cutting.accept (Mode.nextBetween c)
    else some { cutting with mode := .word (c :: letters) }
  | .text pieces => cutting.accept (Mode.nextText pieces c)
  | .escape pieces => cutting.accept (Mode.nextEscape pieces c)
  | .hex pieces count value => cutting.accept (Mode.nextHex pieces count value c)

def finish (cutting : Cutting) : Option (List Token) := do
  let cutting ← cutting.endWord?
  match cutting.mode with
  | .between => some cutting.tokens.reverse
  | _ => none

end Cutting

def tokens? (text : List Char) : Option (List Token) := do
  let cutting ← text.foldlM Cutting.step .start
  cutting.finish

end Interpolation.Json
