import Interpolation.Json.Token

/-! JSON documents as trees, with a reader, a compact printer, and records as objects or arrays. An
object keeps its members in order, also those with the same name: which of them count is for the
reader of the tree to say. -/

namespace Interpolation

inductive Json
  | null
  | boolean (value : Bool)
  | number (natural? : Option Nat)
  | text (content? : Option String)
  | array (items : List Json)
  | object (members : List (Option String × Json))

namespace Json

/-- Contents are kept with the newest first. -/
inductive Frame
  | array (items : List Json)
  | object (members : List (Option String × Json)) (name? : Option String)

inductive Expectation
  | value
  | firstValue
  | name (members : List (Option String × Json))
  | firstName
  | colon
  | separator
  | nothing (document : Json)

structure Reading where
  frames : List Frame
  expectation : Expectation

namespace Reading

def start : Reading :=
  ⟨[], .value⟩

def put (value : Json) : List Frame → Reading
  | [] => ⟨[], .nothing value⟩
  | .array items :: frames => ⟨.array (value :: items) :: frames, .separator⟩
  | .object members name? :: frames =>
    ⟨.object ((name?, value) :: members) none :: frames, .separator⟩

def beginValue? (frames : List Frame) : Token → Option Reading
  | .null => some (put .null frames)
  | .boolean b => some (put (.boolean b) frames)
  | .number n => some (put (.number n) frames)
  | .text content? => some (put (.text content?) frames)
  | .openArray => some ⟨.array [] :: frames, .firstValue⟩
  | .openObject => some ⟨frames, .firstName⟩
  | _ => none

def step (reading : Reading) (token : Token) : Option Reading :=
  match reading.expectation, reading.frames, token with
  | .value, frames, token => beginValue? frames token
  | .firstValue, .array _ :: frames, .closeArray => some (put (.array []) frames)
  | .firstValue, frames, token => beginValue? frames token
  | .firstName, frames, .closeObject => some (put (.object []) frames)
  | .firstName, frames, .text name? => some ⟨.object [] name? :: frames, .colon⟩
  | .name members, frames, .text name? => some ⟨.object members name? :: frames, .colon⟩
  | .colon, frames, .colon => some ⟨frames, .value⟩
  | .separator, .array items :: frames, .comma => some ⟨.array items :: frames, .value⟩
  | .separator, .array items :: frames, .closeArray => some (put (.array items.reverse) frames)
  | .separator, .object members _ :: frames, .comma => some ⟨frames, .name members⟩
  | .separator, .object members _ :: frames, .closeObject =>
    some (put (.object members.reverse) frames)
  | _, _, _ => none

def finish (reading : Reading) : Option Json :=
  match reading.expectation with
  | .nothing document => some document
  | _ => none

end Reading

def parse? (text : String) : Option Json := do
  let tokens ← tokens? text.toList
  let reading ← tokens.foldlM Reading.step .start
  reading.finish

/-- Quotes, backslashes and controls are escaped, and nothing else. -/
def escape : Char → List Char
  | '"' => ['\\', '"']
  | '\\' => ['\\', '\\']
  | '\x08' => ['\\', 'b']
  | '\x0c' => ['\\', 'f']
  | '\n' => ['\\', 'n']
  | '\r' => ['\\', 'r']
  | '\t' => ['\\', 't']
  | c =>
    if c.toNat < 0x20 then '\\' :: 'u' :: Text.toDigits 16 4 c.toNat else [c]

def printText (content : String) : List Char :=
  '"' :: content.toList.flatMap escape ++ ['"']

def Token.print : Token → List Char
  | openObject => ['{']
  | closeObject => ['}']
  | openArray => ['[']
  | closeArray => [']']
  | colon => [':']
  | comma => [',']
  | null => "null".toList
  | boolean b => (if b then "true" else "false").toList
  | number natural? => Nat.toDigits 10 (natural?.getD 0)
  | text content? => printText (content?.getD "")

mutual

def toTokens : Json → List Token
  | null => [.null]
  | boolean b => [.boolean b]
  | number natural? => [.number natural?]
  | text content? => [.text content?]
  | array items => .openArray :: itemTokens items ++ [.closeArray]
  | object members => .openObject :: memberTokens members ++ [.closeObject]

def itemTokens : List Json → List Token
  | [] => []
  | [item] => toTokens item
  | item :: next :: rest => toTokens item ++ .comma :: itemTokens (next :: rest)

def memberTokens : List (Option String × Json) → List Token
  | [] => []
  | [(name?, value)] => .text name? :: .colon :: toTokens value
  | (name?, value) :: next :: rest =>
    .text name? :: .colon :: toTokens value ++ .comma :: memberTokens (next :: rest)

end

def print (document : Json) : String :=
  String.ofList ((toTokens document).flatMap Token.print)

def count? : Json → Option Nat
  | number (some n) => if n < UInt64.size then some n else none
  | _ => none

def boolean? : Json → Option Bool
  | boolean b => some b
  | _ => none

def text? : Json → Option String
  | text content? => content?
  | _ => none

def texts? : Json → Option (List String)
  | array items => items.mapM text?
  | _ => none

def member? (members : List (String × Json)) (name : String) : Option (Option Json) :=
  match members.filter (·.1 == name) with
  | [] => some none
  | [(_, value)] => some (some value)
  | _ => none

/-- The fields of a record, each of them if it is there. Every name of an object must be
readable, also those of unknown members. -/
def fields? (names : List String) : Json → Option (List (Option Json))
  | object members => do
    let members ← members.mapM fun (name?, value) => name?.map (·, value)
    names.mapM (member? members)
  | array items =>
    if items.length ≤ names.length then
      some (items.map some ++ List.replicate (names.length - items.length) none)
    else none
  | _ => none

def record (fields : List (String × Json)) : Json :=
  object (fields.map fun (name, value) => (some name, value))

end Json

end Interpolation
