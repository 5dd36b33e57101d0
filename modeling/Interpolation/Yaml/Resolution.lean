import Interpolation.Binary64
import Interpolation.Text
import Interpolation.Yaml.Node

/-! A plain scalar without a tag is empty, a truth value, a number or text, tried in this order; all
other scalars are text. A tag may ask for one of these readings, whatever the style, or for text. An
integer that needs more than 64 bits has no meaning, unless it needs more than 128: then it is a
number with a fraction of nothing, and so a float. -/

namespace Interpolation.Yaml

inductive Meaning
  | null
  | boolean (value : Bool)
  | integer (value : Int)
  | float (value : Binary64)
  | text (content : String)

namespace Meaning

def isNull (s : List Char) : Bool :=
  s.isEmpty || s == ['~'] || s == "null".toList || s == "Null".toList || s == "NULL".toList

def boolean? (s : List Char) : Option Bool :=
  if s == "true".toList || s == "True".toList || s == "TRUE".toList then some true
  else if s == "false".toList || s == "False".toList || s == "FALSE".toList then some false
  else none

/-- More digits than one, of which the first is zero: no number, whatever the sign. -/
def isPadded (s : List Char) : Bool :=
  let digits := (Decimal.splitSign s).2
  1 < digits.length && digits.head? == some '0' && digits.all Char.isDigit

def natural? (base : Nat) (digits : List Char) : Option Nat :=
  if digits.isEmpty then none else Text.ofDigits? base digits

def magnitude? : List Char → Option Nat
  | '0' :: 'x' :: digits => natural? 16 digits
  | '0' :: 'o' :: digits => natural? 8 digits
  | '0' :: 'b' :: digits => natural? 2 digits
  | digits => natural? 10 digits

def integer? (s : List Char) : Option Int :=
  if isPadded s then none
  else
    let (negative, rest) := Decimal.splitSign s
    (magnitude? rest).map fun n => if negative then -n else n

/-- How many bits an integer needs: up to 64, up to 128, or more; below zero one is for the sign. -/
inductive Size
  | small
  | large
  | huge
deriving DecidableEq

def size : Int → Size
  | .ofNat n =>
    if n < Nat.pow 2 64 then .small else if n < Nat.pow 2 128 then .large else .huge
  | .negSucc n =>
    if n < Nat.pow 2 63 then .small else if n < Nat.pow 2 127 then .large else .huge

def float? (s : List Char) : Option Binary64 :=
  if s == ".inf".toList || s == ".Inf".toList || s == ".INF".toList ||
      s == "+.inf".toList || s == "+.Inf".toList || s == "+.INF".toList then
    some (.ofMagnitude false Binary64.infinity)
  else if s == "-.inf".toList || s == "-.Inf".toList || s == "-.INF".toList then
    some (.ofMagnitude true Binary64.infinity)
  else if s == ".nan".toList || s == ".NaN".toList || s == ".NAN".toList then some .nan
  else ((Decimal.ofText? s).map Binary64.ofDecimal).filter Binary64.isFinite

def number? (s : List Char) : Option (Option Meaning) :=
  let float := if isPadded s then none else (float? s).map float
  match integer? s with
  | none => some float
  | some n =>
    match size n with
    | .small => some (some (integer n))
    | .large => none
    | .huge => some float

def ofPlain? (content : String) : Option Meaning :=
  let s := content.toList
  if isNull s then some null
  else match boolean? s with
    | some b => some (boolean b)
    | none => (number? s).map (·.getD (text content))

def standard (name : String) : Octets :=
  octetsOf ("tag:yaml.org,2002:" ++ name).toList

/-- A tag that begins with an exclamation mark is the document's own, and so is the mark alone. -/
def isLocal (tag : Octets) : Bool :=
  tag.head? == some 0x21

def ofTagged? (tag : Octets) (style : Style) (content : String) : Option Meaning :=
  let s := content.toList
  if tag == standard "bool" then (boolean? s).map boolean
  else if tag == standard "int" then (integer? s).bind fun n =>
    if size n = .small then some (integer n) else none
  else if tag == standard "float" then (float? s).map float
  else if tag == standard "null" then if isNull s && !s.isEmpty then some null else none
  else if isLocal tag then
    if (ByteArray.mk tag.toArray).validateUTF8 then none
    else if style = .plain then ofPlain? content else some (text content)
  else some (text content)

def ofScalar? (tag? : Option Octets) (style : Style) (content : String) : Option Meaning :=
  match tag? with
  | some tag => ofTagged? tag style content
  | none => if style = .plain then ofPlain? content else some (text content)

end Meaning

end Interpolation.Yaml
