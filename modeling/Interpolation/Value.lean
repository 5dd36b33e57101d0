import Interpolation.Binary64

/-! A value is what a name can be bound to. A number that was recognised in a text keeps the text
and is written as it was, so that recognition never alters what a template produces. Two values are
equal when kind, payload and kept text are. -/

namespace Interpolation

inductive Value
  | text (content : String)
  | integer (value : Int64) (source : Option String)
  | float (value : Binary64) (source : Option String)
  | boolean (value : Bool)

namespace Value

inductive Kind
  | text
  | integer
  | float
  | boolean
deriving DecidableEq

def Kind.name : Kind → String
  | text => "text"
  | integer => "integer"
  | float => "float"
  | boolean => "boolean"

def kind : Value → Kind
  | text _ => .text
  | integer _ _ => .integer
  | float _ _ => .float
  | boolean _ => .boolean

def toInteger? : Value → Option Int64
  | integer n _ => some n
  | _ => none

def toFloat? : Value → Option Binary64
  | float x _ => some x
  | _ => none

def toBoolean? : Value → Option Bool
  | boolean b => some b
  | _ => none

def source? : Value → Option String
  | integer _ source => source
  | float _ source => source
  | _ => none

instance : BEq Value where
  beq
    | text a, text b => a == b
    | integer a s, integer b t => a == b && s == t
    | float a s, float b t => a == b && s == t
    | boolean a, boolean b => a == b
    | _, _ => false

def integer? (raw : String) : Option Int64 :=
  match Decimal.integer? raw.toList with
  | some n =>
    if Int64.minValue.toInt ≤ n ∧ n ≤ Int64.maxValue.toInt then some (Int64.ofInt n) else none
  | none => none

/-- A text without any digit is no float, although it may be a word that is read as one, and neither
is a number beyond the finite floats. -/
def float? (raw : String) : Option Binary64 :=
  if raw.toList.any Char.isDigit then (Binary64.ofText? raw.toList).filter Binary64.isFinite
  else none

def recognize (raw : String) : Value :=
  if raw = "true" then boolean true
  else if raw = "false" then boolean false
  else match integer? raw with
    | some n => integer n (some raw)
    | none => match float? raw with
      | some x => float x (some raw)
      | none => text raw

def ofInteger (n : Int64) : Value :=
  integer n none

def ofFloat (x : Binary64) : Value :=
  float x none

/-- The text of a finite float always has a fraction, also where its plain notation drops it. -/
def floatText (x : Binary64) : List Char :=
  let text := x.toText
  if x.isFinite && !text.contains '.' then text ++ ['.', '0'] else text

def toText : Value → String
  | text content => content
  | integer n source => source.getD (toString n.toInt)
  | float x source => source.getD (String.ofList (floatText x))
  | boolean b => if b then "true" else "false"

end Value

end Interpolation
