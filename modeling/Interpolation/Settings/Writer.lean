import Interpolation.Settings
import Interpolation.Yaml.Scalar.Writer

/-! Settings as a YAML mapping: the default, the values if there are any, in order of their names
and indented by two, and whether they are strict. Numbers and truth values are plain; a float has
the fewest digits that read back, between two decimals of equal length and distance the even one,
and an exponent where it is very large or very small. -/

namespace Interpolation.Settings

open Yaml

def exponential (coefficient : Nat) (exponent : Int) : List Char :=
  let digits := Nat.toDigits 10 coefficient
  let mantissa := match digits with
    | first :: second :: rest => first :: '.' :: second :: rest
    | digits => digits
  mantissa ++ 'e' :: (toString (exponent + digits.length - 1)).toList

/-- Positional from `0.00001` to below `10 ^ 16`, and exponential elsewhere. -/
def magnitudeText (magnitude : Nat) : List Char :=
  let (coefficient, exponent) := Binary64.shortest .even magnitude
  let top := exponent + (Nat.toDigits 10 coefficient).length
  if -5 < top ∧ top ≤ 16 then Decimal.positional coefficient exponent
  else exponential coefficient exponent

def floatText (x : Binary64) : List Char :=
  if x.isNaN then ".nan".toList
  else
    let number := if x.isFinite then magnitudeText x.magnitude else ".inf".toList
    if x.negative then '-' :: number else number

def truthText (b : Bool) : List Char :=
  if b then "true".toList else "false".toList

def scalarText (indent : Nat) : Scalar → List Char
  | .boolean b => truthText b
  | .integer n => (toString n.toInt).toList
  | .float x => floatText x
  | .text content => Scalar.write indent content

/-- Ends the line, unless a literal block has ended it already. -/
def endLine (text : List Char) : List Char :=
  if text.getLast?.any isBreak then text else text ++ ['\n']

/-- A key that is not simple gets a mark and a line of its own. -/
def entryText (name : String) (value : Scalar) : List Char :=
  let scalar := ' ' :: scalarText 4 value
  endLine (if Scalar.isSimpleKey name then ' ' :: ' ' :: Scalar.write 4 name ++ ':' :: scalar
    else endLine ("  ? ".toList ++ Scalar.write 4 name) ++ "  :".toList ++ scalar)

def valuesText (values : NameMap Scalar) : List Char :=
  if values.isEmpty then []
  else "values:\n".toList ++ values.entries.flatMap fun (name, value) => entryText name value

def toYaml (settings : Settings) : String :=
  String.ofList (endLine ("default: ".toList ++ scalarText 2 settings.default) ++
    valuesText settings.values ++ "strict: ".toList ++ truthText settings.strict ++ ['\n'])

end Interpolation.Settings
