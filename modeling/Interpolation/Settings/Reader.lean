import Interpolation.Name
import Interpolation.Settings
import Interpolation.Yaml.Node
import Interpolation.Yaml.Resolution

/-! Settings are read from a YAML mapping with the keys `default`, `values` and `strict`, of which
only the first is required. Other keys are passed over. Of a name with several values the last
counts, while a known key may stand only once. The names are judged when all else is in order. -/

namespace Interpolation.Settings

inductive Error
  | invalidDocument
  | invalidName (name : String)
deriving DecidableEq

def Error.message : Error → String
  | invalidDocument => "Failed to parse interpolation settings"
  | invalidName name => s!"Invalid variable name '{name}' in interpolation settings"

open Yaml

/-- Integers beyond 64 bits with a sign become floats. -/
def ofMeaning? : Meaning → Option Scalar
  | .null => none
  | .boolean b => some (.boolean b)
  | .integer n =>
    if n ≤ Int64.maxValue.toInt then some (.integer (Int64.ofInt n))
    else some (.float (.ofNat n.toNat))
  | .float x => some (.float x)
  | .text content => some (.text content)

def scalar? (document node : Node) : Option Scalar :=
  match document.resolve node with
  | .scalar _ tag? style content => (Meaning.ofScalar? tag? style content).bind ofMeaning?
  | _ => none

/-- A key is its text as written, whatever its tag and style. -/
def key? (document node : Node) : Option String :=
  match document.resolve node with
  | .scalar _ _ _ content => some content
  | _ => none

/-- An empty plain scalar counts as a mapping without entries. -/
def values? (document node : Node) : Option (NameMap Scalar) :=
  match document.resolve node with
  | .mapping _ entries => do
    let entries ← entries.mapM fun (key, value) => do
      return (← key? document key, ← scalar? document value)
    return .ofList entries
  | .scalar _ _ .plain "" => some .empty
  | _ => none

/-- A truth value is plain, whatever its tag, or literal with the tag for truth values. -/
def strict? (document node : Node) : Option Bool :=
  match document.resolve node with
  | .scalar _ tag? style content =>
    if style = .plain ∨ (style = .literal ∧ tag? = some (Meaning.standard "bool")) then
      Meaning.boolean? content.toList
    else none
  | _ => none

def field? (entries : List (String × Node)) (key : String) : Option (Option Node) :=
  match entries.filter (·.1 == key) with
  | [] => some none
  | [(_, value)] => some (some value)
  | _ => none

def ofDocument? (document : Node) : Option Settings :=
  match document with
  | .mapping _ entries => do
    let entries ← entries.mapM fun (key, value) => return (← key? document key, value)
    let default ← (← field? entries "default").bind (scalar? document)
    let values ← match ← field? entries "values" with
      | none => some .empty
      | some node => values? document node
    let strict ← match ← field? entries "strict" with
      | none => some true
      | some node => strict? document node
    return ⟨default, values, strict⟩
  | _ => none

def checkNames (settings : Settings) : Except Error Settings :=
  match settings.values.names.find? (!isName ·) with
  | some name => .error (.invalidName name)
  | none => .ok settings

def ofYaml (text : String) : Except Error Settings :=
  match (document? text).bind ofDocument? with
  | some settings => settings.checkNames
  | none => .error .invalidDocument

end Interpolation.Settings
