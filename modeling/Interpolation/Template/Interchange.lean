import Interpolation.Json
import Interpolation.Template

/-! Scopes, summaries and positions as JSON. An open scope and an empty closed one are different,
and so are their forms: the first has no member `globals`. -/

namespace Interpolation

open Json

namespace Template

def Scope.toJson : Scope → Json
  | anyName => record []
  | only names => record [("globals", array (names.toList.map fun name => text (some name)))]

/-- The member of an open scope may also be `null`. -/
def Scope.ofJson? (document : Json) : Option Scope :=
  match fields? ["globals"] document with
  | some [none] => some anyName
  | some [some null] => some anyName
  | some [some names] => (texts? names).map ofList
  | _ => none

def Summary.toJson (summary : Summary) : Json :=
  record [
    ("variables", array (summary.names.map fun name => text (some name))),
    ("uses_default", boolean summary.usesDefault),
    ("placeholders", number (some summary.placeholders))]

def Summary.ofJson? (document : Json) : Option Summary :=
  match fields? ["variables", "uses_default", "placeholders"] document with
  | some [some names, some usesDefault, some placeholders] => do
    return ⟨← texts? names, ← boolean? usesDefault, ← count? placeholders⟩
  | _ => none

end Template

namespace Position

def toJson (position : Position) : Json :=
  record [
    ("offset", number (some position.offset)),
    ("line", number (some position.line)),
    ("column", number (some position.column))]

def ofJson? (document : Json) : Option Position :=
  match fields? ["offset", "line", "column"] document with
  | some [some offset, some line, some column] => do
    return ⟨← count? offset, ← count? line, ← count? column⟩
  | _ => none

end Position

end Interpolation
