import Interpolation.Context
import Interpolation.Template

/-! Each placeholder gives way to the text of its value. Rendering is all or nothing: the first name
without a value ends it. The text of a value is not looked at again. -/

namespace Interpolation.Template

inductive RenderError
  | unboundName (name : String) (position : Position)
deriving DecidableEq

namespace RenderError

def position : RenderError → Position
  | unboundName _ p => p

def message : RenderError → String
  | unboundName name p => s!"unresolved reference to variable '{name}' at {p.toText}"

end RenderError

def Placeholder.value (context : Context) (placeholder : Placeholder) :
    Except RenderError Value :=
  match placeholder.reference with
  | .default => .ok context.default
  | .named name =>
    match context.get? name with
    | some value => .ok value
    | none => .error (.unboundName name placeholder.position)

def Part.render (context : Context) : Part → Except RenderError String
  | literal text => .ok text
  | placeholder p => (p.value context).map Value.toText

def render (template : Template) (context : Context) : Except RenderError String :=
  (template.parts.mapM (Part.render context)).map String.join

def unboundNames (template : Template) (context : Context) : List String :=
  template.names.toList.filter fun name => !context.contains name

end Interpolation.Template
