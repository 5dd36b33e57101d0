import Interpolation.Failure

/-! Settings are a default and values, as they stand in a document, and whether templates may only
refer to the names that have a value. Text in settings goes through recognition like any other text,
so a number that was quoted is a number again, written as it was. -/

namespace Interpolation

inductive Scalar
  | boolean (value : Bool)
  | integer (value : Int64)
  | float (value : Binary64)
  | text (content : String)

namespace Scalar

instance : BEq Scalar where
  beq
    | boolean a, boolean b => a == b
    | integer a, integer b => a == b
    | float a, float b => a == b
    | text a, text b => a == b
    | _, _ => false

def toValue : Scalar → Value
  | boolean b => .boolean b
  | integer n => .ofInteger n
  | float x => .ofFloat x
  | text content => .recognize content

end Scalar

structure Settings where
  default : Scalar
  values : NameMap Scalar
  strict : Bool

namespace Settings

instance : BEq Settings where
  beq a b := a.default == b.default && a.values == b.values && a.strict == b.strict

def scope (settings : Settings) : Template.Scope :=
  if settings.strict then .ofList settings.values.names else .anyName

def context (settings : Settings) : Except Context.Error Context := do
  let builder ← Context.Builder.empty.setDefault settings.default.toValue
  let builder ← settings.values.entries.foldlM
    (fun builder entry => builder.bind entry.1 entry.2.toValue) builder
  builder.build

def interpolate (settings : Settings) (text : String) : Except Failure String := do
  let template ← (Template.parse settings.scope text).mapError .parse
  let context ← settings.context.mapError .context
  (template.render context).mapError .render

end Settings

end Interpolation
