import Interpolation.Template.Reader
import Interpolation.Template.Rendering

/-! Any fault of the engine, under the phase it arose in. -/

namespace Interpolation

inductive Failure
  | parse (error : Template.Error)
  | render (error : Template.RenderError)
  | context (error : Context.Error)
deriving DecidableEq

namespace Failure

def phase : Failure → String
  | parse _ => "parse error"
  | render _ => "execution error"
  | context _ => "context error"

def cause : Failure → String
  | parse e => e.message
  | render e => e.message
  | context e => e.message

def message (failure : Failure) : String :=
  s!"{failure.phase}: {failure.cause}"

end Failure

end Interpolation
