import Interpolation.Name
import Interpolation.Value

/-! A context binds names to values and has one default. It is made by a builder, which refuses to
bind a name or set the default a second time; a refused call leaves the builder as it was, and
building a context does not use the builder up. A session knows its builders by number, in the order
in which they came up, and keeps the contexts that were built; any builder may be copied at any
time. -/

namespace Interpolation

structure Context where
  bindings : NameMap Value
  default : Value

namespace Context

instance : BEq Context where
  beq a b := a.bindings == b.bindings && a.default == b.default

def get? (context : Context) (name : String) : Option Value :=
  context.bindings.get? name

def contains (context : Context) (name : String) : Bool :=
  context.bindings.contains name

/-- The number of bound names; the default is not counted. -/
def size (context : Context) : Nat :=
  context.bindings.size

def isEmpty (context : Context) : Bool :=
  context.bindings.isEmpty

inductive Error
  | alreadyBound (name : String)
  | defaultTaken
  | noDefault
deriving DecidableEq

def Error.message : Error → String
  | alreadyBound name => s!"value {name} was already specified"
  | defaultTaken => "default value already specified"
  | noDefault => "no default value specified"

structure Builder where
  bindings : NameMap Value
  default? : Option Value

namespace Builder

def empty : Builder :=
  ⟨.empty, none⟩

def setDefault (builder : Builder) (value : Value) : Except Error Builder :=
  match builder.default? with
  | some _ => .error .defaultTaken
  | none => .ok { builder with default? := some value }

def bind (builder : Builder) (name : String) (value : Value) : Except Error Builder :=
  if builder.bindings.contains name then .error (.alreadyBound name)
  else .ok { builder with bindings := builder.bindings.insert name value }

def build (builder : Builder) : Except Error Context :=
  match builder.default? with
  | some value => .ok ⟨builder.bindings, value⟩
  | none => .error .noDefault

end Builder

inductive Call
  | setDefault (value : Value)
  | bind (name : String) (value : Value)
  | build

inductive Answer
  | done
  | built (context : Context)
  | refused (error : Error)

namespace Call

def value? (name : String) : Call → Option Value
  | bind other value => if other = name then some value else none
  | _ => none

def default? : Call → Option Value
  | setDefault value => some value
  | _ => none

def name? : Call → Option String
  | bind name _ => some name
  | _ => none

end Call

def Answer.context? : Answer → Option Context
  | built context => some context
  | _ => none

namespace Builder

/-- A builder that refuses a change stays as it is. -/
def attempt (builder : Builder) : Except Error Builder → Builder × Answer
  | .ok next => (next, .done)
  | .error e => (builder, .refused e)

def call (builder : Builder) : Call → Builder × Answer
  | .setDefault value => builder.attempt (builder.setDefault value)
  | .bind name value => builder.attempt (builder.bind name value)
  | .build =>
    match builder.build with
    | .ok context => (builder, .built context)
    | .error e => (builder, .refused e)

def replay (history : List Call) : Builder :=
  history.foldl (fun builder call => (builder.call call).1) .empty

end Builder

inductive Step
  | call (number : Nat) (call : Call)
  | copy (number : Nat)

structure Session where
  builders : List Builder
  contexts : List Context

namespace Session

def start : Session :=
  ⟨[.empty], []⟩

/-- Only a call on a builder that there is has an answer. -/
def answer? (session : Session) : Step → Option Answer
  | .call number call => session.builders[number]?.map fun builder => (builder.call call).2
  | .copy _ => none

def step (session : Session) : Step → Session
  | .call number call =>
    ⟨session.builders.modify number fun builder => (builder.call call).1,
      session.contexts ++ ((session.answer? (.call number call)).bind Answer.context?).toList⟩
  | .copy number => ⟨session.builders ++ session.builders[number]?.toList, session.contexts⟩

def run (session : Session) (steps : List Step) : Session :=
  steps.foldl step session

def answers (session : Session) : List Step → List (Option Answer)
  | [] => []
  | step :: steps => session.answer? step :: (session.step step).answers steps

end Session

/-- A copy has the history of its original. -/
def record (histories : List (List Call)) : Step → List (List Call)
  | .call number call => histories.modify number (· ++ [call])
  | .copy number => histories ++ histories[number]?.toList

def histories (steps : List Step) : List (List Call) :=
  steps.foldl record [[]]

end Context

end Interpolation
