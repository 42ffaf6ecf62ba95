import TermGraph.Arena.Descent
import TermGraph.Payload

/-!
# Views — a term opened up by one level

A view says what a term is, with its name, value or arguments at hand. It
follows the NODE that the handle resolves to, and not the kind the handle
claims, so it answers for every handle that resolves. The control
constants are seen as compound terms without arguments.

The diagnostic form of a view goes all the way down: the arguments of a
compound view are shown as the views they have, each marked `Ok`, or `Err`
where a handle does not resolve.
-/

namespace TermGraph

/-- A term opened up by one level. -/
inductive View (V : Type)
  | int (value : Int64)
  | real (value : Binary64)
  | atom (name : String)
  | payload (value : V)
  | var (name : String)
  | compound (functor : String) (args : List Term)

namespace Arena

variable {V : Type}

/-- The view of a term. -/
def view (a : Arena V) (t : Term) : Except TermError (View V) :=
  match t with
  | .int i => .ok (.int i)
  | .real r => .ok (.real r)
  | .atom name => .ok (.atom name)
  | .anon => .ok (.var "_")
  | .whole => .ok (.var ".")
  | .control c => .ok (.compound c.name [])
  | .var r | .compound r | .payload r => do
    match ← a.node t r with
    | .var name _ => .ok (.var name)
    | .compound name _ span => return .compound name (← a.operandsOf t span)
    | .payload value => .ok (.payload value)

variable [Payload V]

/-- The diagnostic form of a view, given that of its arguments. -/
def viewText (a : Arena V) (argText : Term → String) : View V → String
  | .int i => "Int(" ++ toString i.toInt ++ ")"
  | .real r => "Real(" ++ r.debugText ++ ")"
  | .atom name => "Atom(" ++ Text.escaped name ++ ")"
  | .payload value => "Opaque(" ++ Payload.debugText value ++ ")"
  | .var name => "Var(" ++ Text.escaped name ++ ")"
  | .compound functor args =>
    "Struct(" ++ a.id.debugText ++ ", " ++ Text.escaped functor ++ ", [" ++
      String.intercalate ", " (args.map argText) ++ "])"

/-- How an argument that has no view is shown. -/
def noViewText (t : Term) : String := "Err(ForeignTerm(" ++ t.debugText ++ "))"

/-- How an argument is shown inside a view. -/
def argTextStep (a : Arena V) (recur : Term → String) (t : Term) : String :=
  match a.view t with
  | .ok v => "Ok(" ++ a.viewText recur v ++ ")"
  | .error _ => noViewText t

/-- The diagnostic form of the view of a term. -/
def debugView (a : Arena V) (t : Term) : Except TermError String := do
  return a.viewText (walk noViewText a.argTextStep) (← a.view t)

end Arena

end TermGraph
