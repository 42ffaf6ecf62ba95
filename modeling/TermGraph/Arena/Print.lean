import TermGraph.Arena.View
import TermGraph.Text.Quoted

/-!
# The text of a term

A compound term is its functor, quoted where it must be, and its arguments
in parentheses; without arguments there are no parentheses. A plain atom
is its name as it stands, never quoted. Numbers are decimal, variables are
their names, payloads print themselves.

The alternate form writes the index of every variable after its name, as
in `X#0`.

There is no text where a handle does not resolve. Inside a term that
cannot happen, since arguments resolve; so printing fails exactly on a
handle that is foreign itself.
-/

namespace TermGraph

namespace Arena

variable {V : Type} [Payload V]

/-- The text of one term, given that of its arguments. -/
def showStep (a : Arena V) (alternate : Bool) (recur : Term → Option String) (t : Term) :
    Option String :=
  match a.view t with
  | .error _ => none
  | .ok (.int i) => some (toString i.toInt)
  | .ok (.real r) => some r.termText
  | .ok (.atom name) => some name
  | .ok (.payload value) => some (Payload.text value)
  | .ok (.var name) =>
    if alternate then
      match a.index t with
      | .ok index => some (name ++ "#" ++ index.text)
      | .error _ => none
    else some name
  | .ok (.compound functor []) => some (Text.functorText functor)
  | .ok (.compound functor args) => do
    let shown ← args.mapM recur
    return Text.functorText functor ++ "(" ++ String.intercalate ", " shown ++ ")"

/-- The text of a term. -/
def text? (a : Arena V) (t : Term) : Option String := walk (fun _ => none) (a.showStep false) t

/-- The text of a term, with the index of every variable. -/
def alternateText? (a : Arena V) (t : Term) : Option String :=
  walk (fun _ => none) (a.showStep true) t

/-- The text of a term is put together from those of its arguments. -/
theorem text?_eq (a : Arena V) (t : Term) :
    a.text? t =
      a.showStep false (fun arg => if arg.height < t.height then a.text? arg else none) t :=
  walk_eq t

/-- And so is the alternate text. -/
theorem alternateText?_eq (a : Arena V) (t : Term) :
    a.alternateText? t =
      a.showStep true (fun arg => if arg.height < t.height then a.alternateText? arg else none) t :=
  walk_eq t

/-- The text of a term; a failure reports the handle. -/
def text (a : Arena V) (t : Term) : Except TermError String :=
  match a.text? t with
  | some s => .ok s
  | none => .error (.foreignTerm t)

/-- The text of a term whose node is compound. -/
def compoundText (a : Arena V) (t : Term) : Except TermError String := do
  match ← a.view t with
  | .compound _ _ => a.text t
  | _ => .error (.unexpectedKind .compound t.kind)

/-- The signature under which a goal is looked up: that of a compound term,
and the text of any other term with arity zero. -/
def goalSignature (a : Arena V) (t : Term) : Except TermError String :=
  if t.isCompound then a.signature t
  else do
    a.verify t
    return (← a.text t) ++ "/0"

/-- The signature that stands for every arity of a functor. -/
def anyAritySignature (a : Arena V) (t : Term) : Except TermError String := do
  return (← a.functor t) ++ "/N"

end Arena

end TermGraph
