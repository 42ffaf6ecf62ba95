import TermGraph.Arena.Access
import TermGraph.Text.CharacterClass

/-!
# Building terms

Building is a computation on an arena that can fail: `BuildM`. A failure
keeps the arena as far as it came, because nodes that were made before the
failure stay.

`compound` checks before it writes. The first argument that does not
resolve is reported before the empty functor is, and a refusal leaves the
arena as it was. So the arguments of a compound node always resolve, and
they are older than the node.
-/

namespace TermGraph

/-- A computation on an arena that can fail and keeps the arena when it
does. -/
abbrev BuildM (V : Type) := EStateM TermError (Arena V)

namespace Arena

variable {V : Type}

/-- Reads the arena. -/
def look {α : Type} (read : Arena V → Except TermError α) : BuildM V α := fun a =>
  match read a with
  | .ok x => .ok x a
  | .error e => .error e a

/-! ## New nodes -/

/-- Adds a node, without an index, and answers the reference to it. -/
def addNode (n : Node V) : BuildM V Reference := fun a =>
  .ok ⟨a.id, a.nodes.size⟩
    { a with nodes := a.nodes.push n, indexes := a.indexes.push .unassigned }

/-- Adds a variable. -/
def addVar (name : String) (type : VarType) : BuildM V Term := do
  return .var (← addNode (.var name type))

/-- Adds arguments at the end of the store and answers their run. -/
def addOperands (args : List Term) : BuildM V Span := fun a =>
  .ok ⟨a.operands.size, args.length⟩ { a with operands := a.operands ++ args }

/-- Adds a compound term over arguments that resolve. -/
def addCompound (name : String) (args : List Term) : BuildM V Term := do
  let span ← addOperands args
  return .compound (← addNode (.compound name (Signature.text name args.length) span))

/-- Adds a payload. -/
def payload (value : V) : BuildM V Term := do
  return .payload (← addNode (.payload value))

/-! ## Compound terms -/

/-- The compound term of a functor and arguments that exist already. The
arguments must resolve, and a term with arguments needs a functor. Without
arguments the name of a control constant gives that constant. -/
def compound (functor : String) (args : List Term) : BuildM V Term := do
  look (·.verifyAll args)
  match args, Control.ofName? functor with
  | [], some c => return .control c
  | [], none => addCompound functor []
  | args, _ =>
    if functor = "" then
      throw .emptyFunctor
    addCompound functor args

/-- Puts a value into the content table, at the place of a compound term. -/
def putContent (t : Term) (value : V) : BuildM V Unit := fun a =>
  match t with
  | .compound r => .ok () { a with contents := a.contents.insert r.id value }
  | _ => .ok () a

/-- A compound term with the functor and the content of `t` and other
arguments. It has no index. -/
def withArguments (t : Term) (args : List Term) : BuildM V Term := do
  let functor ← look (·.functor t)
  let content := (← get).content? t
  let copy ← compound functor args
  if let some value := content then
    putContent copy value
  return copy

/-- Attaches a value to a compound term that resolves, instead of the one
it had. -/
def attach (t : Term) (value : V) : BuildM V Unit :=
  match t with
  | .compound r => do
    let _ ← look (·.node t r)
    putContent t value
  | _ => throw (.unexpectedKind .compound t.kind)

/-! ## Variables and text -/

/-- A new variable. Its name is not blank and not a singleton's. -/
def declareVar (name : String) (type : VarType) : BuildM V Term := do
  if Text.isBlank name then
    throw .blankVarName
  if name = "_" ∨ name = "." then
    throw .reservedVarName
  addVar name type

/-- The term that a text stands for. An underscore is the anonymous
variable; a text that begins with a capital or an underscore is a new
variable; the empty text is the compound term with the empty functor;
anything else is a plain atom, also where a control constant has the same
name. -/
def ofText (text : String) : BuildM V Term :=
  if text = "_" then return .anon
  else
    match text.toList with
    | [] => addCompound "" []
    | first :: _ =>
      if Text.isCapital first || first == '_' then declareVar text .str
      else return .atom text

/-! ## Setting an index

Only named variables and compound terms have an index to set. Setting one
on any other term, or through a handle that does not resolve, changes
nothing; like reading an index it asks for the arena and the place, and not
for the kind of the node. -/

/-- Sets the index of a variable or a compound term. -/
def setIndex (t : Term) (index : Index) : BuildM V Unit := fun a =>
  match t with
  | .var r | .compound r =>
    if r.arena = a.id then .ok () { a with indexes := a.indexes.setIfInBounds r.id index }
    else .ok () a
  | _ => .ok () a

/-- Takes the index of a variable or a compound term away. -/
def dropIndex (t : Term) : BuildM V Unit := setIndex t .unassigned

/-- A new variable with the name, the type and the index of `t`. The
singletons cannot be copied. -/
def duplicateVar (t : Term) : BuildM V Term :=
  match t with
  | .anon => throw (.singletonCopy "_")
  | .whole => throw (.singletonCopy ".")
  | _ => do
    match (← get).namedVar? t with
    | none => throw ((← get).notVariable t)
    | some (name, type) =>
      let index ← look (·.index t)
      let copy ← addVar name type
      setIndex copy index
      return copy

end Arena

end TermGraph
