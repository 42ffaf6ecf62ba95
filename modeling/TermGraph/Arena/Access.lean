import TermGraph.Arena.Basic
import TermGraph.Signature

/-!
# Reading a term — name, arguments, signature, index, content

A reader takes the arena and a handle. It answers what the node says if
the handle resolves and is of the node's kind, and otherwise the error
that fits: a handle that does not resolve, or that resolves to a node of
another kind, is foreign; a term of a kind that has no such thing is of an
unexpected kind.

Atoms are compound terms with no arguments as far as these readers are
concerned: they have a name, an arity and a signature.
-/

namespace TermGraph

namespace Arena

variable {V : Type}

/-! ## Compound terms and atoms -/

/-- The name of a variable, an atom or a compound term. -/
def name (a : Arena V) (t : Term) : Except TermError String :=
  match t with
  | .atom name => .ok name
  | .anon => .ok "_"
  | .whole => .ok "."
  | .control c => .ok c.name
  | .var r => do
    match ← a.node t r with
    | .var name _ => .ok name
    | _ => .error (.foreignTerm t)
  | .compound r => do
    match ← a.node t r with
    | .compound name _ _ => .ok name
    | _ => .error (.foreignTerm t)
  | .int _ | .real _ | .payload _ => .error (.unexpectedKind .named t.kind)

/-- The arguments of a compound term. Atoms have none. -/
def args (a : Arena V) (t : Term) : Except TermError (List Term) :=
  match t with
  | .atom _ | .control _ => .ok []
  | .compound r => do
    match ← a.node t r with
    | .compound _ _ span => a.operandsOf t span
    | _ => .error (.foreignTerm t)
  | _ => .error (.unexpectedKind .compound t.kind)

/-- The number of arguments. -/
def arity (a : Arena V) (t : Term) : Except TermError Nat := do
  let args ← a.args t
  return args.length

/-- The argument at a position, counted from zero. -/
def arg (a : Arena V) (t : Term) (index : Nat) : Except TermError Term := do
  let args ← a.args t
  match args[index]? with
  | some arg => .ok arg
  | none => .error (.argumentOutOfRange index args.length)

/-- The signature of a compound term or an atom. -/
def signature (a : Arena V) (t : Term) : Except TermError String :=
  match t with
  | .compound r => do
    match ← a.node t r with
    | .compound _ signature _ => .ok signature
    | _ => .error (.foreignTerm t)
  | .atom name => .ok (Signature.text name 0)
  | .control c => .ok (Signature.text c.name 0)
  | _ => .error (.unexpectedKind .compound t.kind)

/-- The first of two arguments. -/
def lhs (a : Arena V) (t : Term) : Except TermError Term := do
  match ← a.args t with
  | [left, _] => .ok left
  | _ => .error (.notBinary t)

/-- The second of two arguments. -/
def rhs (a : Arena V) (t : Term) : Except TermError Term := do
  match ← a.args t with
  | [_, right] => .ok right
  | _ => .error (.notBinary t)

/-- A plain atom, a control constant, or a compound term without
arguments. -/
def isAtom (a : Arena V) (t : Term) : Bool :=
  match t with
  | .atom _ | .control _ => true
  | .compound _ =>
    match a.args t with
    | .ok args => args.isEmpty
    | .error _ => false
  | _ => false

/-- A number or an atom. -/
def isAtomic (a : Arena V) (t : Term) : Bool := t.isNumber || a.isAtom t

/-- The functor of a compound term. A plain atom is not one. -/
def functor (a : Arena V) (t : Term) : Except TermError String :=
  match t with
  | .control c => .ok c.name
  | .compound r => do
    match ← a.node t r with
    | .compound name _ _ => .ok name
    | _ => .error (.foreignTerm t)
  | _ => .error (.unexpectedKind .compound t.kind)

/-- The functor and the arguments of a compound term, if it resolves. -/
def shell? (a : Arena V) (t : Term) : Option (String × List Term) :=
  match a.functor t, a.args t with
  | .ok name, .ok args => some (name, args)
  | _, _ => none

/-- The arguments of a compound term, after checking its functor and its
number of arguments where they are given. The functor is checked first. -/
def unpack (a : Arena V) (t : Term) (functor : Option String) (arity : Option Nat) :
    Except TermError (List Term) := do
  unless t.isCompound do
    throw (.unexpectedKind .compound t.kind)
  if let some expected := functor then
    let found ← a.name t
    if found ≠ expected then
      throw (.unexpectedName t)
  let args ← a.args t
  if let some expected := arity then
    if args.length ≠ expected then
      throw (.unexpectedArity expected args.length)
  return args

/-! ## Variables -/

/-- What a handle that is no resolvable variable fails with. -/
def notVariable (a : Arena V) (t : Term) : TermError :=
  match a.verify t with
  | .error e => e
  | .ok () => .unexpectedKind .var t.kind

/-- The name of a variable. -/
def varName (a : Arena V) (t : Term) : Except TermError String :=
  match t with
  | .anon => .ok "_"
  | .whole => .ok "."
  | _ =>
    match a.namedVar? t with
    | some (name, _) => .ok name
    | none => .error (a.notVariable t)

/-- The declared type of a variable; the anonymous one has none. -/
def varType (a : Arena V) (t : Term) : Except TermError (Option VarType) :=
  match t with
  | .anon => .ok none
  | .whole => .ok (some .any)
  | _ =>
    match a.namedVar? t with
    | some (_, type) => .ok (some type)
    | none => .error (a.notVariable t)

/-- A named variable whose name begins with an underscore. -/
def isUnderscored (a : Arena V) (t : Term) : Bool :=
  match a.namedVar? t with
  | some (name, _) => name.toList.head? == some '_'
  | none => false

/-- Orders two variables by name, code point by code point. The first name
is looked up first. -/
def compareNames (a : Arena V) (s t : Term) : Except TermError Ordering := do
  let left ← a.varName s
  let right ← a.varName t
  return compare left right

/-! ## Index and content -/

/-- The index of a term. The anonymous variable always has its mark, and
terms without a node have no index. -/
def index (a : Arena V) (t : Term) : Except TermError Index :=
  match t with
  | .anon => .ok .anonymous
  | .var r | .compound r | .payload r => do
    let _ ← a.node t r
    return (a.indexes[r.id]?).getD .unassigned
  | .int _ | .real _ | .atom _ | .control _ | .whole => .ok .unassigned

/-- The term resolves and has an index; the anonymous mark counts. -/
def hasIndex (a : Arena V) (t : Term) : Bool :=
  match a.index t with
  | .ok i => i.isAssigned
  | .error _ => false

/-- The value attached to a compound term. -/
def content? (a : Arena V) : Term → Option V
  | .compound r => if r.arena = a.id then a.contents.get? r.id else none
  | _ => none

end Arena

end TermGraph
