import TermGraph.Binary64
import TermGraph.Decimal
import TermGraph.Text.Quoted

/-!
# Terms — handles, and when two of them are one

A term is a HANDLE: a small value that says what a term is. Numbers, plain
atoms, the control constants and the two singleton variables are complete
in themselves and belong to every arena. A variable, a compound term or a
payload is a node of one arena, and its handle is a reference: the arena,
and the place of the node in it.

`same` is identity. Two references are one term when they refer to one
node; two inline values are one term when they are equal, and reals are
compared as numbers. So a real that is not a number is not even the same
as itself, and the two zeros are the same although their patterns differ.
Equality of the handles themselves, `=`, is the finer relation that also
tells patterns apart.

The control constants `!`, `true` and `false` are compound terms without
arguments, and not plain atoms, so a solver can recognise them by their
handle. A plain atom may nevertheless be CALLED `true`: text that is
coerced into a term is never a control constant.
-/

namespace TermGraph

/-- Which arena a reference belongs to. Copies of an arena keep its
number. -/
structure ArenaId where
  number : Nat
  deriving DecidableEq, Inhabited

/-- A node: its arena, and its place there. -/
structure Reference where
  arena : ArenaId
  id : Nat
  deriving DecidableEq, Inhabited

/-- The control constants: the cut and the two truth values. -/
inductive Control
  | cut
  | yes
  | no
  deriving DecidableEq

namespace Control

/-- The name of a control constant. -/
def name : Control → String
  | cut => "!"
  | yes => "true"
  | no => "false"

/-- The control constant with this name. -/
def ofName? (name : String) : Option Control :=
  [cut, yes, no].find? (·.name == name)

/-- The truth value of a Boolean. -/
def ofBool (b : Bool) : Control := if b then yes else no

/-- Control constants have different names. -/
theorem ofName?_name (c : Control) : ofName? c.name = some c := by
  cases c <;> decide

end Control

/-- A term, as a handle. -/
inductive Term
  /-- A whole number. -/
  | int (value : Int64)
  /-- A floating-point number. -/
  | real (value : Binary64)
  /-- A plain atom. -/
  | atom (name : String)
  /-- A control constant. -/
  | control (constant : Control)
  /-- The anonymous variable `_`. -/
  | anon
  /-- The variable `.`, which stands for a whole solution. -/
  | whole
  /-- A named variable. -/
  | var (ref : Reference)
  /-- A compound term. -/
  | compound (ref : Reference)
  /-- A host value carried without interpretation. -/
  | payload (ref : Reference)
  deriving DecidableEq, Inhabited

/-- The kinds of terms that messages distinguish. -/
inductive Kind
  | int
  | real
  | atom
  | payload
  | var
  | compound
  deriving DecidableEq

/-- The word for a kind. -/
def Kind.text : Kind → String
  | int => "int"
  | real => "real"
  | atom => "atom"
  | payload => "opaque"
  | var => "var"
  | compound => "struct"

namespace Term

/-! ## Identity -/

/-- The two handles denote one term. -/
def same : Term → Term → Bool
  | real x, real y => x.numEq y
  | a, b => decide (a = b)

/-- The two lists denote the same terms, place by place. -/
def sameAll : List Term → List Term → Bool
  | [], [] => true
  | a :: as, b :: bs => a.same b && sameAll as bs
  | _, _ => false

/-! ## Kinds -/

/-- The kind of a term. The singletons are variables, and the control
constants are compound. -/
def kind : Term → Kind
  | int _ => .int
  | real _ => .real
  | atom _ => .atom
  | control _ | compound _ => .compound
  | anon | whole | var _ => .var
  | payload _ => .payload

/-- A variable, the singletons included. -/
def isVar (t : Term) : Bool := t.kind = .var

/-- The anonymous variable. -/
def isAnon : Term → Bool
  | anon => true
  | _ => false

/-- The variable that stands for a whole solution. -/
def isWhole : Term → Bool
  | whole => true
  | _ => false

/-- A variable that is neither singleton. -/
def isNamedVar : Term → Bool
  | var _ => true
  | _ => false

/-- A compound term, the control constants included. -/
def isCompound (t : Term) : Bool := t.kind = .compound

/-- An atom that is not a control constant. -/
def isPlainAtom (t : Term) : Bool := t.kind = .atom

/-- A whole number. -/
def isInt (t : Term) : Bool := t.kind = .int

/-- A floating-point number. -/
def isReal (t : Term) : Bool := t.kind = .real

/-- A number. -/
def isNumber (t : Term) : Bool := t.isInt || t.isReal

/-- A host value. -/
def isPayload (t : Term) : Bool := t.kind = .payload

/-! ## References -/

/-- The node a handle refers to, if it refers to one. -/
def ref? : Term → Option Reference
  | var r | compound r | payload r => some r
  | _ => none

/-- The atom of a name: the control constant if the name is one's, a plain
atom otherwise. -/
def ofAtomName (name : String) : Term :=
  match Control.ofName? name with
  | some c => control c
  | none => atom name

/-- A bound on the levels of nodes at and under a term. An argument is
older than the node that holds it, so its place is smaller. The kind that
the handle claims does not matter: what is walked is the node it resolves
to. -/
def height (t : Term) : Nat :=
  match t.ref? with
  | some r => r.id + 2
  | none => 1

/-- Every term is one level high at least. -/
theorem height_pos (t : Term) : 0 < t.height := by
  unfold height
  split <;> omega

/-- Identity does not depend on the order of the handles. -/
theorem same_comm (a b : Term) : a.same b = b.same a := by
  cases a <;> cases b <;> simp [same, Binary64.numEq_comm, eq_comm]

/-- A handle is identical to itself, unless it is a real that is not a
number. -/
theorem same_self (t : Term) : t.same t = match t with
    | real x => !x.isNaN
    | _ => true := by
  cases t <;> simp [same, Binary64.numEq_self]

end Term

/-! ## The diagnostic form of a handle

A diagnostic shows what the handle itself says, and nothing that would
need the arena: an inline value in full, a reference as its arena and its
place. It is meant for messages, and nothing reads it back. -/

/-- The diagnostic form of an arena's number. -/
def ArenaId.debugText (a : ArenaId) : String := "ArenaID(#" ++ toString a.number ++ ")"

/-- The diagnostic form of a reference, under the word for its kind. -/
def Reference.debugText (label : String) (r : Reference) : String :=
  label ++ " \x7b arena_id: " ++ r.arena.debugText ++ ", id: " ++ toString r.id ++ " \x7d"

/-- The diagnostic form of a control constant. -/
def Control.debugText : Control → String
  | cut => "Cut"
  | yes => "True"
  | no => "False"

/-- The diagnostic form of a handle. -/
def Term.debugText : Term → String
  | int i => "Int(" ++ toString i.toInt ++ ")"
  | real r => "Real(" ++ r.debugText ++ ")"
  | atom name => "Atom \x7b name: " ++ Text.escaped name ++ " \x7d"
  | control c => c.debugText
  | anon => "Anon"
  | whole => "WholeSolution"
  | var r => r.debugText "Var"
  | compound r => r.debugText "Struct"
  | payload r => r.debugText "Opaque"

end TermGraph
