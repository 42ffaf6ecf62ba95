import TermGraph.Arena.Build
import TermGraph.Arena.Descent
import TermGraph.Binary64
import TermGraph.Name

/-!
# Typed variables — terms read back as host values

Six host types can be read from a term. Reading is a partial function of
the term: an atom gives its name, a whole number gives an integer of a
width it fits, any number gives a real, a truth value gives a Boolean, and
every term gives itself. A plain atom called `true` is not a truth value.

A typed variable is a handle of a variable whose bindings are to be read
as one of these types. The type is a parameter, so two variables of
different types cannot be mistaken for each other.
-/

namespace TermGraph

/-- A host type that terms are read as. -/
class HostType (α : Type) where
  /-- The declared type of a variable with such values. -/
  type : VarType
  /-- The value of a term, if it is of this type. -/
  ofTerm? {V : Type} : Arena V → Term → Option α

instance : HostType Term where
  type := .term
  ofTerm? _ t := some t

instance : HostType String where
  type := .str
  ofTerm? a t := if a.isAtom t then (a.name t).toOption else none

instance : HostType Int64 where
  type := .long
  ofTerm? _
    | .int i => some i
    | _ => none

instance : HostType Int32 where
  type := .int
  ofTerm? _
    | .int i =>
      if Int32.minValue.toInt ≤ i.toInt ∧ i.toInt ≤ Int32.maxValue.toInt then
        some (Int32.ofInt i.toInt)
      else none
    | _ => none

instance : HostType Binary64 where
  type := .double
  ofTerm? _
    | .real x => some x
    | .int i => some (Binary64.ofInt i.toInt)
    | _ => none

instance : HostType Bool where
  type := .bool
  ofTerm? _
    | .control .yes => some true
    | .control .no => some false
    | _ => none

/-- A variable whose bindings are read as values of `α`. -/
structure TypedVar (α : Type) where
  term : Term

namespace TypedVar

variable {V α : Type}

/-- The two variables are one. -/
def same (x y : TypedVar α) : Bool := x.term.same y.term

/-- The name of the variable. -/
def name (a : Arena V) (x : TypedVar α) : Except TermError String := a.name x.term

variable (α) [HostType α]

/-- A new variable with a name and the type of its bindings. -/
def new (name : String) : BuildM V (TypedVar α) := do
  return ⟨← Arena.declareVar name (HostType.type α)⟩

/-- A new variable with the next name of the supply. -/
def fresh : WorkM V NameSupply (TypedVar α) := do
  let supply := (← get).carried
  WorkM.carry NameSupply.next
  return ⟨← WorkM.onArena (Arena.addVar supply.name (HostType.type α))⟩

end TypedVar

end TermGraph
