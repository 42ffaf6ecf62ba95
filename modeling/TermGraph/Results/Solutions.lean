import TermGraph.Arena.Replace
import TermGraph.Results.Basic
import TermGraph.TypedVar

/-!
# Solutions — frames of bindings, and what is read from them

A solution of a goal in normal form is a frame: the value of the variable
with index `i` stands at place `i`. A place that is missing, or that holds
a variable, is unbound.

Three projections are read from a list of solutions. `term` answers the
value of one variable in every solution, `values` reads these as a host
type, and `whole` answers the goal itself with every solution put in.

A projection of a variable reports the first reason it fails for, in this
order: the handle is no variable; the variable has no index; some solution
does not bind it; some value is of another type. So an unbound solution is
reported even when an earlier one holds a value of the wrong type, and of
several solutions at fault the earliest is named.
-/

namespace TermGraph

/-- Why a projection failed. -/
inductive ResultsError
  /-- A question about a list of results has no answer. -/
  | cardinality (cause : CardinalityError)
  /-- The variable has no place in frames. -/
  | notIndexed (name : String)
  /-- A solution does not bind the variable. -/
  | unboundVar (name : String) (solution : Nat)
  /-- A value cannot be read as the type asked for. -/
  | typeMismatch (name : String) (solution : Nat) (expected : VarType)
  /-- The goal is not known. -/
  | noGoal
  /-- An operation on terms failed. -/
  | term (cause : TermError)
  deriving DecidableEq

/-- The wording of a cause. -/
def ResultsError.message : ResultsError → String
  | cardinality cause => cause.message
  | notIndexed name => "variable " ++ name ++ " has no index (the goal was not normalized)"
  | unboundVar name solution =>
    "variable " ++ name ++ " is unbound in solution " ++ toString solution
  | typeMismatch name solution expected =>
    "value of variable " ++ name ++ " in solution " ++ toString solution ++
      " is not of type " ++ expected.text
  | noGoal => "the whole solution needs the goal the solutions belong to"
  | term cause => cause.message

/-- Solutions of a goal, which need not be known. -/
structure Solutions where
  goal : Option Term
  frames : List (List Term)

namespace Solutions

variable {V : Type}

/-- The frames as results. -/
def results (s : Solutions) : Results (List Term) := ⟨s.frames⟩

/-- One more solution, after the others. -/
def push (s : Solutions) (frame : List Term) : Solutions :=
  { s with frames := s.frames ++ [frame] }

/-- The value of every element of a list, or the error of the first that
has none; elements are numbered from `start`. -/
def readEach {α β ε : Type} (value : α → Option β) (fault : Nat → ε) :
    Nat → List α → Except ε (List β)
  | _, [] => .ok []
  | start, x :: xs =>
    match value x with
    | none => .error (fault start)
    | some y => do
      return y :: (← readEach value fault (start + 1) xs)

/-- An operation on terms, as part of a projection. -/
def onTerms {α : Type} : Except TermError α → Except ResultsError α
  | .ok x => .ok x
  | .error e => .error (.term e)

/-- The value of a variable in every solution. -/
def term (s : Solutions) (a : Arena V) (t : Term) : Except ResultsError (Results Term) := do
  let name ← onTerms (a.varName t)
  let index ← onTerms (a.index t)
  if index.place?.isNone then
    throw (.notIndexed name)
  let values ← readEach (Arena.boundIn? · index) (.unboundVar name) 0 s.frames
  return ⟨values⟩

/-- The value of a typed variable in every solution, read as its type. -/
def values {α : Type} [HostType α] (s : Solutions) (a : Arena V) (x : TypedVar α) :
    Except ResultsError (Results α) := do
  let name ← onTerms (x.name a)
  let found ← s.term a x.term
  let values ←
    readEach (HostType.ofTerm? a) (.typeMismatch name · (HostType.type α)) 0 found.toList
  return ⟨values⟩

/-- A computation on an arena that can fail as a projection. -/
abbrev ProjectM (V : Type) := EStateM ResultsError (Arena V)

/-- Building, as part of a projection. -/
def onArena {α : Type} (m : BuildM V α) : ProjectM V α := fun a =>
  match m a with
  | .ok x a => .ok x a
  | .error e a => .error (.term e) a

/-- The goal with every solution put in. Unbound variables stay. -/
def whole (s : Solutions) : ProjectM V (Results Term) := do
  match s.goal with
  | none => throw .noGoal
  | some goal => return ⟨← s.frames.mapM fun frame => onArena (Arena.substitute goal frame)⟩

end Solutions

end TermGraph
