import TermGraph.Arena.Descent
import TermGraph.Binary64

/-!
# Host values — what can be coerced into a term

A host program offers numbers, truth values, texts, payloads and terms it
has already, any of them possibly absent. Coercion makes a term of each:

- a whole number of any width stays whole if it fits 64 bits, and becomes
  the nearest real otherwise; it is never reduced modulo anything;
- a real keeps its value, and a single-precision one is widened exactly;
- a truth value is a control constant, a text is read as in `ofText`;
- an absent value is refused, wherever it stands.

A host value may also be a compound term to build on the spot. Its
arguments are coerced from left to right and the first failure ends the
coercion; nodes made before it stay.

Last, a host program may offer a closure: a computation that makes the
term when its turn comes. What is said of a compound term over host values
is true of one over closures, of which the other is a case.
-/

namespace TermGraph

/-- The whole number if it fits 64 bits, the nearest real otherwise. -/
def Term.ofInt (i : Int) : Term :=
  if Int64.minValue.toInt ≤ i ∧ i ≤ Int64.maxValue.toInt then .int (Int64.ofInt i)
  else .real (Binary64.ofInt i)

/-- A value that a host program offers as a term. -/
inductive HostValue (V : Type)
  /-- No value. -/
  | absent
  /-- A value that could have been absent. -/
  | present (value : HostValue V)
  /-- A whole number of any width. -/
  | int (value : Int)
  /-- A single-precision number, as its bits. -/
  | single (bits : UInt32)
  /-- A floating-point number. -/
  | real (value : Binary64)
  /-- A truth value. -/
  | bool (value : Bool)
  /-- A text, read by the convention for variables and atoms. -/
  | text (value : String)
  /-- A value to carry without interpretation. -/
  | payload (value : V)
  /-- A term. -/
  | term (value : Term)
  /-- The atom of a name. -/
  | atom (name : String)
  /-- A new variable of any type. -/
  | var (name : String)
  /-- A compound term to build. -/
  | compound (functor : String) (args : List (HostValue V))
  deriving Inhabited

namespace HostValue

variable {V : Type}

mutual

/-- The term of a host value. -/
def toTerm : HostValue V → BuildM V Term
  | absent => throw .absentValue
  | present value => value.toTerm
  | int i => return Term.ofInt i
  | single bits => return .real (Binary64.ofBinary32 bits)
  | real x => return .real x
  | bool b => return .control (Control.ofBool b)
  | text s => Arena.ofText s
  | payload value => Arena.payload value
  | term t => return t
  | atom name => return Term.ofAtomName name
  | var name => Arena.declareVar name .any
  | compound functor args => do
    Arena.compound functor (← toTerms args)

/-- The terms of a list of host values, from left to right. -/
def toTerms : List (HostValue V) → BuildM V (List Term)
  | [] => return []
  | value :: rest => do
    let t ← value.toTerm
    return t :: (← toTerms rest)

end

/-- The terms of the arguments of a functor, from left to right. An absent
argument is reported with its position. -/
def toArguments (functor : String) : Nat → List (HostValue V) → BuildM V (List Term)
  | _, [] => return []
  | index, value :: rest => do
    let t ← fun a =>
      match value.toTerm a with
      | .error .absentValue a => .error (.missingArgument functor index) a
      | answer => answer
    return t :: (← toArguments functor (index + 1) rest)

end HostValue

/-- The compound term of a functor over host values. -/
def Arena.compoundOf {V : Type} (functor : String) (args : List (HostValue V)) :
    BuildM V Term := do
  compound functor (← HostValue.toArguments functor 0 args)

/-! ## Closures -/

section Closures

variable {V σ α β : Type}

/-- What a closure makes for the argument at a position. An absent value is
reported with the position. -/
def HostValue.argumentFrom (functor : String) (index : Nat) (closure : WorkM V σ Term) :
    WorkM V σ Term := fun w =>
  match closure w with
  | .error .absentValue w => .error (.missingArgument functor index) w
  | answer => answer

/-- The terms that closures make for the arguments of a functor, from left
to right. -/
def HostValue.argumentsFrom (functor : String) :
    Nat → List (WorkM V σ Term) → WorkM V σ (List Term)
  | _, [] => return []
  | index, closure :: rest => do
    let t ← argumentFrom functor index closure
    return t :: (← argumentsFrom functor (index + 1) rest)

/-- The compound term of a functor over what closures make. -/
def Arena.compoundFrom (functor : String) (args : List (WorkM V σ Term)) : WorkM V σ Term := do
  let terms ← HostValue.argumentsFrom functor 0 args
  WorkM.onArena (compound functor terms)

/-- Work on the arena, one piece after another. -/
theorem WorkM.onArena_bind (m : BuildM V α) (f : α → BuildM V β) :
    WorkM.onArena (σ := σ) (m >>= f) = WorkM.onArena m >>= fun x => WorkM.onArena (f x) := by
  funext ⟨a, x⟩
  simp only [WorkM.onArena, bind, EStateM.bind]
  cases m a <;> rfl

/-- Coercing a host value is a closure like any other. -/
theorem HostValue.argumentsFrom_toTerm (functor : String) (values : List (HostValue V)) :
    ∀ index, argumentsFrom (σ := σ) functor index (values.map fun v => WorkM.onArena v.toTerm) =
      WorkM.onArena (toArguments functor index values) := by
  induction values with
  | nil => exact fun _ => rfl
  | cons value rest ih =>
    intro index
    funext ⟨a, x⟩
    rw [List.map_cons, argumentsFrom, ih (index + 1)]
    simp only [toArguments, argumentFrom, WorkM.onArena, bind, EStateM.bind]
    cases value.toTerm a with
    | ok t b =>
      dsimp only
      cases toArguments functor (index + 1) rest b <;> rfl
    | error e b => cases e <;> rfl

/-- A compound term over host values is one over closures. -/
theorem Arena.compoundFrom_toTerm (functor : String) (values : List (HostValue V)) :
    compoundFrom (σ := σ) functor (values.map fun v => WorkM.onArena v.toTerm) =
      WorkM.onArena (compoundOf functor values) := by
  rw [compoundFrom, HostValue.argumentsFrom_toTerm, compoundOf, WorkM.onArena_bind]

end Closures

end TermGraph
