import TermGraph.Error

/-!
# The arena — what it stores

An arena owns the nodes that terms refer to. It is five tables:

- `nodes`, addressed by the place in a reference;
- `operands`, one store for the arguments of all compound terms, in which
  every compound node owns a run;
- `indexes`, one index per node;
- `contents`, the values attached to compound terms, by place;
- and its number, which every reference into it repeats.

A reference resolves when it repeats the arena's number and its place is
taken. Copies of an arena keep the number, so a reference made before the
copy resolves in both; one made afterwards in either copy may resolve in
the other to an unrelated node, and of another kind than the handle says.
That is why every reader below looks at the node AND at the handle.

## What this module does not say

Nothing here forbids tables that contradict each other. That the tables
built by the operations of this library never do is a fact about those
operations: the index table is as long as the node table, runs lie inside
the operand store, and an argument is older than the term that holds it.
-/

namespace TermGraph

/-! ## Indexes

Numbering gives every named variable its place in the frame of bindings,
and every compound term the count of variables met by its end. Until then
a node has no index. The anonymous variable has a mark instead of a place:
it never takes one. -/

/-- The index of a term. -/
inductive Index
  | unassigned
  | anonymous
  | assigned (place : Nat)
  deriving DecidableEq, Inhabited

namespace Index

/-- The term is not waiting for an index; the anonymous mark counts. -/
def isAssigned : Index → Bool
  | unassigned => false
  | anonymous | assigned _ => true

/-- The place in the frame. -/
def place? : Index → Option Nat
  | assigned n => some n
  | unassigned | anonymous => none

/-- The text of an index. -/
def text : Index → String
  | unassigned => "?"
  | anonymous => "_"
  | assigned n => toString n

/-- The diagnostic form of an index. -/
def debugText : Index → String
  | unassigned => "Unassigned"
  | anonymous => "Anonymous"
  | assigned n => "Assigned(" ++ toString n ++ ")"

end Index

/-! ## The declared type of a variable

A variable carries the type its bindings are expected to have. The type
plays no part in building or comparing terms; it is read when solutions
are projected. -/

/-- What the values of a variable are read as. -/
inductive VarType
  | any
  | str
  | int
  | long
  | double
  | bool
  | term
  deriving DecidableEq

namespace VarType

/-- The name of a type. -/
def text : VarType → String
  | any => "Any"
  | str => "Str"
  | int => "Int"
  | long => "Long"
  | double => "Double"
  | bool => "Bool"
  | term => "Term"

/-- All types. -/
def all : List VarType := [any, str, int, long, double, bool, term]

/-- The type with this name. -/
def ofText? (s : String) : Option VarType := all.find? (·.text == s)

/-- Types have different names, so reading one back finds it. -/
theorem ofText?_text (t : VarType) : ofText? t.text = some t := by
  cases t <;> decide

end VarType

/-! ## The tables -/

/-- A run of the operand store. -/
structure Span where
  start : Nat
  length : Nat
  deriving DecidableEq, Inhabited

/-- What a reference refers to. The signature of a compound node is stored
with it. -/
inductive Node (V : Type)
  | var (name : String) (type : VarType)
  | compound (name : String) (signature : String) (span : Span)
  | payload (value : V)
  deriving DecidableEq

/-- The values attached to nodes, by place. -/
structure ContentTable (V : Type) where
  entries : List (Nat × V)

namespace ContentTable

variable {V : Type}

/-- No value is attached to anything. -/
def empty : ContentTable V := ⟨[]⟩

/-- The value attached to a place. -/
def get? (c : ContentTable V) (place : Nat) : Option V :=
  (c.entries.find? (·.1 == place)).map (·.2)

/-- Attaches a value to a place, instead of the one it had. -/
def insert (c : ContentTable V) (place : Nat) (value : V) : ContentTable V :=
  ⟨(place, value) :: c.entries.filter (·.1 != place)⟩

/-- The number of places with a value. -/
def size (c : ContentTable V) : Nat := c.entries.length

@[simp] theorem get?_empty (place : Nat) : (empty : ContentTable V).get? place = none := rfl

/-- A value that was just attached is found. -/
@[simp] theorem get?_insert_self (c : ContentTable V) (place : Nat) (value : V) :
    (c.insert place value).get? place = some value := by
  simp [get?, insert]

/-- Attaching a value to one place leaves every other place alone. -/
theorem get?_insert_of_ne (c : ContentTable V) {place other : Nat} (value : V)
    (h : other ≠ place) : (c.insert place value).get? other = c.get? other := by
  have hne : (place == other) = false := by simpa using Ne.symm h
  simp only [get?, insert, List.find?_cons, hne, List.find?_filter]
  congr 1
  apply congrArg (fun p => List.find? p c.entries)
  funext e
  by_cases he : e.1 = other
  · simp [he, h]
  · simp [he]

end ContentTable

/-- The nodes of terms, with their arguments, indexes and contents. -/
structure Arena (V : Type) where
  id : ArenaId
  nodes : Array (Node V)
  operands : Array Term
  indexes : Array Index
  contents : ContentTable V

namespace Arena

variable {V : Type}

/-- The arena without nodes. -/
def empty (id : ArenaId) : Arena V :=
  { id, nodes := #[], operands := #[], indexes := #[], contents := .empty }

/-! ## Resolving references -/

/-- The node that a reference refers to. -/
def node? (a : Arena V) (r : Reference) : Option (Node V) :=
  if r.arena = a.id then a.nodes[r.id]? else none

/-- The node that a reference refers to; a failure reports the handle. -/
def node (a : Arena V) (t : Term) (r : Reference) : Except TermError (Node V) :=
  match a.node? r with
  | some n => .ok n
  | none => .error (.foreignTerm t)

/-- The handle resolves. Inline values belong to every arena. -/
def resolves (a : Arena V) (t : Term) : Bool :=
  match t.ref? with
  | none => true
  | some r => (a.node? r).isSome

/-- Refuses a handle that does not resolve. -/
def verify (a : Arena V) (t : Term) : Except TermError Unit :=
  if a.resolves t then .ok () else .error (.foreignTerm t)

/-- Refuses the first handle of a list that does not resolve. -/
def verifyAll (a : Arena V) (ts : List Term) : Except TermError Unit :=
  match ts.find? (!a.resolves ·) with
  | some t => .error (.foreignTerm t)
  | none => .ok ()

/-- A list passes exactly when all its handles resolve. -/
theorem verifyAll_eq_ok_iff (a : Arena V) (ts : List Term) :
    a.verifyAll ts = .ok () ↔ ∀ t ∈ ts, a.resolves t = true := by
  unfold verifyAll
  split
  · next t h =>
    have hmem := List.mem_of_find?_eq_some h
    have hnot := List.find?_some h
    simp only [reduceCtorEq, false_iff]
    intro hall
    simp [hall t hmem] at hnot
  · next h => simpa using h

/-- The arguments in a run, if the run lies inside the store. -/
def operandsIn? (a : Arena V) (s : Span) : Option (List Term) :=
  if s.start + s.length ≤ a.operands.size then
    some (a.operands.extract s.start (s.start + s.length)).toList
  else none

/-- The arguments in a run; a failure reports the handle they belong to. -/
def operandsOf (a : Arena V) (t : Term) (s : Span) : Except TermError (List Term) :=
  match a.operandsIn? s with
  | some ts => .ok ts
  | none => .error (.foreignTerm t)

/-! ## The named variable and the payload behind a handle -/

/-- The name and type of a named variable, if the handle is a variable's
and so is the node. -/
def namedVar? (a : Arena V) : Term → Option (String × VarType)
  | .var r =>
    match a.node? r with
    | some (.var name type) => some (name, type)
    | _ => none
  | _ => none

/-- The host value of a payload, if the handle is a payload's and so is the
node. -/
def payloadValue? (a : Arena V) : Term → Option V
  | .payload r =>
    match a.node? r with
    | some (.payload value) => some value
    | _ => none
  | _ => none

end Arena

end TermGraph
