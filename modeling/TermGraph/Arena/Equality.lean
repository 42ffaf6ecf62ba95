import TermGraph.Arena.Descent
import TermGraph.Payload

/-!
# The two equalities

Two terms can be the same in three ways. `Term.same` is identity and needs
no arena. The two relations here compare what the handles refer to:

- STRUCTURAL equality compares shapes. Compound terms are equal when their
  functors are and their arguments are, in pairs. Two different variables
  are never equal, whatever their names.
- VALUE equality differs from it on variables only: they are equal when
  they have the same name and the same index.

Both contain identity, so both hold between two handles of one node. On
reals they add to it the patterns that are equal without being the same
number: a value that is not a number is equal to its own pattern. Terms
that do not resolve are equal only to themselves.
-/

namespace TermGraph

/-- Related in pairs, and of one length. -/
def pairwiseAll {α β : Type} (related : α → β → Bool) : List α → List β → Bool
  | [], [] => true
  | x :: xs, y :: ys => related x y && pairwiseAll related xs ys
  | _, _ => false

namespace Arena

variable {V : Type}

/-- The two compound terms have the same functor and related arguments. -/
def sameShape (a : Arena V) (related : Term → Term → Bool) (s t : Term) : Bool :=
  match a.shell? s, a.shell? t with
  | some (f, ss), some (g, ts) => f == g && pairwiseAll related ss ts
  | _, _ => false

variable [Payload V]

/-- One level of structural equality. -/
def structuralStep (a : Arena V) (recur : Term → Term → Bool) (s t : Term) : Bool :=
  s.same t ||
    match s, t with
    | .payload _, .payload _ =>
      match a.payloadValue? s, a.payloadValue? t with
      | some x, some y => Payload.same x y
      | _, _ => false
    | .real x, .real y => decide (x = y)
    | _, _ => s.isCompound && t.isCompound && a.sameShape recur s t

/-- The terms are equal in shape. -/
def structurallyEqual (a : Arena V) (s t : Term) : Bool :=
  walk (fun _ _ => false) a.structuralStep s t

/-- Structural equality compares arguments by itself. -/
theorem structurallyEqual_eq (a : Arena V) (s t : Term) :
    a.structurallyEqual s t =
      a.structuralStep
        (fun arg => if arg.height < s.height then a.structurallyEqual arg else fun _ => false) s t :=
  congrFun (walk_eq s) t

/-- One level of value equality. -/
def valueStep (a : Arena V) (recur : Term → Term → Bool) (s t : Term) : Bool :=
  s.same t ||
    match s, t with
    | .var _, .var _ =>
      match a.namedVar? s, a.namedVar? t with
      | some (x, _), some (y, _) =>
        x == y && decide ((a.index s).toOption = (a.index t).toOption)
      | _, _ => false
    | _, _ =>
      if s.isCompound && t.isCompound then a.sameShape recur s t
      else a.structurallyEqual s t

/-- The terms are equal in value: variables by name and index. -/
def valueEqual (a : Arena V) (s t : Term) : Bool :=
  walk (fun _ _ => false) a.valueStep s t

/-- Value equality compares arguments by itself. -/
theorem valueEqual_eq (a : Arena V) (s t : Term) :
    a.valueEqual s t =
      a.valueStep
        (fun arg => if arg.height < s.height then a.valueEqual arg else fun _ => false) s t :=
  congrFun (walk_eq s) t

/-- The term is a payload that is the same as the host value. -/
def payloadIs (a : Arena V) (t : Term) (value : V) : Bool :=
  match a.payloadValue? t with
  | some found => Payload.same found value
  | none => false

end Arena

end TermGraph
