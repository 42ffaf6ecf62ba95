import TermGraph.Arena.Descent

/-!
# What occurs in a term

A walk from left to right meets every occurrence of every sub-term. Three
questions about a term are answered on such a walk: which terms occur, in
the order in which they are entered; which named variables occur; and which
variable is the first one of a name.

None of these fails. A term whose arguments cannot be read is walked as if
it had none.

A walk also sorts terms by ROLE: variables and compound terms, which carry
structure, atoms, and all other values.
-/

namespace TermGraph

/-- The role of a term in a walk. The control constants are compound. -/
inductive Role
  | variable
  | compound
  | atom (name : String)
  | value
  deriving DecidableEq

/-- The role of a term. -/
def Term.role : Term → Role
  | var _ | anon | whole => .variable
  | compound _ | control _ => .compound
  | atom name => .atom name
  | int _ | real _ | payload _ => .value

namespace Arena

variable {V : Type}

/-- The arguments of a term, and none where they cannot be read. -/
def argsOrNone (a : Arena V) (t : Term) : List Term :=
  match a.args t with
  | .ok args => args
  | .error _ => []

/-- Every occurrence of every sub-term, a term before its arguments. -/
def occurrences (a : Arena V) (t : Term) : List Term :=
  walk (fun _ => []) (fun recur t => t :: (a.argsOrNone t).flatMap recur) t

/-- A term occurs in itself, and then what occurs in its arguments. -/
theorem occurrences_eq (a : Arena V) (t : Term) :
    a.occurrences t =
      t :: (a.argsOrNone t).flatMap fun arg =>
        if arg.height < t.height then a.occurrences arg else [] :=
  walk_eq t

/-- Adds the named variables of one term to those found before it. -/
def namedVarsStep (a : Arena V) (recur : Term → Array Term → Array Term) (t : Term)
    (found : Array Term) : Array Term :=
  match t.role with
  | .variable => if t.isNamedVar && !found.any (·.same t) then found.push t else found
  | .compound => (a.argsOrNone t).foldl (fun found arg => recur arg found) found
  | .atom _ | .value => found

/-- The variables found already, and then the named variables of a term
that are not. -/
def namedVarsFrom (a : Arena V) (t : Term) (found : Array Term) : Array Term :=
  walk (fun _ found => found) a.namedVarsStep t found

/-- The variables of a term are found in its arguments, one after the
other. -/
theorem namedVarsFrom_eq (a : Arena V) (t : Term) (found : Array Term) :
    a.namedVarsFrom t found =
      a.namedVarsStep
        (fun arg => if arg.height < t.height then a.namedVarsFrom arg else fun found => found)
        t found :=
  congrFun (walk_eq t) found

/-- The named variables of a term, each once, in the order of their first
occurrences. -/
def namedVars (a : Arena V) (t : Term) : Array Term := a.namedVarsFrom t #[]

/-- Looks for the first variable of a name in one term. -/
def firstNamedStep (a : Arena V) (name : String) (recur : Term → Option Term) (t : Term) :
    Option Term :=
  match t with
  | .anon => if name = "_" then some t else none
  | .var _ =>
    match a.namedVar? t with
    | some (found, _) => if found = name then some t else none
    | none => none
  | .compound _ => (a.argsOrNone t).findSome? recur
  | _ => none

/-- The first variable with this name that occurs in a term. -/
def firstNamed (a : Arena V) (name : String) (t : Term) : Option Term :=
  walk (fun _ => none) (a.firstNamedStep name) t

/-- The first variable of a name is the first one of an argument. -/
theorem firstNamed_eq (a : Arena V) (name : String) (t : Term) :
    a.firstNamed name t =
      a.firstNamedStep name
        (fun arg => if arg.height < t.height then a.firstNamed name arg else none) t :=
  walk_eq t

/-- The first variable of a term with this name. The variable `.` is found
everywhere. -/
def varNamed? (a : Arena V) (t : Term) (name : String) : Option Term :=
  if name = "." then some .whole else a.firstNamed name t

end Arena

end TermGraph
