import TermGraph.Arena.Descent

/-!
# Normal forms — one handle for one sub-term, one place for one variable

A term is brought into NORMAL FORM in three passes. Collection lists what
stands under it; factorization shares against that list; and numbering
gives the variables their places.
-/

namespace TermGraph

/-! ## Collecting the sub-terms of a term

Collection lists a term with everything under it, arguments first and from
left to right, one entry for every occurrence. It also takes away the
index of every variable and compound term it meets, so that a numbering
after it starts from nothing.

What is listed before a failure stays listed, and the indexes taken away
stay away. -/

/-- A list of terms to share with, oldest first. -/
abbrev Pool := Array Term

/-- A computation on an arena beside a pool. -/
abbrev PoolM (V : Type) := WorkM V Pool

namespace Arena

variable {V : Type}

/-- The arguments of a term whose handle is a compound term's. The control
constants, which have none, are not asked. -/
def childrenOf (a : Arena V) (t : Term) : Except TermError (List Term) :=
  match t with
  | .compound _ => a.args t
  | _ => .ok []

/-- Lists one term, given how its arguments are listed. -/
def collectStep (recur : Term → PoolM V Unit) (t : Term) : PoolM V Unit := do
  WorkM.look (·.verify t)
  WorkM.onArena (dropIndex t)
  (← WorkM.look (·.childrenOf t)).forM recur
  WorkM.carry (·.push t)

/-- Appends a term and everything under it to the pool. -/
def collectInto (t : Term) : PoolM V Unit :=
  walk (fun t => throw (.foreignTerm t)) collectStep t

/-- A term is listed after its arguments are. -/
theorem collectInto_eq (t : Term) :
    collectInto (V := V) t =
      collectStep
        (fun arg =>
          if arg.height < t.height then collectInto arg else throw (.foreignTerm arg)) t :=
  walk_eq t

/-- Everything under a term. -/
def collect (t : Term) : BuildM V Pool := do
  let ((), pool) ← (collectInto t).beside #[]
  return pool.pop

/-! ## Factorization — one handle for one sub-term

Factorization answers a term of the same shape in which equal sub-terms
are one node and variables of one name are one variable. It shares against
a POOL of candidates: a variable becomes the first variable of the pool
with its name; a compound term is rebuilt from its factorized arguments,
and then becomes the first candidate with the same functor and the very
same arguments. Comparing handles is enough, because the arguments are
already shared; so sharing reaches every level from below.

A rebuilt term that finds no candidate becomes one. A term that was not
rebuilt does not need to: it comes from the pool, or it is the root.

"The very same" is identity of handles, which compares reals as numbers.
Terms that differ only in the sign of a zero are therefore one candidate,
and a term with an argument that is not a number is always rebuilt and
never found. -/

/-- The term is a named variable with this name. -/
def isVarNamed (a : Arena V) (name : String) (t : Term) : Bool :=
  match a.namedVar? t with
  | some (found, _) => found == name
  | none => false

/-- The term is compound, with this functor and these argument handles. -/
def hasShell (a : Arena V) (functor : String) (args : List Term) (t : Term) : Bool :=
  match a.functor t with
  | .error _ => false
  | .ok found =>
    found == functor &&
      match a.args t with
      | .error _ => false
      | .ok handles => Term.sameAll handles args

/-- The first candidate of the pool with the functor and the argument
handles of a compound term. -/
def candidate? (a : Arena V) (pool : Pool) (t : Term) : Option Term :=
  match a.shell? t with
  | some (functor, args) => pool.find? (a.hasShell functor args)
  | none => none

/-- The term over these arguments: the term itself where they are the same
as its own, and a rebuilt one otherwise. -/
def rebuilt (t : Term) (old new : List Term) : BuildM V Term :=
  if Term.sameAll new old then return t else withArguments t new

/-- Factorizes one term, given how its arguments are factorized. -/
def factorizeStep (recur : Term → PoolM V Term) (t : Term) : PoolM V Term :=
  match t with
  | .var _ => do
    let w ← get
    match w.arena.namedVar? t with
    | none => throw (.foreignTerm t)
    | some (name, _) => return (w.carried.find? (w.arena.isVarNamed name)).getD t
  | .compound _ => do
    let old ← WorkM.look (·.args t)
    let new ← old.mapM recur
    let candidate ← WorkM.onArena (rebuilt t old new)
    let w ← get
    match w.arena.candidate? w.carried candidate with
    | some shared => return shared
    | none =>
      unless Term.sameAll new old do
        WorkM.carry (·.push candidate)
      return candidate
  | _ => return t

/-- Factorizes a term against the candidates of the pool. -/
def factorizeAgainst (t : Term) : PoolM V Term :=
  walk (fun t => throw (.foreignTerm t)) factorizeStep t

/-- A term is factorized after its arguments are. -/
theorem factorizeAgainst_eq (t : Term) :
    factorizeAgainst (V := V) t =
      factorizeStep
        (fun arg =>
          if arg.height < t.height then factorizeAgainst arg else throw (.foreignTerm arg)) t :=
  walk_eq t

/-- Factorizes a term against everything under it. -/
def factorize (t : Term) : BuildM V Term := do
  let pool ← collect t
  let (shared, _) ← (factorizeAgainst t).beside pool
  return shared

/-! ## Numbering — the places of variables in a frame

Numbering walks a term from left to right and gives every named variable
it meets the next free place. A compound term records how far the count
had come at its end. Whatever has an index already is left alone, with
everything under it; so a shared sub-term is numbered once, where it is
met first.

A term is in NORMAL FORM when it has been factorized and then numbered
from zero. The index of a compound normal form is the size of its frame. -/

/-- Numbers one term from a place on, given how its arguments are
numbered, and answers the next free place. -/
def numberStep (recur : Term → Nat → BuildM V Nat) (t : Term) (start : Nat) : BuildM V Nat := do
  if (← look (·.index t)).isAssigned then
    return start
  match t with
  | .var _ =>
    setIndex t (.assigned start)
    return start + 1
  | .compound _ =>
    let args ← look (·.args t)
    let free ← args.foldlM (fun free arg => recur arg free) start
    setIndex t (.assigned free)
    return free
  | _ => return start

/-- Numbers the variables of a term from a place on, and answers the next
free place. -/
def number (t : Term) (start : Nat) : BuildM V Nat :=
  walk (fun t _ => throw (.foreignTerm t)) numberStep t start

/-- A term is numbered after its arguments are, from the place they leave. -/
theorem number_eq (t : Term) :
    number (V := V) t =
      numberStep
        (fun arg =>
          if arg.height < t.height then number arg else fun _ => throw (.foreignTerm arg)) t :=
  walk_eq t

/-- The normal form of a term. -/
def normalize (t : Term) : BuildM V Term := do
  let shared ← factorize t
  let _ ← number shared 0
  return shared

end Arena

end TermGraph
