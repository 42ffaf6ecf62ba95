import TermGraph.Arena.NormalForm

/-!
# Replacing parts of a term

A term is changed by replacing parts of it, from the arguments upward.
SUBSTITUTION replaces every numbered variable by what a frame holds at its
place; a place that is missing, or that holds a variable, binds nothing.
The values put in are not looked into, so the substitution is
simultaneous. MAPPING passes every compound term through a function,
arguments first; the function sees a term whose arguments it has already
mapped.

Both rebuild a compound term only where an argument came back as another
term, and a rebuilt term keeps the functor and the content of the old one.
An argument that is not a number never comes back as the same term.
-/

namespace TermGraph

namespace Arena

variable {V σ : Type}

/-- What a frame holds for an index, unless the place is missing or holds a
variable. -/
def boundIn? (frame : List Term) (index : Index) : Option Term :=
  (index.place?.bind (frame[·]?)).filter (!·.isVar)

/-- Substitutes in one term, given how its arguments are substituted. -/
def substituteStep (frame : List Term) (recur : Term → BuildM V Term) (t : Term) :
    BuildM V Term :=
  match t with
  | .var _ => do
    let index ← look (·.index t)
    return (boundIn? frame index).getD t
  | .compound _ => do
    let old ← look (·.args t)
    let new ← old.mapM recur
    rebuilt t old new
  | _ => return t

/-- Replaces every variable that the frame binds. -/
def substitute (t : Term) (frame : List Term) : BuildM V Term :=
  walk (fun t => throw (.foreignTerm t)) (substituteStep frame) t

/-- A term is rebuilt after the arguments are substituted in. -/
theorem substitute_eq (frame : List Term) (t : Term) :
    substitute (V := V) t frame =
      substituteStep frame
        (fun arg =>
          if arg.height < t.height then substitute arg frame else throw (.foreignTerm arg)) t :=
  walk_eq t

/-- Maps one term, given how its arguments are mapped. -/
def mapCompoundsStep (mapper : Term → WorkM V σ Term) (recur : Term → WorkM V σ Term)
    (t : Term) : WorkM V σ Term := do
  if t.isCompound then
    let old ← WorkM.look (·.args t)
    let new ← old.mapM recur
    mapper (← WorkM.onArena (rebuilt t old new))
  else return t

/-- Passes every compound term through a function, arguments first. The
function may build, fail, and keep a record of its own. -/
def mapCompounds (mapper : Term → WorkM V σ Term) (t : Term) : WorkM V σ Term :=
  walk (fun t => throw (.foreignTerm t)) (mapCompoundsStep mapper) t

/-- A term is mapped after its arguments are. -/
theorem mapCompounds_eq (mapper : Term → WorkM V σ Term) (t : Term) :
    mapCompounds mapper t =
      mapCompoundsStep mapper
        (fun arg =>
          if arg.height < t.height then mapCompounds mapper arg
          else throw (.foreignTerm arg)) t :=
  walk_eq t

end Arena

end TermGraph
