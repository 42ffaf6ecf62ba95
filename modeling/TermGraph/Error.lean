import TermGraph.Term

/-!
# Errors of terms — the cause, and the wording in one place

A failure is a cause: which rule was broken, and by what. The wording is a
function of the cause, and this is the only module that words anything.
-/

namespace TermGraph

/-- The kinds a place was prepared to take, as a message names them. -/
inductive ExpectedKind
  | compound
  | var
  | named
  deriving DecidableEq

/-- The words for the kinds a place was prepared to take. -/
def ExpectedKind.text : ExpectedKind → String
  | compound => "struct"
  | var => "var"
  | named => "var, atom, struct"

/-- Why an operation on terms failed. -/
inductive TermError
  /-- A value to coerce was absent. -/
  | absentValue
  /-- An argument of a compound term was absent. -/
  | missingArgument (functor : String) (index : Nat)
  /-- A compound term with arguments had the empty functor. -/
  | emptyFunctor
  /-- A variable had a blank name. -/
  | blankVarName
  /-- A variable had the name of a singleton. -/
  | reservedVarName
  /-- A singleton was to be copied. -/
  | singletonCopy (name : String)
  /-- A text is not a functor, a slash and an arity. -/
  | invalidSignature (text : String)
  /-- A side was asked of a term that has not two arguments. -/
  | notBinary (term : Term)
  /-- An argument was asked past the last. -/
  | argumentOutOfRange (index : Nat) (arity : Nat)
  /-- A handle does not resolve in the arena. -/
  | foreignTerm (term : Term)
  /-- A term is of the wrong kind. -/
  | unexpectedKind (expected : ExpectedKind) (found : Kind)
  /-- A compound term has the wrong functor. -/
  | unexpectedName (term : Term)
  /-- A compound term has the wrong number of arguments. -/
  | unexpectedArity (expected : Nat) (found : Nat)
  deriving DecidableEq

/-- The wording of a cause. -/
def TermError.message : TermError → String
  | absentValue => "cannot create a term from an absent value"
  | missingArgument functor index =>
    "cannot create struct \"" ++ functor ++ "\": absent argument at index " ++ toString index
  | emptyFunctor => "the functor of a non-atom struct cannot be an empty string"
  | blankVarName => "name of a variable may not be empty or whitespace"
  | reservedVarName =>
    "must not instantiate the variables \x60_\x60 or \x60.\x60 (which are singletons)"
  | singletonCopy name => "cannot copy the singleton variable \x60" ++ name ++ "\x60"
  | invalidSignature text =>
    "cannot find character '/' in predicate signature \"" ++ text ++
      "\" (supposed to be functor/arity)"
  | notBinary term =>
    "cannot get the left or right hand side of " ++ term.debugText ++ " (arity is not 2)"
  | argumentOutOfRange index arity =>
    "argument index " ++ toString index ++ " is out of range for arity " ++ toString arity
  | foreignTerm term => "term " ++ term.debugText ++ " does not belong to this arena"
  | unexpectedKind expected found =>
    "type mismatch: expected " ++ expected.text ++ ", found " ++ found.text
  | unexpectedName term => "unexpected functor in " ++ term.debugText
  | unexpectedArity expected found =>
    "arity mismatch: expected " ++ toString expected ++ ", found " ++ toString found

end TermGraph
