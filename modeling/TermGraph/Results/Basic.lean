import Std.Data.HashSet

/-!
# Results — an ordered list of answers

Results are read-only. Everything asked of them follows from the list:
how many there are, which is first, pages of them, and what they add up
to. The checks of cardinality answer the results themselves, or say how
many were wanted and how many there are.

`single` and `unique` look at the first result only. To reject further
results, check the cardinality.
-/

namespace TermGraph

/-- A list of results. -/
structure Results (α : Type) where
  toList : List α
  deriving DecidableEq

/-- How a wanted number of results is compared with the number found. -/
inductive CountBound
  | exactly
  | atMost
  | atLeast
  deriving DecidableEq

namespace CountBound

/-- The words for a bound. -/
def text : CountBound → String
  | exactly => "exactly"
  | atMost => "at most"
  | atLeast => "at least"

/-- The number found satisfies the bound. -/
def accepts : CountBound → Nat → Nat → Bool
  | exactly, wanted, found => decide (found = wanted)
  | atMost, wanted, found => decide (found ≤ wanted)
  | atLeast, wanted, found => decide (wanted ≤ found)

end CountBound

/-- Why a question about a list of results has no answer. -/
inductive CardinalityError
  /-- One result was wanted of none. -/
  | empty
  /-- The number of results is not as wanted. -/
  | cardinality (bound : CountBound) (wanted : Nat) (found : Nat)
  deriving DecidableEq

/-- The wording of a cause. -/
def CardinalityError.message : CardinalityError → String
  | empty => "cannot obtain the unique element of empty results"
  | cardinality bound wanted found =>
    "expected " ++ bound.text ++ " " ++ toString wanted ++ " result(s), found " ++ toString found

namespace Results

variable {α β : Type}

/-! ## Cardinality -/

/-- The number of results. -/
def count (r : Results α) : Nat := r.toList.length

/-- There is no result. -/
def isEmpty (r : Results α) : Bool := r.count == 0

/-- There is a result. -/
def isPresent (r : Results α) : Bool := !r.isEmpty

/-- There is at most one result. -/
def isSingle (r : Results α) : Bool := decide (r.count ≤ 1)

/-- There is exactly one result. -/
def isUnique (r : Results α) : Bool := r.count == 1

/-- There are several results. -/
def isMultiple (r : Results α) : Bool := decide (1 < r.count)

/-- The results, if their number satisfies a bound. -/
def check (r : Results α) (bound : CountBound) (wanted : Nat) :
    Except CardinalityError (Results α) :=
  if bound.accepts wanted r.count then .ok r
  else .error (.cardinality bound wanted r.count)

/-- The results, if there are `n`. -/
def exactly (r : Results α) (n : Nat) : Except CardinalityError (Results α) :=
  r.check .exactly n

/-- The results, if there are no more than `n`. -/
def atMost (r : Results α) (n : Nat) : Except CardinalityError (Results α) :=
  r.check .atMost n

/-- The results, if there are no fewer than `n`. -/
def atLeast (r : Results α) (n : Nat) : Except CardinalityError (Results α) :=
  r.check .atLeast n

/-! ## One result -/

/-- The first result. -/
def first (r : Results α) : Option α := r.toList.head?

/-- The only result, if there is any; further results are ignored. -/
def single (r : Results α) : Option α := r.first

/-- The result that must exist; further results are ignored. -/
def unique (r : Results α) : Except CardinalityError α :=
  match r.first with
  | some x => .ok x
  | none => .error .empty

/-! ## Parts -/

/-- The first `n` results. -/
def limit (r : Results α) (n : Nat) : Results α := ⟨r.toList.take n⟩

/-- Up to `n` results from a position on. -/
def page (r : Results α) (first n : Nat) : Results α := ⟨(r.toList.drop first).take n⟩

/-- The elements of a list that are not in a set and appear for the first
time. -/
def firstOccurrences [BEq α] [Hashable α] (seen : Std.HashSet α) : List α → List α
  | [] => []
  | x :: xs =>
    if seen.contains x then firstOccurrences seen xs
    else x :: firstOccurrences (seen.insert x) xs

/-- The results without repetitions, each at its first occurrence. -/
def distinct [BEq α] [Hashable α] (r : Results α) : Results α :=
  ⟨firstOccurrences ∅ r.toList⟩

/-- The set of the results. -/
def toSet [BEq α] [Hashable α] (r : Results α) : Std.HashSet α := .ofList r.toList

/-- Every result through a function. -/
def map (f : α → β) (r : Results α) : Results β := ⟨r.toList.map f⟩

/-! ## Aggregates -/

/-- The first of the least results. -/
def minBy (order : α → α → Ordering) (r : Results α) : Option α :=
  match r.toList with
  | [] => none
  | x :: xs => some (xs.foldl (fun least y => if order least y = .gt then y else least) x)

/-- The last of the greatest results. -/
def maxBy (order : α → α → Ordering) (r : Results α) : Option α :=
  match r.toList with
  | [] => none
  | x :: xs => some (xs.foldl (fun most y => if order most y = .gt then most else y) x)

/-- The least result of an ordered type. -/
def min [Ord α] (r : Results α) : Option α := r.minBy compare

/-- The greatest result of an ordered type. -/
def max [Ord α] (r : Results α) : Option α := r.maxBy compare

/-- The sum of the results, added from the left to a first value. -/
def sum (add : β → α → β) (first : β) (r : Results α) : β := r.toList.foldl add first

end Results

end TermGraph
