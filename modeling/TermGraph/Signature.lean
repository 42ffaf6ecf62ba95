import TermGraph.Error

/-!
# Signatures — `functor/arity`, written and read

The signature of a compound term or an atom is its functor, a slash, and
its arity in decimal. A functor may itself contain slashes and digits, so
reading splits at the LAST slash; the arity contains none, which is what
makes the split undo the writing.

Reading the arity takes an optional plus sign and then ASCII digits, at
least one, for a number of 64 bits. A slash in the first place leaves no
functor and is refused.
-/

namespace TermGraph

namespace Signature

/-- The signature of a functor and an arity. -/
def text (functor : String) (arity : Nat) : String := functor ++ "/" ++ toString arity

/-- Two parts of a list of characters around its last slash. -/
def splitLastSlash (cs : List Char) : Option (List Char × List Char) :=
  match cs with
  | [] => none
  | c :: rest =>
    match splitLastSlash rest with
    | some (before, after) => some (c :: before, after)
    | none => if c = '/' then some ([], rest) else none

/-- There is nothing to split exactly where there is no slash. -/
theorem splitLastSlash_eq_none_iff {cs : List Char} : splitLastSlash cs = none ↔ '/' ∉ cs := by
  induction cs with
  | nil => simp [splitLastSlash]
  | cons c rest ih =>
    unfold splitLastSlash
    cases h : splitLastSlash rest with
    | some parts =>
      have mem : '/' ∈ rest := by
        by_cases mem : '/' ∈ rest
        · exact mem
        · rw [ih.mpr mem] at h
          cases h
      simp [mem]
    | none =>
      have notMem := ih.mp h
      by_cases hc : c = '/' <;> simp [hc, notMem, eq_comm]

/-- A text without a slash, written after one, is what the split gives
back. -/
theorem splitLastSlash_append {before after : List Char} (h : '/' ∉ after) :
    splitLastSlash (before ++ '/' :: after) = some (before, after) := by
  induction before with
  | nil => simp [splitLastSlash, splitLastSlash_eq_none_iff.mpr h]
  | cons c rest ih => simp [splitLastSlash, ih]

/-- The functor of a signature and the text after its last slash. -/
def split (signature : String) : Except TermError (String × String) :=
  match splitLastSlash signature.toList with
  | some (c :: before, after) => .ok (String.ofList (c :: before), String.ofList after)
  | _ => .error (.invalidSignature signature)

/-- The functor of a signature. -/
def functor (signature : String) : Except TermError String :=
  (split signature).map (·.1)

/-- The number that a list of ASCII digits denotes, continuing from the
number before it. -/
def digitsValue? (soFar : Nat) : List Char → Option Nat
  | [] => some soFar
  | c :: rest => if c.isDigit then digitsValue? (soFar * 10 + (c.toNat - 48)) rest else none

/-- The number of 64 bits that a text denotes: an optional plus sign, then
digits. -/
def number? (text : String) : Option Nat :=
  let digits :=
    match text.toList with
    | '+' :: rest => rest
    | cs => cs
  match digits with
  | [] => none
  | cs => (digitsValue? 0 cs).filter (· < UInt64.size)

/-- The arity of a signature. -/
def arity (signature : String) : Except TermError Nat := do
  let (_, after) ← split signature
  match number? after with
  | some n => .ok n
  | none => .error (.invalidSignature signature)

end Signature

end TermGraph
