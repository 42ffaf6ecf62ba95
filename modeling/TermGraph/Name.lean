import TermGraph.Text.Quoted

/-!
# Names — what atoms, functors and variables are called

A name is a text, and two names are the same exactly when their texts are.
Six names mean something wherever they appear: the two singleton variables
are called `_` and `.`, the three control constants are called `!`, `true`
and `false`, and the empty name is the functor of a compound term without
arguments and of nothing else.
-/

namespace TermGraph

/-- A name with a meaning of its own. -/
inductive ReservedName
  | anonymous
  | cut
  | yes
  | no
  | empty
  | whole
  deriving DecidableEq

namespace ReservedName

/-- The text of a reserved name. -/
def text : ReservedName → String
  | anonymous => "_"
  | cut => "!"
  | yes => "true"
  | no => "false"
  | empty => ""
  | whole => "."

/-- All reserved names. -/
def all : List ReservedName := [anonymous, cut, yes, no, empty, whole]

/-- The reserved name with this text. -/
def ofText? (s : String) : Option ReservedName := all.find? (·.text == s)

/-- Reserved names have different texts, so reading one back finds it. -/
theorem ofText?_text (r : ReservedName) : ofText? r.text = some r := by
  cases r <;> decide

end ReservedName

/-- The diagnostic form of a name as a symbol. -/
def symbolText (name : String) : String := "Symbol(" ++ Text.escaped name ++ ")"

/-! ## Name supply — variable names nobody has minted yet

A fresh variable is called `_n`, where `n` comes from a counter that only
grows. The supply is a value of its own because it outlives every arena:
two variables minted for two different arenas never share a name.

What the counter does not see is a name that was given by hand: `_2` is an
ordinary text, and a caller may use it. -/

/-- How far the counter has come: the number last minted, or `1` before
the first. -/
structure NameSupply where
  last : Nat := 1
  deriving DecidableEq, Inhabited

namespace NameSupply

/-- The next name. -/
def name (s : NameSupply) : String := "_" ++ toString (s.last + 1)

/-- The supply after its next name was minted. -/
def next (s : NameSupply) : NameSupply := ⟨s.last + 1⟩

theorem toList_name (s : NameSupply) : s.name.toList = '_' :: Nat.toDigits 10 (s.last + 1) := by
  rw [name, String.toList_append, Nat.toString_eq_repr, Nat.toList_repr]
  rfl

/-- Supplies that have come to different numbers mint different names. -/
theorem name_injective {s s' : NameSupply} (h : s.name = s'.name) : s = s' := by
  have hlist := congrArg String.toList h
  rw [toList_name, toList_name] at hlist
  have hvalue := congrArg (Nat.ofDigitChars 10 · 0) (List.cons.inj hlist).2
  simp only [Nat.ofDigitChars_toDigits (by decide : 1 < 10) (Nat.le_refl 10)] at hvalue
  cases s
  cases s'
  exact congrArg NameSupply.mk (Nat.succ.inj hvalue)

end NameSupply

end TermGraph
