import TermGraph.Decimal
import TermGraph.Text.Quoted

/-!
# Payloads — host values that terms carry

A term can carry a host value without interpreting it. All that a term
asks of such a value is collected here: whether two values are the same,
and the two texts of a value. Nothing else about the type of payloads is
used, so arenas are polymorphic in it.

`same` is NOT required to be an equivalence. A floating-point number is a
legitimate payload, and a value that is not a number is not the same as
itself.
-/

namespace TermGraph

/-- A type of host values that terms can carry. -/
class Payload (V : Type) where
  /-- The two values count as equal. -/
  same : V → V → Bool
  /-- The text of a value. -/
  text : V → String
  /-- The diagnostic form of a value. -/
  debugText : V → String

/-! ## Scalars — the payloads of mixed type

A scalar is a host value together with its type. Values of different types
are never the same, whatever their texts: the byte `7` and the word `7`
are two payloads. Reals are compared as numbers. -/

/-- An enumeration a host program might carry through a term. -/
inductive Color
  | red
  | green
  deriving DecidableEq

/-- A host value and its type. -/
inductive Scalar
  | byte (value : UInt8)
  | word (value : UInt16)
  | long (value : Int64)
  | double (value : Binary64)
  | flag (value : Bool)
  | text (value : String)
  | color (value : Color)
  deriving DecidableEq

/-- The types of scalars. -/
inductive ScalarType
  | byte
  | word
  | long
  | double
  | flag
  | text
  | color
  deriving DecidableEq

namespace Scalar

/-- The type of a scalar. -/
def type : Scalar → ScalarType
  | byte _ => .byte
  | word _ => .word
  | long _ => .long
  | double _ => .double
  | flag _ => .flag
  | text _ => .text
  | color _ => .color

/-- The scalar, if it is of the type asked for. -/
def ofType? (type : ScalarType) (s : Scalar) : Option Scalar :=
  if s.type = type then some s else none

/-- Of one type and equal; reals are compared as numbers. -/
def same : Scalar → Scalar → Bool
  | double x, double y => x.numEq y
  | a, b => decide (a = b)

/-- The text of a scalar. -/
def plainText : Scalar → String
  | byte n => toString n.toNat
  | word n => toString n.toNat
  | long i => toString i.toInt
  | double x => x.plainText
  | flag b => if b then "true" else "false"
  | text s => s
  | color .red => "red"
  | color .green => "green"

/-- The diagnostic form of a scalar. -/
def debugText : Scalar → String
  | double x => x.debugText
  | text s => Text.escaped s
  | color .red => "Red"
  | color .green => "Green"
  | s => s.plainText

instance : Payload Scalar where
  same := same
  text := plainText
  debugText := debugText

end Scalar

end TermGraph
