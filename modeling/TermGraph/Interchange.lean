import TermGraph.Arena.Basic

/-!
# Interchange — names, types and indexes as plain data

A name, a declared type and an index can be handed to another program as
plain data, and read back. What is written has one form; what is read may
be looser: a case without a value is its name, or an object with the name
as its only field and nothing in it.

- a name is its text;
- a type is the name of the type;
- an index is `Unassigned`, `Anonymous`, or an object with the only field
  `Assigned` and a number of 32 bits.
-/

namespace TermGraph

/-- Plain data. Whole numbers are told apart from numbers written with a
fraction or an exponent, whose value is never needed. -/
inductive Datum
  | null
  | bool (value : Bool)
  | int (value : Int)
  | fraction
  | text (value : String)
  | list (items : List Datum)
  | fields (entries : List (String × Datum))
  deriving Inhabited

namespace Datum

/-- The text of a datum. -/
def text? : Datum → Option String
  | text s => some s
  | _ => none

/-- The name of a case without a value. -/
def caseName? : Datum → Option String
  | text s => some s
  | fields [(s, null)] => some s
  | _ => none

/-- A number of 32 bits. -/
def place? : Datum → Option Nat
  | int i => if 0 ≤ i ∧ i < UInt32.size then some i.toNat else none
  | _ => none

end Datum

namespace Interchange

/-- A name as data. -/
def ofName (name : String) : Datum := .text name

/-- The name that data stands for. -/
def name? (d : Datum) : Option String := d.text?

/-- A type as data. -/
def ofVarType (t : VarType) : Datum := .text t.text

/-- The type that data stands for. -/
def varType? (d : Datum) : Option VarType := d.caseName?.bind VarType.ofText?

/-- An index as data. -/
def ofIndex : Index → Datum
  | .unassigned => .text "Unassigned"
  | .anonymous => .text "Anonymous"
  | .assigned n => .fields [("Assigned", .int n)]

/-- The index that data stands for. -/
def index? (d : Datum) : Option Index :=
  match d with
  | .fields [("Assigned", value)] => value.place?.map .assigned
  | _ =>
    match d.caseName? with
    | some "Unassigned" => some .unassigned
    | some "Anonymous" => some .anonymous
    | _ => none

/-! ## What is written is read back -/

theorem name?_ofName (name : String) : name? (ofName name) = some name := rfl

theorem varType?_ofVarType (t : VarType) : varType? (ofVarType t) = some t :=
  VarType.ofText?_text t

/-- An index is read back if its place is a number of 32 bits. -/
theorem index?_ofIndex {i : Index} (h : ∀ n, i = .assigned n → n < UInt32.size) :
    index? (ofIndex i) = some i := by
  cases i with
  | unassigned => rfl
  | anonymous => rfl
  | assigned n =>
    have hn := h n rfl
    have hi : (0 : Int) ≤ n ∧ (n : Int) < UInt32.size := by omega
    simp only [ofIndex, index?, Datum.place?, if_pos hi, Int.toNat_natCast, Option.map_some]

end Interchange

end TermGraph
