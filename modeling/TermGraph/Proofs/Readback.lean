import TermGraph.HostValue
import TermGraph.Proofs.Building
import TermGraph.TypedVar

/-!
# Readback — what a coerced host value is read back as

A host has twelve types of integers. The terms know one, of 64 bits, and
reading knows two, of 64 and of 32 bits. So three ranges meet. A narrow
type is CAST, with no question asked, because all of its values fit; a
wide type is CHECKED, value by value, and what does not fit becomes a
real. Either way the whole number of a term is the number it was made of,
and never that number reduced modulo something.

A text takes one of five ways. It is the anonymous variable, the empty
atom, a named variable or a plain atom; or it is refused as the name of a
variable. The last does not happen: a text that is taken for the name of a
variable begins with an underscore or a capital, so it is not blank and
not the name of the other singleton.

## What is proved

`Arena.coercion_reads_back` — for every arena, every host integer, every
text, and every nesting of values that may be absent.
-/

namespace TermGraph

/-! ## Host integers -/

/-- How wide a host integer is. -/
inductive Width
  | bits8
  | bits16
  | bits32
  | bits64
  | bits128
  /-- As wide as an address, which depends on the host. -/
  | address
  deriving DecidableEq

/-- The number of bits, where addresses have `address` bits. -/
def Width.bits (address : Nat) : Width → Nat
  | bits8 => 8
  | bits16 => 16
  | bits32 => 32
  | bits64 => 64
  | bits128 => 128
  | .address => address

/-- A type of host integers: one of twelve. -/
structure IntegerType where
  signed : Bool
  width : Width
  deriving DecidableEq

namespace IntegerType

/-- The least value of the type. -/
def least (address : Nat) (type : IntegerType) : Int :=
  if type.signed then -(1 <<< (type.width.bits address - 1) : Nat) else 0

/-- The greatest value of the type. -/
def greatest (address : Nat) (type : IntegerType) : Int :=
  let bits := type.width.bits address
  (1 <<< (if type.signed then bits - 1 else bits) : Nat) - 1

/-- Values of the type are cast, and not checked. -/
def isCast (type : IntegerType) : Bool :=
  match type.width with
  | .bits8 | .bits16 | .bits32 => true
  | .bits64 => type.signed
  | .bits128 | .address => false

/-- A type that is cast has no value that needs more than 64 bits. -/
theorem range_of_isCast {type : IntegerType} (h : type.isCast = true) (address : Nat) :
    Int64.minValue.toInt ≤ type.least address ∧
      type.greatest address ≤ Int64.maxValue.toInt := by
  rw [Int64.toInt_minValue, Int64.toInt_maxValue]
  obtain ⟨signed, width⟩ := type
  cases width with
  | bits128 | address => cases h
  | bits64 =>
    cases signed with
    | false => cases h
    | true => simp [least, greatest, Width.bits]
  | _ => cases signed <;> simp [least, greatest, Width.bits]

end IntegerType

/-- The number has a term of its own. -/
def FitsLong (v : Int) : Prop := Int64.minValue.toInt ≤ v ∧ v ≤ Int64.maxValue.toInt

/-- A host integer: a type, and a number in its range. -/
structure HostInteger (address : Nat) where
  type : IntegerType
  value : Int
  least_le : type.least address ≤ value
  le_greatest : value ≤ type.greatest address

namespace HostInteger

variable {address : Nat}

/-- The term of a host integer, by the rule for its type. -/
def toTerm (x : HostInteger address) : Term :=
  if x.type.isCast then .int (Int64.ofInt x.value) else Term.ofInt x.value

/-- Every value of a type that is cast has a term of its own. -/
theorem fitsLong (x : HostInteger address) (h : x.type.isCast = true) : FitsLong x.value := by
  obtain ⟨hleast, hgreatest⟩ := IntegerType.range_of_isCast h address
  exact ⟨Int.le_trans hleast x.least_le, Int.le_trans x.le_greatest hgreatest⟩

/-- One rule serves for all types. -/
theorem toTerm_eq (x : HostInteger address) : x.toTerm = Term.ofInt x.value := by
  rw [toTerm]
  split
  · next h => exact (if_pos (x.fitsLong h)).symm
  · rfl

end HostInteger

/-! ## Whole numbers, read back -/

variable {V : Type} {a : Arena V} {t : Term} {v : Int}

theorem fitsLong_toInt (i : Int64) : FitsLong i.toInt :=
  ⟨Int64.minValue_le_toInt i, Int64.toInt_le i⟩

/-- The whole number of a term is the number it was made of. -/
theorem Term.ofInt_eq_int_iff {i : Int64} : Term.ofInt v = .int i ↔ i.toInt = v := by
  rw [Term.ofInt]
  split
  · next h =>
    rw [Int64.toInt_minValue, Int64.toInt_maxValue] at h
    have hread : (Int64.ofInt v).toInt = v := Int64.toInt_ofInt_of_le h.1 (by omega)
    constructor
    · intro heq
      cases heq
      exact hread
    · rintro rfl
      rw [Int64.ofInt_toInt]
  · next h =>
    constructor
    · intro heq
      cases heq
    · rintro rfl
      exact absurd (fitsLong_toInt i) h

theorem Term.ofInt_of_fits (h : FitsLong v) : ∃ i : Int64, i.toInt = v ∧ Term.ofInt v = .int i :=
  have heq : Term.ofInt v = .int (Int64.ofInt v) := if_pos h
  ⟨Int64.ofInt v, Term.ofInt_eq_int_iff.mp heq, heq⟩

theorem HostType.long_eq_some_iff {i : Int64} : HostType.ofTerm? a t = some i ↔ t = .int i := by
  cases t with
  | int j => exact ⟨fun h => (by cases h; rfl), fun h => (by cases h; rfl)⟩
  | _ => exact ⟨fun h => (by cases h), fun h => (by cases h)⟩

theorem HostType.int_eq_some_iff {i : Int32} :
    HostType.ofTerm? a t = some i ↔ ∃ j : Int64, t = .int j ∧ j.toInt = i.toInt := by
  cases t with
  | int j =>
    simp only [HostType.ofTerm?, Int32.toInt_minValue, Int32.toInt_maxValue]
    constructor
    · intro h
      split at h
      · next hfits =>
        cases h
        exact ⟨j, rfl, (Int32.toInt_ofInt_of_le hfits.1 (by omega)).symm⟩
      · cases h
    · rintro ⟨_, heq, hi⟩
      cases heq
      have hleast := i.le_toInt
      have hgreatest := i.toInt_lt
      rw [if_pos (by omega), hi, Int32.ofInt_toInt]
  | _ => exact ⟨fun h => (by cases h), fun ⟨_, h, _⟩ => (by cases h)⟩

/-- What is known about the term of a whole number. -/
structure IntegerReadsBack (a : Arena V) (v : Int) (t : Term) : Prop where
  /-- A number of 64 bits stays whole. -/
  whole : FitsLong v → ∃ i : Int64, i.toInt = v ∧ t = .int i
  /-- Any other becomes a real. -/
  real : ¬FitsLong v → t = .real (Binary64.ofInt v)
  /-- The term is read as a number of 64 bits if and only if that is the
  number it was made of. -/
  long : ∀ i : Int64, HostType.ofTerm? a t = some i ↔ i.toInt = v
  /-- And as one of 32 bits likewise. -/
  int : ∀ i : Int32, HostType.ofTerm? a t = some i ↔ i.toInt = v

theorem integerReadsBack (a : Arena V) (v : Int) : IntegerReadsBack a v (Term.ofInt v) where
  whole := Term.ofInt_of_fits
  real h := if_neg h
  long i := HostType.long_eq_some_iff.trans Term.ofInt_eq_int_iff
  int i := by
    rw [HostType.int_eq_some_iff]
    constructor
    · rintro ⟨j, heq, hj⟩
      rw [← hj]
      exact Term.ofInt_eq_int_iff.mp heq
    · rintro rfl
      have hfits : FitsLong i.toInt := by
        have hleast := i.le_toInt
        have hgreatest := i.toInt_lt
        rw [FitsLong, Int64.toInt_minValue, Int64.toInt_maxValue]
        omega
      obtain ⟨j, hj, heq⟩ := Term.ofInt_of_fits hfits
      exact ⟨j, heq, hj⟩

/-! ## Texts -/

/-- The two ranges have no code point in common. -/
def CodeRange.Apart (r q : CodeRange) : Prop := r.last < q.first ∨ q.last < r.first

instance (r q : CodeRange) : Decidable (r.Apart q) :=
  inferInstanceAs (Decidable (r.last < q.first ∨ q.last < r.first))

namespace Text

/-- The text begins with an underscore or a capital. -/
def BeginsVariable (s : String) : Prop :=
  ∃ c, s.toList.head? = some c ∧ (c = '_' ∨ isCapital c = true)

theorem capitalRanges_apart : ∀ r ∈ capitalRanges ++ alternatingCapitalRanges,
    ∀ q ∈ blankRanges, r.Apart q := by
  decide +kernel

/-- A capital lies in one of the ranges. -/
theorem exists_range_of_isCapital {c : Char} (h : isCapital c = true) :
    ∃ r ∈ capitalRanges ++ alternatingCapitalRanges, r.contains c.toNat = true := by
  rw [isCapital, Bool.or_eq_true, List.any_eq_true, List.any_eq_true] at h
  rcases h with ⟨r, hr, hin⟩ | ⟨r, hr, hin⟩
  · exact ⟨r, List.mem_append_left _ hr, hin⟩
  · exact ⟨r, List.mem_append_right _ hr, (Bool.and_eq_true_iff.mp hin).1⟩

/-- A capital is not blank. -/
theorem isBlankChar_of_isCapital {c : Char} (h : isCapital c = true) : isBlankChar c = false := by
  obtain ⟨r, hr, hcapital⟩ := exists_range_of_isCapital h
  rw [isBlankChar, List.any_eq_false]
  intro q hq hblank
  have hapart := capitalRanges_apart r hr q hq
  rw [CodeRange.contains, decide_eq_true_iff] at hcapital hblank
  rw [CodeRange.Apart] at hapart
  omega

namespace BeginsVariable

variable {s : String} (h : BeginsVariable s)
include h

theorem isBlank_eq_false : isBlank s = false := by
  obtain ⟨c, hc, hbegin⟩ := h
  have hnot : isBlankChar c = false := by
    rcases hbegin with rfl | hcapital
    · decide
    · exact isBlankChar_of_isCapital hcapital
  rw [isBlank, List.all_eq_false]
  exact ⟨c, List.mem_of_head? hc, by rw [hnot]; decide⟩

theorem ne_whole : s ≠ "." := by
  rintro rfl
  obtain ⟨c, hc, hbegin⟩ := h
  cases hc
  revert hbegin
  decide +kernel

end BeginsVariable

end Text

namespace Arena

/-! ## One more node, read back -/

theorem node_withNode (n : Node V) (t : Term) :
    (a.withNode n).node t ⟨a.id, a.nodes.size⟩ = .ok n := by
  rw [node, node?_withNode]

/-- The run of no arguments is inside the store. -/
theorem operandsIn?_nil (a : Arena V) : a.operandsIn? ⟨a.operands.size, 0⟩ = some [] := by
  have hstored : (a.withOperands []).operandsIn? ⟨a.operands.size, 0⟩ = some [] :=
    operandsIn?_withOperands []
  rwa [withOperands_nil] at hstored

/-- The node of a compound term without arguments. -/
def bareNode (a : Arena V) (name : String) : Node V :=
  .compound name (Signature.text name 0) ⟨a.operands.size, 0⟩

/-- A compound term without arguments takes a node, and no argument
storage. -/
theorem addCompound_nil (name : String) :
    addCompound name [] a =
      .ok (.compound ⟨a.id, a.nodes.size⟩) (a.withNode (a.bareNode name)) := by
  have hstored : addCompound name [] a =
      .ok (.compound ⟨a.id, a.nodes.size⟩) ((a.withOperands []).withNode (a.bareNode name)) := rfl
  rw [hstored, withOperands_nil]

theorem args_bareNode (name : String) :
    (a.withNode (a.bareNode name)).args (.compound ⟨a.id, a.nodes.size⟩) = .ok [] := by
  have hrun : (a.withNode (a.bareNode name)).operandsIn? ⟨a.operands.size, 0⟩ = some [] :=
    operandsIn?_nil (a.withNode (a.bareNode name))
  simp only [args, node_withNode, bareNode, operandsOf, bind, Except.bind] at hrun ⊢
  rw [hrun]

theorem name_bareNode (name : String) :
    (a.withNode (a.bareNode name)).name (.compound ⟨a.id, a.nodes.size⟩) = .ok name := by
  rw [Arena.name, node_withNode]
  rfl

/-- A name that is not blank and not a singleton's can be declared. -/
theorem declareVar_ok {name : String} (hblank : Text.isBlank name = false) (hanon : name ≠ "_")
    (hwhole : name ≠ ".") (type : VarType) :
    declareVar name type a = .ok (.var ⟨a.id, a.nodes.size⟩) (a.withNode (.var name type)) := by
  have hname : ¬(name = "_" ∨ name = ".") := not_or.mpr ⟨hanon, hwhole⟩
  simp only [declareVar, hblank, if_neg hname]
  rfl

/-! ## The ways of a text -/

variable {s : String}

/-- A text that is written as a variable is declared as one. -/
theorem ofText_of_begins (h : Text.BeginsVariable s) (hanon : s ≠ "_") :
    ofText s a = .ok (.var ⟨a.id, a.nodes.size⟩) (a.withNode (.var s .str)) := by
  have ⟨c, hc, hfirst⟩ := h
  obtain ⟨cs, hs⟩ := List.head?_eq_some_iff.mp hc
  have hchosen : (Text.isCapital c || c == '_') = true := by
    rw [Bool.or_eq_true, beq_iff_eq]
    exact hfirst.symm
  have hdeclared : ofText s a = declareVar s .str a := by
    simp only [ofText, if_neg hanon, hs, hchosen, if_true]
  rw [hdeclared]
  exact declareVar_ok h.isBlank_eq_false hanon h.ne_whole .str

/-- Any other text but the empty one is a plain atom. -/
theorem ofText_of_not_begins (h : ¬Text.BeginsVariable s) (hempty : s ≠ "") :
    ofText s a = .ok (.atom s) a := by
  have hanon : s ≠ "_" := by
    rintro rfl
    exact h ⟨'_', rfl, .inl rfl⟩
  obtain ⟨c, cs, hs⟩ := List.exists_cons_of_ne_nil (mt String.toList_eq_nil_iff.mp hempty)
  have hchosen : (Text.isCapital c || c == '_') = false := by
    refine Bool.eq_false_iff.mpr fun hfirst => h ⟨c, by rw [hs]; rfl, ?_⟩
    rw [Bool.or_eq_true, beq_iff_eq] at hfirst
    exact hfirst.symm
  simp only [ofText, if_neg hanon, hs, hchosen, Bool.false_eq_true, if_false]
  rfl

/-- What is known about the term `t` of a text. The arena was `a` before the
coercion, and is `b` afterwards. -/
structure TextReadsBack (a : Arena V) (s : String) (t : Term) (b : Arena V) : Prop where
  /-- At most a node was added, and nothing else. -/
  added : b = a ∨ ∃ n, b = a.withNode n
  /-- The name of the term is the text. -/
  name : b.name t = .ok s
  /-- The term is a variable if and only if the text is written as one. -/
  isVar : t.isVar = true ↔ Text.BeginsVariable s
  /-- The term is read as a text unless it is a variable, and that text is
  the one it was made of. -/
  text : (HostType.ofTerm? b t : Option String) = if t.isVar then none else some s

/-- A TEXT IS COERCED, AND READ BACK. -/
theorem ofText_reads_back (a : Arena V) (s : String) :
    ∃ t b, ofText s a = .ok t b ∧ a.TextReadsBack s t b := by
  by_cases hbegins : Text.BeginsVariable s
  · by_cases hanon : s = "_"
    · subst hanon
      exact ⟨.anon, a, rfl, .inl rfl, rfl, ⟨fun _ => hbegins, fun _ => rfl⟩, rfl⟩
    · refine ⟨_, _, ofText_of_begins hbegins hanon, .inr ⟨_, rfl⟩, ?_,
        ⟨fun _ => hbegins, fun _ => rfl⟩, rfl⟩
      rw [Arena.name, node_withNode]
      rfl
  · by_cases hempty : s = ""
    · subst hempty
      refine ⟨_, _, addCompound_nil "", .inr ⟨_, rfl⟩, name_bareNode "",
        ⟨fun h => (by cases h), fun h => absurd h hbegins⟩, ?_⟩
      simp only [HostType.ofTerm?, isAtom, args_bareNode, name_bareNode]
      rfl
    · exact ⟨_, _, ofText_of_not_begins hbegins hempty, .inl rfl, rfl,
        ⟨fun h => (by cases h), fun h => absurd h hbegins⟩, rfl⟩

end Arena

/-! ## Values that may be absent -/

/-- A value that could have been absent at every one of `n` levels. -/
def HostValue.nested : Nat → HostValue V → HostValue V
  | 0, value => value
  | n + 1, value => .present (nested n value)

/-- Nesting does not show. -/
theorem HostValue.toTerm_nested (n : Nat) (value : HostValue V) :
    (value.nested n).toTerm = value.toTerm := by
  induction n with
  | zero => rfl
  | succ n ih => rw [nested, toTerm, ih]

/-- What is known about coercing host values in an arena. -/
structure Arena.CoercesExactly (a : Arena V) : Prop where
  /-- A host integer of any type is coerced by the rule for its type,
  whatever the width of an address, and the arena stays as it is. -/
  integer : ∀ (address : Nat) (x : HostInteger address),
    (HostValue.int x.value).toTerm a = .ok x.toTerm a ∧ IntegerReadsBack a x.value x.toTerm
  /-- A text is coerced, and adds a node at most. -/
  text : ∀ s, ∃ t b, (HostValue.text s).toTerm a = .ok t b ∧ a.TextReadsBack s t b
  /-- A value that is present is coerced as itself, through any nesting. -/
  present : ∀ (n : Nat) (value : HostValue V), (value.nested n).toTerm a = value.toTerm a
  /-- A value that is absent is refused, through any nesting, and the arena
  stays as it is. -/
  absent : ∀ n, (HostValue.nested n .absent).toTerm a = .error .absentValue a

/-- COERCED VALUES READ BACK EXACTLY, in every arena. -/
theorem Arena.coercion_reads_back (a : Arena V) : a.CoercesExactly where
  integer address x := by
    rw [x.toTerm_eq]
    exact ⟨rfl, integerReadsBack a x.value⟩
  text s := ofText_reads_back a s
  present n value := by rw [HostValue.toTerm_nested]
  absent n := by
    rw [HostValue.toTerm_nested]
    rfl

/-- The greatest number of 64 bits stays whole; the one after it does not. -/
example : Term.ofInt 0x7FFFFFFFFFFFFFFF = .int Int64.maxValue ∧
    Term.ofInt 0x8000000000000000 = .real ⟨0x43E0000000000000⟩ := by
  decide +kernel

end TermGraph
