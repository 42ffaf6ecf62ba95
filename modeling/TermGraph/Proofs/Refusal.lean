import TermGraph.Arena.Print
import TermGraph.Proofs.Sameness
import TermGraph.Proofs.Session

/-!
# Refusal — handles that refer to nothing

A handle DANGLES when it repeats the number of another arena, or when its
place is not taken. What it says about its kind is all there is to know
about it, and every operation refuses it.

A handle of a kind that an operation does not take is refused for its
kind, before anything is looked up. A handle of a kind that it takes is
refused as foreign. Both happen before the first write: an operation that
builds or numbers looks its handles up first, so a refusal leaves every
table as it was. Readers that cannot fail answer as for a term that has
nothing of what they ask about.

Looking up is all that protects the tables. An arena and its copies share
their number, and two arenas use the same places; an operation that went
to a table with a place, and not with a handle, would find the data of
another term there.

## What is proved

`Session.Reachable.dangling_refused` — on every arena that a host can
reach, whatever use it makes of handles.
-/

namespace TermGraph

/-- The kinds of terms that a place is prepared to take. -/
def ExpectedKind.takes : ExpectedKind → Kind → Bool
  | compound, .compound => true
  | var, .var => true
  | named, .var | named, .atom | named, .compound => true
  | _, _ => false

/-- What a handle that refers to nothing is refused with, where terms of
some kinds are expected. -/
def refusal (expected : ExpectedKind) (t : Term) : TermError :=
  if expected.takes t.kind then .foreignTerm t else .unexpectedKind expected t.kind

namespace Arena

variable {V : Type} {a : Arena V} {s t : Term} {r : Reference}

/-- The handle refers to no node of the arena. -/
def Dangles (a : Arena V) (t : Term) : Prop :=
  ∃ r, t.ref? = some r ∧ (r.arena ≠ a.id ∨ a.nodes.size ≤ r.id)

/-- A handle dangles when it does not resolve. -/
theorem dangles_iff : a.Dangles t ↔ a.resolves t = false := by
  unfold Dangles resolves
  cases t.ref? with
  | none => simp
  | some r => simp [node?, imp_iff_not_or]

namespace Dangles

/-- A handle that dangles is that of a variable, a compound term or a
payload. -/
theorem cases (h : a.Dangles t) :
    ∃ r, a.node? r = none ∧ (t = .var r ∨ t = .compound r ∨ t = .payload r) := by
  obtain ⟨r, hr, hout⟩ := h
  have hnone : a.node? r = none := by
    rw [node?]
    split
    · next hid => exact Array.getElem?_eq_none (hout.resolve_left fun hne => hne hid)
    · rfl
  refine ⟨r, hnone, ?_⟩
  cases t with
  | var _ => cases hr; exact .inl rfl
  | compound _ => cases hr; exact .inr (.inl rfl)
  | payload _ => cases hr; exact .inr (.inr rfl)
  | _ => cases hr

end Dangles

theorem node_of_none (h : a.node? r = none) : a.node t r = .error (.foreignTerm t) := by
  rw [node, h]

/-! ## Readers -/

namespace Dangles

variable (h : a.Dangles t)
include h

theorem verify : a.verify t = .error (.foreignTerm t) := by
  rw [Arena.verify, dangles_iff.mp h]
  rfl

theorem namedVar? : a.namedVar? t = none := by
  obtain ⟨r, hr, rfl | rfl | rfl⟩ := h.cases
  · rw [Arena.namedVar?, hr]
  · rfl
  · rfl

theorem payloadValue? : a.payloadValue? t = none := by
  obtain ⟨r, hr, rfl | rfl | rfl⟩ := h.cases
  · rfl
  · rfl
  · rw [Arena.payloadValue?, hr]

theorem name : a.name t = .error (refusal .named t) := by
  obtain ⟨r, hr, rfl | rfl | rfl⟩ := h.cases
  · rw [Arena.name, node_of_none hr]
    rfl
  · rw [Arena.name, node_of_none hr]
    rfl
  · rfl

theorem args : a.args t = .error (refusal .compound t) := by
  obtain ⟨r, hr, rfl | rfl | rfl⟩ := h.cases
  · rfl
  · rw [Arena.args, node_of_none hr]
    rfl
  · rfl

theorem functor : a.functor t = .error (refusal .compound t) := by
  obtain ⟨r, hr, rfl | rfl | rfl⟩ := h.cases
  · rfl
  · rw [Arena.functor, node_of_none hr]
    rfl
  · rfl

theorem signature : a.signature t = .error (refusal .compound t) := by
  obtain ⟨r, hr, rfl | rfl | rfl⟩ := h.cases
  · rfl
  · rw [Arena.signature, node_of_none hr]
    rfl
  · rfl

theorem shell? : a.shell? t = none := by
  rw [Arena.shell?, h.functor]

theorem index : a.index t = .error (.foreignTerm t) := by
  obtain ⟨r, hr, rfl | rfl | rfl⟩ := h.cases <;>
  · rw [Arena.index, node_of_none hr]
    rfl

theorem notVariable : a.notVariable t = .foreignTerm t := by
  rw [Arena.notVariable, h.verify]

theorem varName : a.varName t = .error (.foreignTerm t) := by
  have hnone := h.namedVar?
  have hnot := h.notVariable
  obtain ⟨r, -, rfl | rfl | rfl⟩ := h.cases <;> simp only [Arena.varName, hnone, hnot]

theorem varType : a.varType t = .error (.foreignTerm t) := by
  have hnone := h.namedVar?
  have hnot := h.notVariable
  obtain ⟨r, -, rfl | rfl | rfl⟩ := h.cases <;> simp only [Arena.varType, hnone, hnot]

theorem unpack (f : Option String) (n : Option Nat) :
    a.unpack t f n = .error (refusal .compound t) := by
  have hname := h.name
  have hargs := h.args
  obtain ⟨r, -, rfl | rfl | rfl⟩ := h.cases
  · rfl
  · cases f with
    | some f =>
      rw [Arena.unpack, hname]
      rfl
    | none =>
      rw [Arena.unpack, hargs]
      rfl
  · rfl

theorem view : a.view t = .error (.foreignTerm t) := by
  obtain ⟨r, hr, rfl | rfl | rfl⟩ := h.cases <;>
  · rw [Arena.view, node_of_none hr]
    rfl

theorem goalSignature [Payload V] : a.goalSignature t = .error (.foreignTerm t) := by
  have hsignature := h.signature
  have hverify := h.verify
  obtain ⟨r, -, rfl | rfl | rfl⟩ := h.cases
  · rw [Arena.goalSignature, hverify]
    rfl
  · exact hsignature
  · rw [Arena.goalSignature, hverify]
    rfl

/-! ## Building and walking -/

theorem attach (value : V) : Arena.attach t value a = .error (refusal .compound t) a := by
  obtain ⟨r, hr, rfl | rfl | rfl⟩ := h.cases
  · rfl
  · exact bind_of_error (look_of_error (node_of_none hr))
  · rfl

theorem duplicateVar : Arena.duplicateVar t a = .error (.foreignTerm t) a := by
  have hnone := h.namedVar?
  have hnot := h.notVariable
  obtain ⟨r, -, rfl | rfl | rfl⟩ := h.cases <;>
  · refine (bind_get _ a).trans ?_
    rw [hnone]
    refine (bind_get _ a).trans ?_
    rw [hnot]
    rfl

theorem withArguments (args : List Term) :
    Arena.withArguments t args a = .error (refusal .compound t) a :=
  bind_of_error (look_of_error h.functor)

/-- An argument that dangles is refused, or another one before it. -/
theorem compound {args : List Term} (ht : t ∈ args) (f : String) :
    ∃ e, Arena.compound f args a = .error e a := by
  cases hverify : a.verifyAll args with
  | ok _ =>
    -- All arguments are looked up before the first write.
    have hresolves := (a.verifyAll_eq_ok_iff args).mp hverify t ht
    rw [dangles_iff.mp h] at hresolves
    cases hresolves
  | error e => exact ⟨e, bind_of_error (look_of_error hverify)⟩

theorem withArguments_mem {args : List Term} (ht : t ∈ args) (s : Term) :
    ∃ e, Arena.withArguments s args a = .error e a := by
  cases hf : a.functor s with
  | error e => exact ⟨e, bind_of_error (look_of_error hf)⟩
  | ok f =>
    obtain ⟨e, he⟩ := h.compound ht f
    refine ⟨e, (bind_of_ok (look_of_ok hf)).trans ?_⟩
    exact (bind_get _ a).trans (bind_of_error he)

theorem collectInto (pool : Pool) :
    Arena.collectInto t ⟨a, pool⟩ = .error (.foreignTerm t) ⟨a, pool⟩ := by
  rw [collectInto_eq]
  exact bind_of_error (WorkM.look_of_error (f := (·.verify t)) h.verify)

theorem collect : Arena.collect t a = .error (.foreignTerm t) a := by
  refine bind_of_error ?_
  rw [WorkM.beside, h.collectInto]

theorem factorize : Arena.factorize t a = .error (.foreignTerm t) a :=
  bind_of_error h.collect

theorem number (start : Nat) : Arena.number t start a = .error (.foreignTerm t) a := by
  rw [number_eq]
  exact bind_of_error (look_of_error (f := (·.index t)) h.index)

theorem normalize : Arena.normalize t a = .error (.foreignTerm t) a :=
  bind_of_error h.factorize

/-! ## Questions that have an answer anyway -/

theorem isAtom : a.isAtom t = false := by
  have hargs := h.args
  obtain ⟨r, -, rfl | rfl | rfl⟩ := h.cases
  · rfl
  · rw [Arena.isAtom, hargs]
  · rfl

theorem isAtomic : a.isAtomic t = false := by
  rw [Arena.isAtomic, h.isAtom]
  obtain ⟨r, -, rfl | rfl | rfl⟩ := h.cases <;> rfl

theorem isReal : t.isReal = false := by
  obtain ⟨r, -, rfl | rfl | rfl⟩ := h.cases <;> rfl

/-- A handle that dangles is the same as itself only. -/
theorem same_eq_false (hne : s ≠ t) : t.same s = false := by
  obtain ⟨r, hr, -⟩ := h
  exact Bool.eq_false_iff.mpr fun hsame => hne (Term.eq_of_same_of_ref hsame hr).symm

/-- Contents belong to nodes, so none is found past the last one. -/
theorem content? {u : Use} (wf : a.WellFormed u) : a.content? t = none := by
  obtain ⟨r, hr, hout⟩ := h
  cases t with
  | compound r' =>
    cases hr
    rw [Arena.content?]
    split
    · next hid =>
      have hle := hout.resolve_left fun hne => hne hid
      refine Option.eq_none_iff_forall_ne_some.mpr fun v hv => ?_
      exact absurd (wf.contents_lt r.id v hv) (Nat.not_lt.mpr hle)
    · rfl
  | _ => rfl

end Dangles

/-! ## Equality -/

section Equality

variable {recur : Term → Term → Bool}

/-- A term without a shell has no shape to share. -/
theorem sameShape_eq_false (h : a.shell? s = none ∨ a.shell? t = none) :
    a.sameShape recur s t = false := by
  unfold sameShape
  rcases h with h | h
  · rw [h]
  · rw [h]
    cases a.shell? s <;> rfl

variable [Payload V]

/-- Two different handles are not equal in shape if one of them has no
payload to compare and no shell, and one of them is not a real. -/
theorem structuralStep_eq_false (hsame : s.same t = false)
    (hvalue : a.payloadValue? s = none ∨ a.payloadValue? t = none)
    (hshell : a.shell? s = none ∨ a.shell? t = none) (hreal : s.isReal = false ∨ t.isReal = false) :
    a.structuralStep recur s t = false := by
  unfold structuralStep
  rw [hsame, sameShape_eq_false hshell, Bool.and_false, Bool.false_or]
  split
  · rcases hvalue with h | h
    · rw [h]
    · rw [h]
      cases a.payloadValue? _ <;> rfl
  · rcases hreal with h | h <;> cases h
  · rfl

/-- Nor are they equal in value, if one of them has no name either. -/
theorem valueStep_eq_false (hsame : s.same t = false)
    (hname : a.namedVar? s = none ∨ a.namedVar? t = none)
    (hshell : a.shell? s = none ∨ a.shell? t = none) (hequal : a.structurallyEqual s t = false) :
    a.valueStep recur s t = false := by
  unfold valueStep
  rw [hsame, sameShape_eq_false hshell, hequal, Bool.false_or]
  split
  · rcases hname with h | h
    · rw [h]
    · rw [h]
      cases a.namedVar? _ <;> rfl
  · exact ite_self false

namespace Dangles

variable (h : a.Dangles t)
include h

theorem structurallyEqual (hne : s ≠ t) :
    a.structurallyEqual t s = false ∧ a.structurallyEqual s t = false := by
  have hsame := h.same_eq_false hne
  rw [structurallyEqual_eq, structurallyEqual_eq]
  refine ⟨structuralStep_eq_false hsame (.inl h.payloadValue?) (.inl h.shell?) (.inl h.isReal),
    structuralStep_eq_false ?_ (.inr h.payloadValue?) (.inr h.shell?) (.inr h.isReal)⟩
  rw [Term.same_comm, hsame]

theorem valueEqual (hne : s ≠ t) : a.valueEqual t s = false ∧ a.valueEqual s t = false := by
  have hsame := h.same_eq_false hne
  obtain ⟨hleft, hright⟩ := h.structurallyEqual hne
  rw [valueEqual_eq, valueEqual_eq]
  refine ⟨valueStep_eq_false hsame (.inl h.namedVar?) (.inl h.shell?) hleft,
    valueStep_eq_false ?_ (.inr h.namedVar?) (.inr h.shell?) hright⟩
  rw [Term.same_comm, hsame]

end Dangles

end Equality

/-! ## All together -/

/-- Every reader that can fail refuses the handle. -/
structure RefusedByReaders [Payload V] (a : Arena V) (t : Term) : Prop where
  name : a.name t = .error (refusal .named t)
  args : a.args t = .error (refusal .compound t)
  arity : a.arity t = .error (refusal .compound t)
  arg : ∀ index, a.arg t index = .error (refusal .compound t)
  signature : a.signature t = .error (refusal .compound t)
  lhs : a.lhs t = .error (refusal .compound t)
  rhs : a.rhs t = .error (refusal .compound t)
  unpack : ∀ functor arity, a.unpack t functor arity = .error (refusal .compound t)
  index : a.index t = .error (.foreignTerm t)
  varName : a.varName t = .error (.foreignTerm t)
  varType : a.varType t = .error (.foreignTerm t)
  view : a.view t = .error (.foreignTerm t)
  compoundText : a.compoundText t = .error (.foreignTerm t)
  goalSignature : a.goalSignature t = .error (.foreignTerm t)
  anyAritySignature : a.anyAritySignature t = .error (refusal .compound t)

/-- Every operation on the arena refuses the handle, and the arena after it
is the arena before it. -/
structure RefusedByOperations (a : Arena V) (t : Term) : Prop where
  duplicateVar : duplicateVar t a = .error (.foreignTerm t) a
  attach : ∀ value, attach t value a = .error (refusal .compound t) a
  withArguments : ∀ args, withArguments t args a = .error (refusal .compound t) a
  /-- As an argument too. Another argument may be refused before it. -/
  withArguments_mem : ∀ s args, t ∈ args → ∃ e, Arena.withArguments s args a = .error e a
  compound : ∀ f args, t ∈ args → ∃ e, compound f args a = .error e a
  collect : collect t a = .error (.foreignTerm t) a
  collectInto : ∀ pool, collectInto t ⟨a, pool⟩ = .error (.foreignTerm t) ⟨a, pool⟩
  factorize : factorize t a = .error (.foreignTerm t) a
  number : ∀ start, number t start a = .error (.foreignTerm t) a
  normalize : normalize t a = .error (.foreignTerm t) a

/-- Every question that has an answer for every handle is answered in the
negative. -/
structure Denied [Payload V] (a : Arena V) (t : Term) : Prop where
  isAtom : a.isAtom t = false
  isAtomic : a.isAtomic t = false
  hasIndex : a.hasIndex t = false
  isUnderscored : a.isUnderscored t = false
  payloadIs : ∀ value, a.payloadIs t value = false
  content? : a.content? t = none
  structurallyEqual : ∀ s, s ≠ t →
    a.structurallyEqual t s = false ∧ a.structurallyEqual s t = false
  valueEqual : ∀ s, s ≠ t → a.valueEqual t s = false ∧ a.valueEqual s t = false

namespace Dangles

variable (h : a.Dangles t)
include h

theorem refusedByReaders [Payload V] : a.RefusedByReaders t where
  name := h.name
  args := h.args
  arity := by rw [arity, h.args]; rfl
  arg index := by rw [arg, h.args]; rfl
  signature := h.signature
  lhs := by rw [lhs, h.args]; rfl
  rhs := by rw [rhs, h.args]; rfl
  unpack := h.unpack
  index := h.index
  varName := h.varName
  varType := h.varType
  view := h.view
  compoundText := by rw [compoundText, h.view]; rfl
  goalSignature := h.goalSignature
  anyAritySignature := by rw [anyAritySignature, h.functor]; rfl

theorem refusedByOperations : a.RefusedByOperations t where
  duplicateVar := h.duplicateVar
  attach := h.attach
  withArguments := h.withArguments
  withArguments_mem s _ ht := h.withArguments_mem ht s
  compound f _ ht := h.compound ht f
  collect := h.collect
  collectInto := h.collectInto
  factorize := h.factorize
  number := h.number
  normalize := h.normalize

theorem denied [Payload V] {u : Use} (wf : a.WellFormed u) : a.Denied t where
  isAtom := h.isAtom
  isAtomic := h.isAtomic
  hasIndex := by rw [hasIndex, h.index]
  isUnderscored := by rw [isUnderscored, h.namedVar?]
  payloadIs value := by rw [payloadIs, h.payloadValue?]
  content? := h.content? wf
  structurallyEqual _ hne := h.structurallyEqual hne
  valueEqual _ hne := h.valueEqual hne

end Dangles

end Arena

/-- A HANDLE THAT REFERS TO NOTHING IS REFUSED. On every copy that a host
can reach, however it uses handles: a handle with the number of another
arena, or with a place that is not taken, is refused by everything that can
fail, which leaves the arena as it was; and everything else answers as for
a term that has nothing. -/
theorem Session.Reachable.dangling_refused {V : Type} [Payload V] {u : Use} {s : Session V}
    (hs : s.Reachable u) {c : Copy V} (hc : c ∈ s.copies) {t : Term}
    (ht : c.arena.Dangles t) :
    c.arena.RefusedByReaders t ∧ c.arena.RefusedByOperations t ∧ c.arena.Denied t :=
  ⟨ht.refusedByReaders, ht.refusedByOperations, ht.denied (hs.inOrder c hc).1⟩

/-- A place past the last one, and a place of another arena that is taken
here too. -/
theorem Session.dangling_refused_sample :
    (Copy.sample.arena.Dangles (.compound ⟨⟨0⟩, 5⟩) ∧
        Copy.sample.arena.RefusedByReaders (.compound ⟨⟨0⟩, 5⟩) ∧
        Copy.sample.arena.RefusedByOperations (.compound ⟨⟨0⟩, 5⟩) ∧
        Copy.sample.arena.Denied (.compound ⟨⟨0⟩, 5⟩)) ∧
      Copy.sample.arena.Dangles (.var ⟨⟨1⟩, 0⟩) ∧
        Copy.sample.arena.RefusedByReaders (.var ⟨⟨1⟩, 0⟩) ∧
        Copy.sample.arena.RefusedByOperations (.var ⟨⟨1⟩, 0⟩) ∧
        Copy.sample.arena.Denied (.var ⟨⟨1⟩, 0⟩) := by
  have hplace : Copy.sample.arena.Dangles (.compound ⟨⟨0⟩, 5⟩) :=
    ⟨_, rfl, .inr (by decide +kernel)⟩
  have harena : Copy.sample.arena.Dangles (.var ⟨⟨1⟩, 0⟩) := ⟨_, rfl, .inl (by decide +kernel)⟩
  exact ⟨⟨hplace, Session.Reachable.dangling_refused reachable_sample
    (List.mem_singleton_self _) hplace⟩, harena, Session.Reachable.dangling_refused
    reachable_sample (List.mem_singleton_self _) harena⟩

end TermGraph
