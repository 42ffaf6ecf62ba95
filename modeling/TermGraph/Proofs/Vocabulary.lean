import TermGraph.Arena.Replace
import TermGraph.Proofs.Effects

/-!
# Vocabulary — which names can stand in an arena

The names in an arena come from somewhere. A variable has a name that a
caller spelled, or one of the supply; a plain atom was made by name, or is
a text that a caller spelled. No algorithm of this library makes up a name
or changes one: it copies nodes and passes handles on.

A VOCABULARY says which names are allowed, for variables and for plain
atoms. An arena is within it if everything that it stores is. What an
operation spells is read off the operation alone, without running it, and
this is all that has to be asked about it.

Nothing is asked of the arena besides. So the law holds under free use
too, where an arena need not resolve what it is given.

## What is proved

`Operation.run_within` — an operation keeps an arena within a vocabulary,
and what it hands out is within it, if what it spells and what it is given
is.
-/

namespace TermGraph

variable {V σ α : Type}

/-- Which names are allowed, for variables and for plain atoms. A plain atom
that can be made by name is always allowed. -/
structure Vocabulary where
  vars : String → Prop
  atoms : String → Prop
  ordinary : ∀ name, Control.ofName? name = none → atoms name

variable {v : Vocabulary}

/-- The handle is no plain atom, or one that is allowed. -/
def Term.Within (v : Vocabulary) (t : Term) : Prop := ∀ name, t = .atom name → v.atoms name

/-- An atom that is made by name is allowed. -/
theorem Term.within_ofAtomName (v : Vocabulary) (name : String) :
    (Term.ofAtomName name).Within v := by
  intro found h
  unfold Term.ofAtomName at h
  split at h
  · cases h
  · next hname =>
    cases h
    exact v.ordinary name hname

namespace Arena

variable {a b : Arena V} {t s : Term}

/-- All names of the arena are allowed. -/
structure Within (v : Vocabulary) (a : Arena V) : Prop where
  vars : ∀ (place : Nat) (name : String) (type : VarType),
    a.nodes[place]? = some (.var name type) → v.vars name
  operands : ∀ t ∈ a.operands, t.Within v

namespace Within

theorem empty (id : ArenaId) : (Arena.empty id : Arena V).Within v where
  vars _ _ _ h := by cases h
  operands t h := by cases Array.mem_toList_iff.mpr h

/-- The tables of names are all that counts. -/
theorem of_eq (h : a.Within v) (hnodes : b.nodes = a.nodes) (hoperands : b.operands = a.operands) :
    b.Within v :=
  ⟨hnodes ▸ h.vars, hoperands ▸ h.operands⟩

/-- The name of a variable is allowed. -/
theorem namedVar? (h : a.Within v) {name : String} {type : VarType}
    (ht : a.namedVar? t = some (name, type)) : v.vars name := by
  cases t with
  | var r =>
    unfold Arena.namedVar? at ht
    cases hnode : a.node? r with
    | none => simp only [hnode, reduceCtorEq] at ht
    | some n =>
      simp only [hnode] at ht
      cases n with
      | var _ _ =>
        cases ht
        rw [node?] at hnode
        split at hnode
        · exact h.vars _ _ _ hnode
        · cases hnode
      | _ => cases ht
  | _ => cases ht

/-- What is read as arguments is allowed. -/
theorem args (h : a.Within v) {ts : List Term} (hts : a.args t = .ok ts) :
    ∀ s ∈ ts, s.Within v := by
  intro s hs
  cases t with
  | compound r =>
    obtain ⟨name, signature, span, -, hspan⟩ := WellFormed.exists_span hts
    unfold operandsIn? at hspan
    split at hspan
    · cases hspan
      rw [Array.toList_extract, List.extract_eq_take_drop] at hs
      exact h.operands s (Array.mem_toList_iff.mp (List.mem_of_mem_drop (List.mem_of_mem_take hs)))
    · cases hspan
  | atom _ | control _ =>
    cases hts
    cases hs
  | _ => cases hts

/-- What stands under a term is allowed, if the term is. -/
theorem under (h : a.Within v) (ht : t.Within v) (hs : a.Under t s) : s.Within v := by
  refine hs.inherit (P := Term.Within v) (fun x _ arg harg => ?_) ht
  unfold argsOrNone at harg
  split at harg
  · next ts hts => exact h.args hts arg harg
  · cases harg

end Within

/-! ## Building -/

/-- A build step that keeps every arena within the vocabulary, and answers
a term within it. -/
abbrev KeepsTerm (v : Vocabulary) (m : BuildM V Term) : Prop := Keeps (Within v) (Term.Within v) m

/-- A handle that is not a plain atom is within every vocabulary. -/
theorem answer_within (h : ∀ name, t ≠ .atom name) : KeepsTerm (V := V) v (pure t) :=
  Keeps.answer fun name heq => absurd heq (h name)

theorem addNode_within {n : Node V} (h : ∀ name type, n = .var name type → v.vars name) :
    Keeps (Within v) (fun _ => True) (addNode n) := by
  intro a ha
  refine ⟨⟨fun place name type hplace => ?_, ha.operands⟩, trivial⟩
  rw [Array.getElem?_push] at hplace
  split at hplace
  · exact h name type (Option.some.inj hplace)
  · exact ha.vars place name type hplace

theorem addVar_within {name : String} (h : v.vars name) (type : VarType) :
    KeepsTerm (V := V) v (addVar name type) := by
  refine Keeps.bind (addNode_within fun _ _ heq => ?_) fun r _ => answer_within fun _ heq => ?_
  · cases heq
    exact h
  · cases heq

theorem payload_within (value : V) : KeepsTerm v (payload value) := by
  refine Keeps.bind (addNode_within fun _ _ heq => ?_) fun r _ => answer_within fun _ heq => ?_
  · cases heq
  · cases heq

theorem addCompound_within (f : String) {args : List Term} (h : ∀ s ∈ args, s.Within v) :
    KeepsTerm (V := V) v (addCompound f args) := by
  refine Keeps.bind (Q := fun _ => True) (fun a ha => ?_) fun span _ => ?_
  · refine ⟨⟨ha.vars, fun s hs => ?_⟩, trivial⟩
    rcases List.mem_append.mp ((toList_withOperands args) ▸ Array.mem_toList_iff.mpr hs) with hs | hs
    · exact ha.operands s (Array.mem_toList_iff.mp hs)
    · exact h s hs
  · refine Keeps.bind (addNode_within fun _ _ heq => ?_) fun r _ => answer_within fun _ heq => ?_
    · cases heq
    · cases heq

theorem compound_within (f : String) {args : List Term} (h : ∀ s ∈ args, s.Within v) :
    KeepsTerm (V := V) v (compound f args) := by
  refine Keeps.bind (Keeps.look fun _ _ _ _ => trivial) fun _ _ => ?_
  split
  · exact answer_within fun _ heq => by cases heq
  · exact addCompound_within f h
  · split
    · exact Keeps.refusal
    · exact addCompound_within f h

theorem putContent_within (t : Term) (value : V) :
    Keeps (Within v) (fun _ => True) (putContent t value) := by
  intro a ha
  cases t with
  | compound r => exact ⟨ha.of_eq rfl rfl, trivial⟩
  | _ => exact ⟨ha, trivial⟩

theorem withArguments_within (t : Term) {args : List Term} (h : ∀ s ∈ args, s.Within v) :
    KeepsTerm (V := V) v (withArguments t args) := by
  refine Keeps.bind (Keeps.look fun _ _ _ _ => trivial) fun f _ => Keeps.get fun a _ => ?_
  refine Keeps.bind (compound_within f h) fun copy hcopy => ?_
  cases a.content? t with
  | none => exact Keeps.answer hcopy
  | some value => exact Keeps.bind (putContent_within copy value) fun _ _ => Keeps.answer hcopy

theorem attach_within (t : Term) (value : V) :
    Keeps (Within v) (fun _ => True) (attach t value) := by
  cases t with
  | compound r =>
    exact Keeps.bind (Keeps.look fun _ _ _ _ => trivial) fun _ _ => putContent_within _ value
  | _ => exact Keeps.refusal

theorem declareVar_within {name : String} (h : v.vars name) (type : VarType) :
    KeepsTerm (V := V) v (declareVar name type) := by
  unfold declareVar
  dsimp only
  split
  · exact Keeps.refusal
  · split
    · exact Keeps.refusal
    · exact addVar_within h type

/-- A text becomes a variable or a plain atom of the same name. -/
theorem ofText_within {text : String} (hvar : v.vars text) (hatom : v.atoms text) :
    KeepsTerm (V := V) v (ofText text) := by
  unfold ofText
  split
  · exact answer_within fun _ heq => by cases heq
  · split
    · exact addCompound_within "" fun _ hs => by cases hs
    · split
      · exact declareVar_within hvar .str
      · refine Keeps.answer fun name heq => ?_
        cases heq
        exact hatom

theorem setIndex_within (t : Term) (i : Index) :
    Keeps (Within v) (fun _ => True) (setIndex (V := V) t i) :=
  fun _ ha => .of_ok (setIndex_eq t i) ⟨ha.of_eq rfl rfl, trivial⟩

/-- A copy of a variable has the name of the variable. -/
theorem duplicateVar_within (t : Term) : KeepsTerm (V := V) v (duplicateVar t) := by
  unfold duplicateVar
  split
  · exact Keeps.refusal
  · exact Keeps.refusal
  · refine Keeps.get fun a ha => ?_
    split
    · exact Keeps.get fun _ _ => Keeps.refusal
    · next name type hname =>
      refine Keeps.bind (Keeps.look fun _ _ _ _ => trivial) fun i _ => ?_
      refine Keeps.bind (addVar_within (ha.namedVar? hname) type) fun copy hcopy => ?_
      exact Keeps.bind (setIndex_within copy i) fun _ _ => Keeps.answer hcopy

/-! ## Walking -/

/-- Every term of the pool is within the vocabulary. -/
def PoolWithin (v : Vocabulary) (pool : Pool) : Prop := ∀ p ∈ pool, p.Within v

/-- A step beside a pool that keeps the arena and the pool within the
vocabulary. -/
abbrev KeepsBeside (v : Vocabulary) (Q : α → Prop) (m : PoolM V α) : Prop :=
  Keeps (fun w : Workspace V Pool => w.arena.Within v ∧ PoolWithin v w.carried) Q m

/-- Names that are allowed, as a discipline: a term is known if it is within
the vocabulary. -/
def spelling (v : Vocabulary) : Discipline (Arena V) where
  inOrder := Within v
  known _ := Term.Within v
  follows _ _ := True
  refl _ := trivial
  trans _ _ := trivial
  later _ _ ht := ht

theorem spelling_reindexes : (spelling (V := V) v).Reindexes where
  args ha _ hts := ha.args hts
  setIndex ha _ _ := ⟨ha.of_eq rfl rfl, trivial⟩

theorem spelling_copies : (spelling (V := V) v).Copies where
  args ha _ hts := ha.args hts
  withArguments {a t _} ha _ hts := (withArguments_within t hts a ha).mono
    (fun _ _ h => ⟨h.1, trivial, List.forall_mem_singleton.mpr h.2⟩) fun _ h => ⟨h, trivial⟩

theorem collectInto_within (t : Term) (ht : t.Within v) :
    KeepsBeside (V := V) v (fun _ => True) (collectInto t) :=
  Discipline.keeps (D := (spelling v).beside (spelling v).Filled)
    (fun _ hw => Discipline.collectInto_obeys spelling_reindexes Discipline.lists_filled t hw ht)
    fun _ _ _ => trivial

theorem collect_within (ht : t.Within v) :
    Keeps (Within (V := V) v) (PoolWithin v) (collect t) :=
  Discipline.keeps (D := spelling v)
    (fun _ ha => Discipline.collect_obeys spelling_reindexes t ha ht)
    fun _ _ h p hp => h p (Array.mem_toList_iff.mpr hp)

/-- Factorization answers the term, or something it found or rebuilt. -/
theorem factorizeAgainst_within (t : Term) (ht : t.Within v) :
    KeepsBeside (V := V) v (Term.Within v) (factorizeAgainst t) :=
  Discipline.keeps (D := (spelling v).beside (spelling v).Filled)
    (fun _ hw => Discipline.factorizeAgainst_obeys spelling_copies t hw ht)
    fun q _ h => h q List.mem_cons_self

theorem factorize_within (ht : t.Within v) : KeepsTerm (V := V) v (factorize t) :=
  Discipline.keeps (D := spelling v)
    (fun _ ha => Discipline.factorize_obeys spelling_reindexes spelling_copies t ha ht)
    fun q _ h => h q List.mem_cons_self

theorem number_within (t : Term) (start : Nat) (ht : t.Within v) :
    Keeps (Within (V := V) v) (fun _ => True) (number t start) :=
  Discipline.keeps (D := spelling v)
    (fun _ ha => Discipline.number_obeys spelling_reindexes t start ha ht) fun _ _ _ => trivial

theorem normalize_within (ht : t.Within v) : KeepsTerm (V := V) v (normalize t) :=
  Discipline.keeps (D := spelling v)
    (fun _ ha => Discipline.normalize_obeys spelling_reindexes spelling_copies t ha ht)
    fun q _ h => h q List.mem_cons_self

/-- Substitution answers parts of the term and of the frame. -/
theorem substitute_within {frame : List Term} (hframe : ∀ s ∈ frame, s.Within v) (t : Term)
    (ht : t.Within v) : KeepsTerm (V := V) v (substitute t frame) :=
  Discipline.keeps (D := spelling v)
    (fun _ ha => Discipline.substitute_obeys spelling_copies t frame ha ht hframe)
    fun q _ h => h q List.mem_cons_self

end Arena

/-! ## What a caller spells -/

namespace HostValue

mutual

/-- The texts that a host value brings with it, to be read by the
convention for variables and atoms. -/
def texts : HostValue V → List String
  | present value => value.texts
  | text s => [s]
  | compound _ args => textsOf args
  | _ => []

/-- The texts that host values bring with them. -/
def textsOf : List (HostValue V) → List String
  | [] => []
  | value :: rest => value.texts ++ textsOf rest

end

mutual

/-- The names that a host value spells for variables. A text may be read as
one. -/
def names : HostValue V → List String
  | present value => value.names
  | text s => [s]
  | var name => [name]
  | compound _ args => namesOf args
  | _ => []

/-- The names that host values spell for variables. -/
def namesOf : List (HostValue V) → List String
  | [] => []
  | value :: rest => value.names ++ namesOf rest

end

end HostValue

/-- The names and texts that are spelled are allowed, and the terms that are
given are within the vocabulary. -/
structure Vocabulary.Covers (v : Vocabulary) (names texts : List String) (terms : List Term) :
    Prop where
  names : ∀ name ∈ names, v.vars name
  texts : ∀ text ∈ texts, v.atoms text
  terms : ∀ t ∈ terms, t.Within v

namespace Vocabulary.Covers

variable {names names' texts texts' : List String} {terms terms' : List Term}

theorem left (h : v.Covers (names ++ names') (texts ++ texts') (terms ++ terms')) :
    v.Covers names texts terms :=
  ⟨fun _ hn => h.names _ (List.mem_append_left _ hn), fun _ hs =>
    h.texts _ (List.mem_append_left _ hs), fun _ ht => h.terms _ (List.mem_append_left _ ht)⟩

theorem right (h : v.Covers (names ++ names') (texts ++ texts') (terms ++ terms')) :
    v.Covers names' texts' terms' :=
  ⟨fun _ hn => h.names _ (List.mem_append_right _ hn), fun _ hs =>
    h.texts _ (List.mem_append_right _ hs), fun _ ht => h.terms _ (List.mem_append_right _ ht)⟩

end Vocabulary.Covers

namespace HostValue

open Arena

mutual

/-- Coercion stays within what is spelled and given. -/
theorem toTerm_within : (value : HostValue V) → v.Covers value.names value.texts value.terms →
    KeepsTerm (V := V) v value.toTerm
  | absent, _ => Keeps.refusal
  | present value, h => by
    rw [toTerm]
    exact toTerm_within value h
  | int i, _ => by
    refine answer_within fun _ heq => ?_
    unfold Term.ofInt at heq
    split at heq
    · cases heq
    · cases heq
  | single _, _ | real _, _ | bool _, _ => answer_within fun _ heq => by cases heq
  | text s, h => ofText_within (h.names s (List.mem_singleton_self s))
      (h.texts s (List.mem_singleton_self s))
  | payload value, _ => payload_within value
  | term t, h => Keeps.answer (h.terms t (List.mem_singleton_self t))
  | atom name, _ => Keeps.answer (Term.within_ofAtomName v name)
  | var name, h => declareVar_within (h.names name (List.mem_singleton_self name)) .any
  | compound f args, h => by
    rw [toTerm]
    exact Keeps.bind (toTerms_within args h) fun _ hts => compound_within f hts

/-- And so does the coercion of a list. -/
theorem toTerms_within : (values : List (HostValue V)) →
    v.Covers (namesOf values) (textsOf values) (termsOf values) →
    Keeps (Within v) (fun ts => ∀ t ∈ ts, t.Within v) (toTerms values)
  | [], _ => Keeps.answer (List.forall_mem_nil _)
  | value :: rest, h => by
    rw [toTerms]
    refine Keeps.bind (toTerm_within value h.left) fun t ht => ?_
    refine Keeps.bind (toTerms_within rest h.right) fun ts hts => ?_
    exact Keeps.answer (List.forall_mem_cons.mpr ⟨ht, hts⟩)

end

/-- Coercing the arguments of a functor differs only in the error. -/
theorem toArguments_within (f : String) (values : List (HostValue V)) :
    ∀ index, v.Covers (namesOf values) (textsOf values) (termsOf values) →
      Keeps (Within v) (fun ts => ∀ t ∈ ts, t.Within v) (toArguments f index values) := by
  induction values with
  | nil => exact fun _ _ => Keeps.answer (List.forall_mem_nil _)
  | cons value rest ih =>
    intro index h
    rw [toArguments]
    refine Keeps.bind (Q := Term.Within v) (fun a ha => ?_) fun t ht => ?_
    · have hvalue := toTerm_within value h.left a ha
      unfold Ensures at hvalue ⊢
      split at hvalue
      · next t b hok =>
        dsimp only
        rw [hok]
        exact hvalue
      · next e b herr =>
        dsimp only
        rw [herr]
        cases e <;> exact hvalue
    · refine Keeps.bind (ih (index + 1) h.right) fun ts hts => ?_
      exact Keeps.answer (List.forall_mem_cons.mpr ⟨ht, hts⟩)

end HostValue

/-! ## One operation -/

namespace Operation

open Arena

variable {a : Arena V} {supply : NameSupply}

/-- The texts that the operation reads by the convention for variables and
atoms. -/
def texts : Operation V → List String
  | coerce value => value.texts
  | compoundOf _ args => HostValue.textsOf args
  | _ => []

/-- The names that the caller spells for variables. -/
def names : Operation V → List String
  | coerce value => value.names
  | compoundOf _ args => HostValue.namesOf args
  | declareVar name _ | typedVar _ name => [name]
  | _ => []

/-- The name that the operation mints. -/
def minted (supply : NameSupply) : Operation V → List String
  | freshVar _ => [supply.name]
  | _ => []

theorem handOut_within {m : BuildM V α} {handles : α → List Term}
    (h : Keeps (Within v) (fun x => ∀ t ∈ handles x, t.Within v) m) (ha : a.Within v) :
    (handOut m handles a).1.Within v ∧ ∀ t ∈ (handOut m handles a).2, t.Within v := by
  unfold handOut
  split
  · next heq => exact (h a ha).of_answer heq
  · next heq => exact ⟨(h a ha).of_failure heq, List.forall_mem_nil _⟩

theorem handOut_term_within {m : BuildM V Term} (h : KeepsTerm v m) (ha : a.Within v) :
    (handOut m ([·]) a).1.Within v ∧ ∀ t ∈ (handOut m ([·]) a).2, t.Within v :=
  handOut_within (h.mono fun _ ht => List.forall_mem_singleton.mpr ht) ha

theorem handOutPool_within {m : PoolM V α} {pool : Pool} {handles : α → List Term}
    (h : KeepsBeside v (fun x => ∀ t ∈ handles x, t.Within v) m) (ha : a.Within v)
    (hpool : PoolWithin v pool) :
    (handOutPool m pool handles a).1.Within v ∧
      ∀ t ∈ (handOutPool m pool handles a).2, t.Within v := by
  have hm := h ⟨a, pool⟩ ⟨ha, hpool⟩
  unfold handOutPool
  split
  · next heq =>
    obtain ⟨⟨hb, hpool'⟩, hterms⟩ := hm.of_answer heq
    exact ⟨hb, List.forall_mem_append.mpr
      ⟨hterms, fun t ht => hpool' t (Array.mem_toList_iff.mp ht)⟩⟩
  · next heq =>
    obtain ⟨hb, hpool'⟩ := hm.of_failure heq
    exact ⟨hb, fun t ht => hpool' t (Array.mem_toList_iff.mp ht)⟩

/-- AN OPERATION STAYS WITHIN A VOCABULARY, if what it spells, mints and is
given is within it. -/
theorem run_within (ha : a.Within v) (op : Operation V)
    (h : v.Covers (op.minted supply ++ op.names) op.texts op.given) :
    (op.run supply a).1.Within v ∧ ∀ t ∈ (op.run supply a).2, t.Within v := by
  have hname {name : String} (hmem : name ∈ op.names) : v.vars name :=
    h.names name (List.mem_append_right _ hmem)
  cases op with
  | coerce value => exact handOut_term_within (value.toTerm_within ⟨h.names, h.texts, h.terms⟩) ha
  | compound f args => exact handOut_term_within (compound_within f h.terms) ha
  | compoundOf f args =>
    refine handOut_term_within (Keeps.bind ?_ fun _ hts => compound_within f hts) ha
    exact HostValue.toArguments_within f args 0 ⟨h.names, h.texts, h.terms⟩
  | withArguments t args =>
    exact handOut_term_within
      (withArguments_within t fun s hs => h.terms s (List.mem_cons_of_mem t hs)) ha
  | attach t value =>
    exact handOut_within ((attach_within t value).mono fun _ _ => List.forall_mem_nil _) ha
  | declareVar name type =>
    exact handOut_term_within (declareVar_within (hname (List.mem_singleton_self name)) type) ha
  | typedVar α name =>
    refine handOut_within (Keeps.bind (declareVar_within (hname (List.mem_singleton_self name))
      (HostType.type α)) fun t ht => ?_) ha
    exact Keeps.answer (List.forall_mem_singleton.mpr ht)
  | freshVar α =>
    have hmint := addVar_within (V := V) (h.names supply.name (List.mem_singleton_self _))
      (HostType.type α)
    refine handOut_within (fun b hb => ?_) ha
    exact (hmint.mono fun _ ht => List.forall_mem_singleton.mpr ht) b hb
  | duplicateVar t => exact handOut_term_within (duplicateVar_within t) ha
  | arguments t => exact handOut_within (Keeps.look fun a ts ha hts => ha.args hts) ha
  | collect t =>
    refine handOut_within ((collect_within (h.terms t List.mem_cons_self)).mono ?_) ha
    exact fun pool hpool p hp => hpool p (Array.mem_toList_iff.mp hp)
  | collectInto t pool =>
    refine handOutPool_within ((collectInto_within t (h.terms t List.mem_cons_self)).mono
      fun _ _ => List.forall_mem_nil _) ha fun p hp => ?_
    exact h.terms p (List.mem_cons_of_mem t (Array.mem_toList_iff.mpr hp))
  | factorize t => exact handOut_term_within (factorize_within (h.terms t List.mem_cons_self)) ha
  | factorizeAgainst t pool =>
    refine handOutPool_within ((factorizeAgainst_within t (h.terms t List.mem_cons_self)).mono
      fun _ ht => List.forall_mem_singleton.mpr ht) ha fun p hp => ?_
    exact h.terms p (List.mem_cons_of_mem t (Array.mem_toList_iff.mpr hp))
  | number t start =>
    exact handOut_within ((number_within t start (h.terms t List.mem_cons_self)).mono
      fun _ _ => List.forall_mem_nil _) ha
  | normalize t => exact handOut_term_within (normalize_within (h.terms t List.mem_cons_self)) ha
  | substitute t frame =>
    exact handOut_term_within (substitute_within
      (fun s hs => h.terms s (List.mem_cons_of_mem t hs)) t (h.terms t List.mem_cons_self)) ha

end Operation

end TermGraph
