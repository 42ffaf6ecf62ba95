import TermGraph.Payload
import TermGraph.Proofs.Traversing

/-!
# Sessions — which arenas there are

A host program creates arenas, copies them, and runs operations on any of
the copies, in any order; some operations fail. A SESSION is what exists
at one moment: every copy with its arena and with the handles it has
handed out, and the supply of fresh names. A copy that is taken begins
with the handles of the original, because they were handed out before the
two parted.

`Session.Step` is one move of the host, and `Session.Reachable` is any
number of moves from nothing. Under documented use an operation is given
only handles that its copy has handed out, inline values, and handles of
other arenas; under free use it is given anything.

## What counts as an operation

Everything that changes an arena or makes a handle. Readers that answer
handles answer sub-terms, so `Operation.arguments`, asked again and again,
stands for all of them. A closure that the host passes in, as the mapper
of a mapping or as a value to coerce, works through operations of its own;
between two of its calls the mapping reads arguments and copies terms over
others, which are operations too. Such a call is a run of several moves
here, and not a move; `Session.Reachable.afterAll` is the law of runs.

## What is proved

`Session.Reachable.inOrder` — every copy that a session holds is
well-formed, and everything it has handed out may be passed to it.
-/

namespace TermGraph

variable {V α : Type} {u : Use}

/-! ## Operations -/

/-- One call of an operation, with what it is given. -/
inductive Operation (V : Type) : Type 1
  | coerce (value : HostValue V)
  | compound (functor : String) (args : List Term)
  | compoundOf (functor : String) (args : List (HostValue V))
  | withArguments (t : Term) (args : List Term)
  | attach (t : Term) (value : V)
  | declareVar (name : String) (type : VarType)
  | typedVar (α : Type) [HostType α] (name : String)
  | freshVar (α : Type) [HostType α]
  | duplicateVar (t : Term)
  | arguments (t : Term)
  | collect (t : Term)
  | collectInto (t : Term) (pool : Pool)
  | factorize (t : Term)
  | factorizeAgainst (t : Term) (pool : Pool)
  | number (t : Term) (start : Nat)
  | normalize (t : Term)
  | substitute (t : Term) (frame : List Term)

namespace Operation

open Arena

/-- The handles that the operation is given. -/
def given : Operation V → List Term
  | coerce value => value.terms
  | compound _ args => args
  | compoundOf _ args => HostValue.termsOf args
  | withArguments t args => t :: args
  | declareVar _ _ | typedVar _ _ | freshVar _ => []
  | attach t _ | duplicateVar t | arguments t | collect t | factorize t | number t _
  | normalize t => [t]
  | collectInto t pool | factorizeAgainst t pool => t :: pool.toList
  | substitute t frame => t :: frame

/-- The arena that a computation leaves, and the handles of its answer. -/
def handOut (m : BuildM V α) (handles : α → List Term) (a : Arena V) : Arena V × List Term :=
  match m a with
  | .ok x b => (b, handles x)
  | .error _ b => (b, [])

/-- The same beside a pool of the host. What was listed before a failure
is in the pool of the host too. -/
def handOutPool (m : PoolM V α) (pool : Pool) (handles : α → List Term) (a : Arena V) :
    Arena V × List Term :=
  match m ⟨a, pool⟩ with
  | .ok x w => (w.arena, handles x ++ w.carried.toList)
  | .error _ w => (w.arena, w.carried.toList)

/-- The arena after the operation, and the handles handed out. -/
def run (supply : NameSupply) (a : Arena V) : Operation V → Arena V × List Term
  | coerce value => handOut value.toTerm ([·]) a
  | compound f args => handOut (Arena.compound f args) ([·]) a
  | compoundOf f args => handOut (Arena.compoundOf f args) ([·]) a
  | withArguments t args => handOut (Arena.withArguments t args) ([·]) a
  | attach t value => handOut (Arena.attach t value) (fun _ => []) a
  | declareVar name type => handOut (Arena.declareVar name type) ([·]) a
  | typedVar α name => handOut (TypedVar.new α name) ([·.term]) a
  | freshVar α => handOut ((TypedVar.fresh α).beside supply) ([·.1.term]) a
  | duplicateVar t => handOut (Arena.duplicateVar t) ([·]) a
  | arguments t => handOut (look (·.args t)) id a
  | collect t => handOut (Arena.collect t) Array.toList a
  | collectInto t pool => handOutPool (Arena.collectInto t) pool (fun _ => []) a
  | factorize t => handOut (Arena.factorize t) ([·]) a
  | factorizeAgainst t pool => handOutPool (Arena.factorizeAgainst t) pool ([·]) a
  | number t start => handOut (Arena.number t start) (fun _ => []) a
  | normalize t => handOut (Arena.normalize t) ([·]) a
  | substitute t frame => handOut (Arena.substitute t frame) ([·]) a

/-- The supply after the operation. -/
def supplyAfter (supply : NameSupply) : Operation V → NameSupply
  | freshVar _ => supply.next
  | _ => supply

end Operation

/-! ## Sessions -/

/-- A copy of an arena, and the handles it has handed out. -/
structure Copy (V : Type) where
  arena : Arena V
  issued : List Term

namespace Copy

/-- The copy of an arena without nodes. -/
def blank (id : ArenaId) : Copy V := ⟨.empty id, []⟩

/-- The handle may be passed to the copy. -/
def Admits (u : Use) (c : Copy V) (t : Term) : Prop :=
  u = .documented → t.ref? = none ∨ t ∈ c.issued ∨ c.arena.IsForeign t

/-- The handle is a term of the copy: an inline value, or a handle of the
arena that was handed out. -/
def Owns (c : Copy V) (t : Term) : Prop :=
  t.ref? = none ∨ t ∈ c.issued ∧ ¬c.arena.IsForeign t

/-- The copy after an operation. -/
def after (c : Copy V) (supply : NameSupply) (op : Operation V) : Copy V :=
  ⟨(op.run supply c.arena).1, (op.run supply c.arena).2 ++ c.issued⟩

/-- The copy and the supply after one operation after another. -/
def afterAll (c : Copy V) (supply : NameSupply) : List (Operation V) → Copy V × NameSupply
  | [] => (c, supply)
  | op :: ops => (c.after supply op).afterAll (op.supplyAfter supply) ops

/-- Every operation is given what the copy admits by then. -/
def AdmitsAll (u : Use) (c : Copy V) (supply : NameSupply) : List (Operation V) → Prop
  | [] => True
  | op :: ops =>
    (∀ t ∈ op.given, c.Admits u t) ∧
      (c.after supply op).AdmitsAll u (op.supplyAfter supply) ops

instance (u : Use) (c : Copy V) (t : Term) : Decidable (c.Admits u t) :=
  inferInstanceAs (Decidable (u = .documented → t.ref? = none ∨ t ∈ c.issued ∨ c.arena.IsForeign t))

instance (c : Copy V) (t : Term) : Decidable (c.Owns t) :=
  inferInstanceAs (Decidable (t.ref? = none ∨ t ∈ c.issued ∧ ¬c.arena.IsForeign t))

/-- Whether operations may follow one another can be computed. -/
def decideAdmitsAll (u : Use) :
    (ops : List (Operation V)) → (c : Copy V) → (supply : NameSupply) →
      Decidable (c.AdmitsAll u supply ops)
  | [], _, _ => .isTrue trivial
  | op :: ops, c, supply =>
    have := decideAdmitsAll u ops (c.after supply op) (op.supplyAfter supply)
    inferInstanceAs (Decidable ((∀ t ∈ op.given, c.Admits u t) ∧
      (c.after supply op).AdmitsAll u (op.supplyAfter supply) ops))

instance (u : Use) (c : Copy V) (supply : NameSupply) (ops : List (Operation V)) :
    Decidable (c.AdmitsAll u supply ops) :=
  decideAdmitsAll u ops c supply

end Copy

/-- The copies that exist, and the supply of names. -/
structure Session (V : Type) where
  copies : List (Copy V)
  supply : NameSupply

namespace Session

/-- Nothing exists yet. -/
def start : Session V := ⟨[], {}⟩

/-- One move of the host. -/
inductive Step (u : Use) : Session V → Session V → Prop
  /-- An arena is created. -/
  | create (s : Session V) (id : ArenaId) : Step u s { s with copies := .blank id :: s.copies }
  /-- A copy is taken. -/
  | copy (s : Session V) {c : Copy V} (h : c ∈ s.copies) :
    Step u s { s with copies := c :: s.copies }
  /-- An operation runs on a copy. -/
  | operate {before after : List (Copy V)} {c : Copy V} {supply : NameSupply} (op : Operation V)
    (h : ∀ t ∈ op.given, c.Admits u t) :
    Step u ⟨before ++ c :: after, supply⟩
      ⟨before ++ c.after supply op :: after, op.supplyAfter supply⟩

/-- The session is reached by moves of the host. -/
inductive Reachable (u : Use) : Session V → Prop
  | start : Reachable u start
  | step {s s' : Session V} (h : Reachable u s) (move : Step u s s') : Reachable u s'

end Session

/-! ## One operation -/

namespace Operation

open Arena

variable {a : Arena V} {step : Arena V → Arena V → Prop}

/-- What an operation leaves is in order, and extends what it found. -/
def Sound (u : Use) (a : Arena V) (left : Arena V × List Term) : Prop :=
  left.1.WellFormed u ∧ a.Extends left.1 ∧ ∀ t ∈ left.2, left.1.Permits u t

theorem sound_handOut {m : BuildM V α} {handles : α → List Term}
    (h : Safe u Extends m handles a) : Sound u a (handOut m handles a) := by
  unfold handOut
  split
  · next x b heq => exact Ensures.of_answer h heq
  · next e b heq =>
    obtain ⟨wf, hext⟩ := Ensures.of_failure h heq
    exact ⟨wf, hext, fun _ ht => by cases ht⟩

theorem sound_handOutPool {m : PoolM V α} {pool : Pool} {handles : α → List Term}
    (h : SafeBeside u Extends m handles ⟨a, pool⟩) : Sound u a (handOutPool m pool handles a) := by
  unfold handOutPool
  split
  · next x w heq =>
    obtain ⟨⟨wf, hpool⟩, hext, hterms⟩ := Ensures.of_answer h heq
    refine ⟨wf, hext, fun t ht => ?_⟩
    rcases List.mem_append.mp ht with ht | ht
    · exact hterms t ht
    · exact hpool t (Array.mem_toList_iff.mp ht)
  · next e w heq =>
    obtain ⟨⟨wf, hpool⟩, hext⟩ := Ensures.of_failure h heq
    exact ⟨wf, hext, fun t ht => hpool t (Array.mem_toList_iff.mp ht)⟩

/-- Fresh names are not those of the singletons. -/
theorem supply_name_ne (supply : NameSupply) : supply.name ≠ "_" ∧ supply.name ≠ "." := by
  have hlist := supply.toList_name
  constructor <;> intro h <;> rw [h] at hlist
  · exact Nat.toDigits_ne_nil (List.cons.inj hlist).2.symm
  · exact absurd (List.cons.inj hlist).1 (by decide)

/-- Declaring a typed variable is safe. -/
theorem new_safe [HostType α] (wf : a.WellFormed u) (name : String) :
    Safe u Grows (TypedVar.new α name) ([·.term]) a := by
  refine Safe.bind Grows.trans (declareVar_safe wf name (HostType.type α)) fun t b wfb _ ht => ?_
  exact Safe.answer (.refl b) wfb ht

/-- Minting a fresh variable is safe. -/
theorem fresh_safe [HostType α] (wf : a.WellFormed u) (supply : NameSupply) :
    Safe u Grows ((TypedVar.fresh α).beside supply) ([·.1.term]) a := by
  obtain ⟨hanon, hwhole⟩ := supply_name_ne supply
  have h := addVar_safe wf (HostType.type α) hanon hwhole
  exact h

/-- Every operation is sound, whatever it is given of what may be given to
it. -/
theorem run_sound (wf : a.WellFormed u) (supply : NameSupply) (op : Operation V)
    (h : ∀ t ∈ op.given, a.Permits u t) : Sound u a (op.run supply a) := by
  have hpooled (pool : Pool) (hpool : ∀ t ∈ pool.toList, a.Permits u t) :
      Pooled u (⟨a, pool⟩ : Workspace V Pool) :=
    ⟨wf, fun p hp => hpool p (Array.mem_toList_iff.mpr hp)⟩
  cases op with
  | coerce value => exact sound_handOut (HostValue.toTerm_safe value wf h).toExtends
  | compound f args => exact sound_handOut (compound_safe wf f h).toExtends
  | compoundOf f args => exact sound_handOut (compoundOf_safe wf f h).toExtends
  | withArguments t args =>
    exact sound_handOut
      (withArguments_safe wf t fun s hs => h s (List.mem_cons_of_mem t hs)).toExtends
  | attach t value => exact sound_handOut (attach_safe wf t value)
  | declareVar name type => exact sound_handOut (declareVar_safe wf name type).toExtends
  | typedVar α name => exact sound_handOut (new_safe wf name).toExtends
  | freshVar α => exact sound_handOut (fresh_safe wf supply).toExtends
  | duplicateVar t => exact sound_handOut (duplicateVar_safe wf t)
  | arguments t =>
    refine sound_handOut (Safe.look (.refl a) wf fun ts hts s hs => ?_)
    exact (wf.args_sound hts s hs).1.permits
  | collect t => exact sound_handOut (collect_safe wf (h t List.mem_cons_self))
  | collectInto t pool =>
    exact sound_handOutPool (collectInto_safe t
      (hpooled pool fun s hs => h s (List.mem_cons_of_mem t hs)) (h t List.mem_cons_self))
  | factorize t => exact sound_handOut (factorize_safe wf (h t List.mem_cons_self))
  | factorizeAgainst t pool =>
    refine sound_handOutPool ((factorizeAgainst_safe t
      (hpooled pool fun s hs => h s (List.mem_cons_of_mem t hs))
      (h t List.mem_cons_self)).mono ?_ ?_)
    · intro _ w hend
      obtain ⟨hw, hgrows, hterms⟩ := hend
      exact ⟨hw, hgrows.toExtends, hterms⟩
    · intro w hend
      obtain ⟨hw, hgrows⟩ := hend
      exact ⟨hw, hgrows.toExtends⟩
  | number t start => exact sound_handOut (number_safe t start wf (h t List.mem_cons_self))
  | normalize t => exact sound_handOut (normalize_safe wf (h t List.mem_cons_self))
  | substitute t frame =>
    exact sound_handOut (substitute_safe frame t wf (h t List.mem_cons_self) fun s hs =>
      h s (List.mem_cons_of_mem t hs)).toExtends

end Operation

/-! ## Whole runs -/

namespace Copy

open Arena

variable {c : Copy V} {t : Term}

/-- The arena is well-formed, and what was handed out may be passed back. -/
def InOrder (u : Use) (c : Copy V) : Prop :=
  c.arena.WellFormed u ∧ ∀ t ∈ c.issued, c.arena.Permits u t

theorem InOrder.permits (hc : c.InOrder u) (ht : c.Admits u t) : c.arena.Permits u t := by
  intro hu
  rcases ht hu with hinline | hissued | hforeign
  · exact .inl (holds_of_inline hinline)
  · exact hc.2 t hissued hu
  · exact .inr hforeign

/-- An operation keeps a copy in order. -/
theorem InOrder.after (hc : c.InOrder u) (supply : NameSupply) (op : Operation V)
    (h : ∀ t ∈ op.given, c.Admits u t) : (c.after supply op).InOrder u := by
  obtain ⟨wf, hext, hnew⟩ := op.run_sound hc.1 supply fun t ht => hc.permits (h t ht)
  refine ⟨wf, fun t ht => ?_⟩
  rcases List.mem_append.mp ht with ht | ht
  · exact hnew t ht
  · exact (hc.2 t ht).extends hext

/-- Under documented use the arena holds every term of the copy. -/
theorem InOrder.holds (hc : c.InOrder .documented) (ht : c.Owns t) :
    c.arena.Holds .documented t := by
  rcases ht with hinline | ⟨hissued, hown⟩
  · exact holds_of_inline hinline
  · exact (hc.2 t hissued rfl).resolve_right hown

end Copy

namespace Session

variable {s s' : Session V}

/-- One move keeps every copy in order. -/
theorem Step.inOrder (move : Step u s s') (hs : ∀ c ∈ s.copies, c.InOrder u) :
    ∀ c ∈ s'.copies, c.InOrder u := by
  cases move with
  | create _ id =>
    intro c hc
    rcases List.mem_cons.mp hc with rfl | hc
    · exact ⟨.empty id, fun _ ht => by cases ht⟩
    · exact hs c hc
  | copy _ h =>
    intro c hc
    rcases List.mem_cons.mp hc with rfl | hc
    · exact hs c h
    · exact hs c hc
  | operate op h =>
    intro d hd
    rcases List.mem_append.mp hd with hd | hd
    · exact hs d (List.mem_append_left _ hd)
    · rcases List.mem_cons.mp hd with rfl | hd
      · exact (hs _ (List.mem_append_right _ List.mem_cons_self)).after _ op h
      · exact hs d (List.mem_append_right _ (List.mem_cons_of_mem _ hd))

/-- EVERY COPY OF A REACHABLE SESSION IS IN ORDER. -/
theorem Reachable.inOrder (hs : s.Reachable u) : ∀ c ∈ s.copies, c.InOrder u := by
  induction hs with
  | start => exact fun _ hc => by cases hc
  | step _ move ih => exact move.inOrder ih

/-- Free use permits every move. -/
theorem Step.free (move : Step u s s') : Step .free s s' := by
  cases move with
  | create _ id => exact .create _ id
  | copy _ h => exact .copy _ h
  | operate op _ => exact .operate op fun _ _ hu => by cases hu

/-- What documented use reaches, free use reaches. -/
theorem Reachable.free (hs : s.Reachable u) : s.Reachable .free := by
  induction hs with
  | start => exact .start
  | step _ move ih => exact .step ih move.free

/-- A run of operations on one copy is a number of moves. -/
theorem Reachable.afterAll {before after : List (Copy V)} (ops : List (Operation V))
    {c : Copy V} {supply : NameSupply} (hs : Reachable u ⟨before ++ c :: after, supply⟩)
    (h : c.AdmitsAll u supply ops) :
    Reachable u ⟨before ++ (c.afterAll supply ops).1 :: after, (c.afterAll supply ops).2⟩ := by
  induction ops generalizing c supply with
  | nil => exact hs
  | cons op ops ih => exact ih (.step hs (.operate op h.1)) h.2

/-- A run of operations on an arena with no other beside it. -/
theorem reachable_alone (id : ArenaId) (ops : List (Operation V))
    (h : (Copy.blank id).AdmitsAll u {} ops) :
    Reachable u ⟨[((Copy.blank id).afterAll {} ops).1], ((Copy.blank id).afterAll {} ops).2⟩ := by
  have hblank : Reachable u ⟨[] ++ Copy.blank id :: [], {}⟩ :=
    Reachable.step .start (.create (V := V) _ id)
  exact hblank.afterAll ops h

end Session

/-! ## A short session -/

/-- The operations that build `f(g(X, 0.0), g(X, -0.0))`, out of two
variables of one name. -/
def Operation.sample : List (Operation Scalar) :=
  let x : Term := .var ⟨⟨0⟩, 0⟩
  let x' : Term := .var ⟨⟨0⟩, 1⟩
  let g : Term := .compound ⟨⟨0⟩, 2⟩
  let g' : Term := .compound ⟨⟨0⟩, 3⟩
  [.declareVar "X" .term, .declareVar "X" .term, .compound "g" [x, .real ⟨0⟩],
    .compound "g" [x', .real ⟨0x8000000000000000⟩], .compound "f" [g, g']]

/-- The copy in which it was built. -/
def Copy.sample : Copy Scalar := ((Copy.blank ⟨0⟩).afterAll {} Operation.sample).1

/-- The handle of what was built. -/
def Term.sample : Term := .compound ⟨⟨0⟩, 4⟩

theorem Copy.sample_owns : Copy.sample.Owns Term.sample := by decide +kernel

theorem Session.reachable_sample : Session.Reachable .documented ⟨[Copy.sample], {}⟩ :=
  reachable_alone ⟨0⟩ Operation.sample (by decide +kernel)

/-! ## Two copies that have parted -/

/-- A copy in which the variable `X` was made. -/
def Copy.declaring : Copy Scalar := (Copy.blank ⟨0⟩).after {} (.typedVar Int64 "X")

/-- Another copy of the same arena, in which `g(1)` has the place of the
variable. The handle of the variable was passed to it, to make a term over
it. -/
def Copy.parted : Copy Scalar :=
  ((Copy.blank ⟨0⟩).afterAll {}
    [.compound "g" [.int 1], .compound "f" [.var ⟨⟨0⟩, 0⟩]]).1

/-- This is not documented use. -/
theorem Session.reachable_parted :
    Session.Reachable .free ⟨[Copy.declaring, Copy.parted], {}⟩ := by
  have hcopied : Session.Reachable (V := Scalar) .free
      ⟨[Copy.blank ⟨0⟩] ++ Copy.blank ⟨0⟩ :: [], {}⟩ :=
    .step (.step .start (.create _ ⟨0⟩)) (.copy _ (List.mem_singleton_self _))
  have hparted : Session.Reachable .free ⟨[] ++ Copy.blank ⟨0⟩ :: [Copy.parted], {}⟩ :=
    hcopied.afterAll [.compound "g" [.int 1], .compound "f" [.var ⟨⟨0⟩, 0⟩]] (by decide +kernel)
  exact hparted.afterAll [.typedVar Int64 "X"] (by decide +kernel)

end TermGraph
