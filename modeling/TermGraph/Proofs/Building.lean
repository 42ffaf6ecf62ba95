import TermGraph.HostValue
import TermGraph.Proofs.Outcome
import TermGraph.Proofs.WellFormed
import TermGraph.TypedVar

/-!
# Building keeps arenas well-formed

Every operation that builds terms comes down to adding one node over
arguments that are held already. This module proves what that does, once,
and then follows the operations outward: compound terms, copies over other
arguments, variables, text, host values.

`Safe` is the statement for all of them. However the computation ends, the
arena is well-formed and a step of the given kind away from where it
began; and the terms it answers may be passed on. For the operations that
other proofs look into there is a statement of success too:
`compound_ok` and `withArguments_ok` say which node was added.
-/

namespace TermGraph

namespace Arena

variable {V α β : Type} {u : Use} {a b : Arena V}

/-- However the computation ends, the arena is well-formed and a step away
from where it began, and the terms answered may be passed on. -/
def Safe (u : Use) (step : Arena V → Arena V → Prop) (m : BuildM V α) (terms : α → List Term)
    (a : Arena V) : Prop :=
  Ensures m a (fun x b => b.WellFormed u ∧ step a b ∧ ∀ t ∈ terms x, b.Permits u t)
    (fun b => b.WellFormed u ∧ step a b)

namespace Safe

variable {step : Arena V → Arena V → Prop} {m : BuildM V α} {T : α → List Term}

/-- A safe computation, seen from an earlier arena. -/
theorem since (h : Safe u step m T b)
    (trans : ∀ {a b c : Arena V}, step a b → step b c → step a c) (hab : step a b) :
    Ensures m b (fun x c => c.WellFormed u ∧ step a c ∧ ∀ t ∈ T x, c.Permits u t)
      (fun c => c.WellFormed u ∧ step a c) := by
  refine Ensures.mono h ?_ ?_
  · intro x c hend
    obtain ⟨wf, hbc, hterms⟩ := hend
    exact ⟨wf, trans hab hbc, hterms⟩
  · intro c hend
    obtain ⟨wf, hbc⟩ := hend
    exact ⟨wf, trans hab hbc⟩

theorem bind {f : α → BuildM V β} {answers : β → List Term}
    (trans : ∀ {a b c : Arena V}, step a b → step b c → step a c) (h : Safe u step m T a)
    (hf : ∀ x b, b.WellFormed u → step a b → (∀ t ∈ T x, b.Permits u t) →
      Safe u step (f x) answers b) : Safe u step (m >>= f) answers a := by
  apply Ensures.bind h
  intro x b hend
  obtain ⟨wf, hab, hterms⟩ := hend
  exact (hf x b wf hab hterms).since trans hab

theorem answer (refl : step a a) (wf : a.WellFormed u) {x : α}
    (h : ∀ t ∈ T x, a.Permits u t) : Safe u step (pure x) T a :=
  Ensures.answer ⟨wf, refl, h⟩

theorem refusal (refl : step a a) (wf : a.WellFormed u) {e : TermError} :
    Safe u step (throw e) T a :=
  Ensures.refusal ⟨wf, refl⟩

theorem look {read : Arena V → Except TermError α} (refl : step a a) (wf : a.WellFormed u)
    (h : ∀ x, read a = .ok x → ∀ t ∈ T x, a.Permits u t) :
    Safe u step (Arena.look read) T a :=
  Ensures.look (fun x hx => ⟨wf, refl, h x hx⟩) ⟨wf, refl⟩

/-- Growth is an extension. -/
theorem toExtends (h : Safe u Grows m T a) : Safe u Extends m T a :=
  h.mono (fun _ _ hx => ⟨hx.1, hx.2.1.toExtends, hx.2.2⟩) fun _ hx => ⟨hx.1, hx.2.toExtends⟩

end Safe

/-! ## One more node -/

/-- The arena with one more node, which has no index. -/
def withNode (a : Arena V) (n : Node V) : Arena V :=
  { a with nodes := a.nodes.push n, indexes := a.indexes.push .unassigned }

/-- The arena with more arguments in its store. -/
def withOperands (a : Arena V) (args : List Term) : Arena V :=
  { a with operands := a.operands ++ args }

theorem withOperands_nil : a.withOperands [] = a := by
  rw [withOperands, Array.appendList_nil]

theorem toList_withOperands (args : List Term) :
    (a.withOperands args).operands.toList = a.operands.toList ++ args :=
  Array.toList_appendList

theorem size_withOperands (args : List Term) :
    (a.withOperands args).operands.size = a.operands.size + args.length := by
  rw [← Array.length_toList, toList_withOperands, List.length_append, Array.length_toList]

theorem grows_withNode (wf : a.WellFormed u) (n : Node V) : a.Grows (a.withNode n) := by
  refine ⟨⟨rfl, fun place m hm => ?_, fun _ _ h => h⟩, fun place hlt => ?_, fun place hle hlt => ?_,
    fun _ _ => rfl⟩
  · have hlt := (Array.getElem?_eq_some_iff.mp hm).1
    rw [withNode, Array.getElem?_push, if_neg (by omega)]
    exact hm
  · rw [withNode, Array.getElem?_push, if_neg (by rw [wf.indexes_size]; omega)]
  · rw [withNode, Array.size_push] at hlt
    have : place = a.indexes.size := by rw [wf.indexes_size]; omega
    rw [withNode, this, Array.getElem?_push_size]

theorem grows_withOperands (args : List Term) : a.Grows (a.withOperands args) := by
  refine ⟨⟨rfl, fun _ _ h => h, fun span ts hs => ?_⟩, fun _ _ => rfl,
    fun _ hle hlt => absurd hlt (Nat.not_lt.mpr hle), fun _ _ => rfl⟩
  unfold operandsIn? at hs ⊢
  split at hs
  · next hin =>
    cases hs
    rw [if_pos (by rw [size_withOperands]; omega)]
    simp only [Array.toList_extract, toList_withOperands, List.extract_eq_take_drop,
      Nat.add_sub_cancel_left, Option.some.injEq]
    rw [List.drop_append_of_le_length (by rw [Array.length_toList]; omega),
      List.take_append_of_le_length (by rw [List.length_drop, Array.length_toList]; omega)]
  · cases hs

/-- The arguments just stored are read back. -/
theorem operandsIn?_withOperands (args : List Term) :
    (a.withOperands args).operandsIn? ⟨a.operands.size, args.length⟩ = some args := by
  unfold operandsIn?
  rw [if_pos (Nat.le_of_eq (size_withOperands args).symm)]
  simp only [Array.toList_extract, toList_withOperands, List.extract_eq_take_drop,
    Nat.add_sub_cancel_left, Option.some.injEq]
  rw [List.drop_append, List.drop_eq_nil_of_le (Nat.le_of_eq Array.length_toList)]
  simp only [Array.length_toList, Nat.sub_self, List.drop_zero, List.nil_append, List.take_length]

theorem node?_withNode (n : Node V) : (a.withNode n).node? ⟨a.id, a.nodes.size⟩ = some n := by
  rw [node?, if_pos (by rfl)]
  exact Array.getElem?_push_size

/-- The handle made for a new node is held. -/
theorem holds_withNode {n : Node V} {t : Term} (ht : t.ref? = some ⟨a.id, a.nodes.size⟩)
    (hkind : t.kind = n.kind) : (a.withNode n).Holds u t := by
  intro r hr
  rw [ht] at hr
  cases hr
  exact ⟨n, node?_withNode n, fun _ => hkind⟩

/-- A sound node may be added. -/
theorem WellFormed.withNode (wf : a.WellFormed u) {n : Node V}
    (h : (a.withNode n).SoundAt u a.nodes.size n) : (a.withNode n).WellFormed u := by
  refine wf.grows (grows_withNode wf n) ?_ ?_ ?_
  · simp only [Arena.withNode, Array.size_push, wf.indexes_size]
  · intro place v hv
    have := wf.contents_lt place v hv
    simp only [Arena.withNode, Array.size_push]
    omega
  · intro place m hle hm
    have hlt := (Array.getElem?_eq_some_iff.mp hm).1
    simp only [Arena.withNode, Array.size_push] at hlt
    obtain rfl : place = a.nodes.size := by omega
    rw [Arena.withNode, Array.getElem?_push_size] at hm
    cases hm
    exact h

theorem WellFormed.withOperands (wf : a.WellFormed u) (args : List Term) :
    (a.withOperands args).WellFormed u :=
  wf.grows (grows_withOperands args) wf.indexes_size wf.contents_lt fun _ _ hle hn =>
    absurd (Array.getElem?_eq_some_iff.mp hn).1 (Nat.not_lt.mpr hle)

/-! ## A new compound term -/

/-- The second arena has one node more, a compound term with this functor
and these arguments, without an index; and `t` is its handle. -/
structure NewCompound (u : Use) (a b : Arena V) (t : Term) (f : String) (args : List Term) :
    Prop where
  wf : b.WellFormed u
  grows : a.Grows b
  handle : t = .compound ⟨a.id, a.nodes.size⟩
  size : b.nodes.size = a.nodes.size + 1
  holds : b.Holds u t
  functor : b.functor t = .ok f
  args : b.args t = .ok args

theorem addCompound_ok (wf : a.WellFormed u) {f : String} {args : List Term}
    (held : ∀ arg ∈ args, a.Holds u arg) (named : f = "" → args = [])
    (ordinary : args = [] → Control.ofName? f = none) :
    ∃ t b, addCompound f args a = .ok t b ∧ NewCompound u a b t f args ∧
      b.contents = a.contents := by
  let c := a.withOperands args
  let n : Node V := .compound f (Signature.text f args.length) ⟨a.operands.size, args.length⟩
  have hac : a.Grows c := grows_withOperands args
  have wfc : c.WellFormed u := wf.withOperands args
  have hcb : c.Grows (c.withNode n) := grows_withNode wfc n
  have hargs : (c.withNode n).operandsIn? ⟨a.operands.size, args.length⟩ = some args :=
    hcb.operands _ _ (operandsIn?_withOperands args)
  have hsound : (c.withNode n).SoundAt u a.nodes.size n :=
    ⟨args, hargs, {
      signature_eq := rfl
      named
      ordinary
      held := fun arg harg => ((held arg harg).extends hac.toExtends).extends hcb.toExtends
      older := fun arg harg => (held arg harg).height_lt }⟩
  have hnode : (c.withNode n).node? ⟨a.id, a.nodes.size⟩ = some n := node?_withNode (a := c) n
  refine ⟨.compound ⟨a.id, a.nodes.size⟩, c.withNode n, rfl, ?_, rfl⟩
  refine ⟨wfc.withNode hsound, hac.trans hcb, rfl, Array.size_push _, ?_, ?_, ?_⟩
  · exact holds_withNode (a := c) rfl rfl
  · simp only [functor, bind, Except.bind, Arena.node, hnode, n]
  · simp only [Arena.args, bind, Except.bind, Arena.node, hnode, n, operandsOf, hargs]

/-- A new compound term has no index. -/
theorem NewCompound.index {t : Term} {f : String} {args : List Term}
    (h : NewCompound u a b t f args) : b.index t = .ok .unassigned := by
  obtain ⟨i, hi⟩ := h.holds.index
  have hunassigned := h.grows.index_of_le (r := ⟨a.id, a.nodes.size⟩) (Nat.le_refl _)
    (.inr h.handle) hi h.wf.indexes_size
  rw [hi, hunassigned]

/-- Arguments that are held pass the check. -/
theorem verifyAll_of_held {args : List Term} (held : ∀ arg ∈ args, a.Holds u arg) :
    a.verifyAll args = .ok () :=
  (a.verifyAll_eq_ok_iff args).mpr fun arg harg => (held arg harg).resolves

/-- A compound term with arguments is always a new node. -/
theorem compound_ok (wf : a.WellFormed u) {f : String} {args : List Term} (hf : f ≠ "")
    (hne : args ≠ []) (held : ∀ arg ∈ args, a.Holds u arg) :
    ∃ t b, compound f args a = .ok t b ∧ NewCompound u a b t f args ∧
      b.contents = a.contents := by
  obtain ⟨t, b, hadd, hnew⟩ := addCompound_ok wf held (fun h => absurd h hf)
    (fun h => absurd h hne)
  refine ⟨t, b, ?_, hnew⟩
  cases args with
  | nil => exact absurd rfl hne
  | cons arg args =>
    have hlook := look_of_ok (f := (·.verifyAll (arg :: args))) (verifyAll_of_held held)
    rw [← hadd, compound]
    simp only [bind, EStateM.bind, hlook]
    · rw [if_neg hf]
    · intro _ hnil
      cases hnil
    · intro hnil
      cases hnil

/-- Building a compound term answers a control constant or a new node over
the arguments; a refusal leaves the arena as it was. -/
theorem compound_ensures (wf : a.WellFormed u) (f : String) {args : List Term}
    (permitted : ∀ arg ∈ args, a.Permits u arg) :
    Ensures (compound f args) a
      (fun t b => b.WellFormed u ∧ a.Grows b ∧ b.contents = a.contents ∧ b.Holds u t ∧
        b.args t = .ok args ∧ ∀ r, t.ref? = some r → a.nodes.size ≤ r.id)
      (fun b => b = a) := by
  unfold compound
  refine Ensures.bind (P := fun _ b => b = a ∧ ∀ arg ∈ args, a.Holds u arg) ?_ ?_
  · refine Ensures.look (fun _ h => ⟨rfl, fun arg harg => ?_⟩) rfl
    exact (permitted arg harg).holds ((a.verifyAll_eq_ok_iff args).mp h arg harg)
  · rintro ⟨⟩ b ⟨rfl, held⟩
    have hadd (named : f = "" → args = []) (ordinary : args = [] → Control.ofName? f = none) :
        Ensures (addCompound f args) b
          (fun t c => c.WellFormed u ∧ b.Grows c ∧ c.contents = b.contents ∧ c.Holds u t ∧
            c.args t = .ok args ∧ ∀ r, t.ref? = some r → b.nodes.size ≤ r.id)
          (fun c => c = b) := by
      obtain ⟨t, c, hok, hnew, hcontents⟩ := addCompound_ok wf held named ordinary
      refine .of_ok hok ⟨hnew.wf, hnew.grows, hcontents, hnew.holds, hnew.args, fun r hr => ?_⟩
      rw [hnew.handle] at hr
      cases hr
      exact Nat.le_refl _
    split
    · exact Ensures.answer ⟨wf, .refl _, rfl, holds_of_inline rfl, rfl, fun _ hr => by cases hr⟩
    · next hname => exact hadd (fun _ => rfl) fun _ => hname
    · next hplain _ =>
      by_cases hf : f = ""
      · rw [if_pos hf]
        exact Ensures.refusal rfl
      · rw [if_neg hf]
        apply hadd (fun h => absurd h hf)
        intro hnil
        cases hc : Control.ofName? f with
        | none => rfl
        | some c => exact (hplain c hnil hc).elim

theorem compound_safe (wf : a.WellFormed u) (f : String) {args : List Term}
    (permitted : ∀ arg ∈ args, a.Permits u arg) :
    Safe u Grows (compound f args) (fun t => [t]) a := by
  refine (compound_ensures wf f permitted).mono ?_ ?_
  · intro t b hend
    obtain ⟨wf', hab, -, ht, -, -⟩ := hend
    exact ⟨wf', hab, List.forall_mem_singleton.mpr ht.permits⟩
  · rintro b rfl
    exact ⟨wf, .refl b⟩

/-! ## Contents, and copies over other arguments -/

/-- Attaching a value to a place that was not there before is growth. -/
theorem Grows.putContent (h : a.Grows b) {place : Nat} (hle : a.nodes.size ≤ place) (v : V) :
    a.Grows { b with contents := b.contents.insert place v } := by
  refine ⟨⟨h.id, h.nodes, h.operands⟩, h.indexes, h.fresh, fun other hlt => ?_⟩
  rw [← h.contents other hlt]
  exact ContentTable.get?_insert_of_ne _ _ (by omega)

/-- The content of a handle that is new is not there yet. -/
theorem WellFormed.content?_eq_none (wf : a.WellFormed u) {r : Reference}
    (h : a.nodes.size ≤ r.id) : a.content? (.compound r) = none := by
  simp only [content?]
  split
  · cases hc : a.contents.get? r.id with
    | none => rfl
    | some v => exact absurd (wf.contents_lt _ _ hc) (Nat.not_lt.mpr h)
  · rfl

/-- A copy of a compound term over other arguments, at least one: a new
node with the functor and the content of the old one. -/
theorem withArguments_ok (wf : a.WellFormed .documented) {r : Reference}
    (ht : a.Holds .documented (.compound r)) {f : String} {old args : List Term}
    (hf : a.functor (.compound r) = .ok f) (hold : a.args (.compound r) = .ok old)
    (hlength : old.length = args.length) (hne : args ≠ [])
    (held : ∀ arg ∈ args, a.Holds .documented arg) :
    ∃ t b, withArguments (.compound r) args a = .ok t b ∧
      NewCompound .documented a b t f args ∧ b.content? t = a.content? (.compound r) := by
  have hfne : f ≠ "" := by
    obtain ⟨f', ts, signature, hf', hts, -, hshell⟩ := wf.shell ht
    rw [hf] at hf'
    rw [hold] at hts
    cases hf'
    cases hts
    intro hnil
    rw [hshell.named hnil, List.length_nil] at hlength
    exact hne (List.eq_nil_of_length_eq_zero hlength.symm)
  obtain ⟨t, b, hok, hnew, hcontents⟩ := compound_ok wf hfne hne held
  have hlook := look_of_ok (f := (·.functor (.compound r))) hf
  have hbare : b.content? t = none := by
    have hwfa := wf.content?_eq_none (r := ⟨a.id, a.nodes.size⟩) (Nat.le_refl _)
    rw [hnew.handle]
    simp only [content?, hnew.grows.id, hcontents] at hwfa ⊢
    exact hwfa
  unfold withArguments
  have hget : (get : BuildM V (Arena V)) a = .ok a a := rfl
  simp only [bind, EStateM.bind, hlook, hok, hget]
  cases hc : a.content? (.compound r) with
  | none => exact ⟨t, b, rfl, hnew, hbare⟩
  | some v =>
    obtain ⟨wf', hgrows, rfl, hsize, hholds, hfun, hargs⟩ := hnew
    refine ⟨_, { b with contents := b.contents.insert a.nodes.size v }, rfl,
      ⟨wf'.putContent (by omega) v, hgrows.putContent (Nat.le_refl _) v, rfl, hsize, hholds, hfun,
        hargs⟩, ?_⟩
    simp only [content?, hgrows.id, if_true, ContentTable.get?_insert_self]

/-- A copy over other arguments is a new node over them, or a control
constant; a refusal leaves the arena as it was. -/
theorem withArguments_ensures (wf : a.WellFormed u) (t : Term) {args : List Term}
    (permitted : ∀ arg ∈ args, a.Permits u arg) :
    Ensures (withArguments t args) a
      (fun c b => b.WellFormed u ∧ a.Grows b ∧ b.Holds u c ∧ b.args c = .ok args ∧
        ∀ r, c.ref? = some r → a.nodes.size ≤ r.id)
      (fun b => b = a) := by
  refine Ensures.bind (P := fun _ b => b = a) (Ensures.look (fun _ _ => rfl) ?_) ?_
  · rfl
  rintro f b rfl
  apply Ensures.bind_ok (y := b) (x := b) rfl
  apply Ensures.bind (compound_ensures wf f permitted)
  intro c d hend
  obtain ⟨wf', hbd, -, hc, hargs, hplace⟩ := hend
  cases b.content? t with
  | none => exact Ensures.answer ⟨wf', hbd, hc, hargs, hplace⟩
  | some v =>
    refine Ensures.bind (P := fun _ e => e.WellFormed u ∧ b.Grows e ∧ e.Holds u c ∧
      e.args c = .ok args) ?_ ?_
    · cases c with
      | compound r =>
        exact ⟨wf'.putContent (hc.place_lt rfl).2 v, hbd.putContent (hplace r rfl) v, hc, hargs⟩
      | _ => exact ⟨wf', hbd, hc, hargs⟩
    · intro _ e hend
      obtain ⟨wf'', hbe, hce, hargs'⟩ := hend
      exact Ensures.answer ⟨wf'', hbe, hce, hargs', hplace⟩

/-- A copy over other arguments is safe. -/
theorem withArguments_safe (wf : a.WellFormed u) (t : Term) {args : List Term}
    (permitted : ∀ arg ∈ args, a.Permits u arg) :
    Safe u Grows (withArguments t args) (fun t => [t]) a := by
  refine (withArguments_ensures wf t permitted).mono ?_ ?_
  · intro c b hend
    obtain ⟨wf', hab, hc, -, -⟩ := hend
    exact ⟨wf', hab, List.forall_mem_singleton.mpr hc.permits⟩
  · rintro b rfl
    exact ⟨wf, .refl b⟩

/-- Attaching a value is safe: it changes no node and no index. -/
theorem attach_safe (wf : a.WellFormed u) (t : Term) (v : V) :
    Safe u Extends (attach t v) (fun _ => []) a := by
  have hsame : a.Extends a := .refl a
  cases t with
  | compound r =>
    refine Ensures.bind (P := fun n b => b = a ∧ a.node (.compound r) r = .ok n)
      (Ensures.look (fun _ h => ⟨rfl, h⟩) ⟨wf, hsame⟩) ?_
    intro n b hend
    obtain ⟨rfl, hn⟩ := hend
    refine ⟨wf.putContent ?_ v, ⟨rfl, fun _ _ h => h, fun _ _ h => h⟩, fun _ h => by cases h⟩
    unfold Arena.node at hn
    split at hn
    · next m hm =>
      rw [node?] at hm
      split at hm
      · exact (Array.getElem?_eq_some_iff.mp hm).1
      · cases hm
    · cases hn
  | _ => exact Safe.refusal hsame wf

/-! ## Variables, payloads and text -/

theorem addVar_safe (wf : a.WellFormed u) {name : String} (type : VarType) (hanon : name ≠ "_")
    (hwhole : name ≠ ".") : Safe u Grows (addVar name type) (fun t => [t]) a := by
  refine ⟨wf.withNode (n := .var name type) ⟨hanon, hwhole⟩, grows_withNode wf _, ?_⟩
  exact List.forall_mem_singleton.mpr (holds_withNode rfl rfl).permits

theorem payload_safe (wf : a.WellFormed u) (v : V) :
    Safe u Grows (payload v) (fun t => [t]) a := by
  refine ⟨wf.withNode (n := .payload v) fun _ => ?_, grows_withNode wf _, ?_⟩
  · rw [withNode, ← wf.indexes_size]
    exact Array.getElem?_push_size
  · exact List.forall_mem_singleton.mpr (holds_withNode rfl rfl).permits

theorem declareVar_safe (wf : a.WellFormed u) (name : String) (type : VarType) :
    Safe u Grows (declareVar name type) (fun t => [t]) a := by
  unfold declareVar
  dsimp only
  by_cases hblank : Text.isBlank name = true
  · rw [if_pos hblank]
    exact Safe.refusal (Grows.refl a) wf
  · rw [if_neg hblank]
    by_cases hname : name = "_" ∨ name = "."
    · rw [if_pos hname]
      exact Safe.refusal (Grows.refl a) wf
    · rw [if_neg hname]
      rw [not_or] at hname
      exact addVar_safe wf type hname.1 hname.2

theorem ofText_safe (wf : a.WellFormed u) (text : String) :
    Safe u Grows (ofText text) (fun t => [t]) a := by
  have hinline (t : Term) (h : t.ref? = none) :
      Safe u Grows (pure t : BuildM V Term) (fun t => [t]) a :=
    Safe.answer (.refl a) wf (List.forall_mem_singleton.mpr (permits_of_inline h))
  unfold ofText
  split
  · exact hinline .anon rfl
  · split
    · have held : ∀ arg ∈ ([] : List Term), a.Holds u arg := List.forall_mem_nil _
      obtain ⟨t, b, hok, hnew, -⟩ := addCompound_ok (f := "") wf held (fun _ => rfl)
        (fun _ => by decide)
      exact Ensures.of_ok hok
        ⟨hnew.wf, hnew.grows, List.forall_mem_singleton.mpr hnew.holds.permits⟩
    · split
      · exact declareVar_safe wf text .str
      · exact hinline (.atom text) rfl

/-! ## Setting an index -/

/-- The index table with the index of a variable or a compound term set. -/
def indexesWith (a : Arena V) (t : Term) (i : Index) : Array Index :=
  match t with
  | .var r | .compound r =>
    if r.arena = a.id then a.indexes.setIfInBounds r.id i else a.indexes
  | _ => a.indexes

theorem setIndex_eq (t : Term) (i : Index) :
    setIndex t i a = .ok () (a.reindexed (a.indexesWith t i)) := by
  cases t with
  | var r | compound r =>
    by_cases hid : r.arena = a.id
    · simp only [setIndex, indexesWith, if_pos hid]
      rfl
    · simp only [setIndex, indexesWith, if_neg hid]
      rfl
  | _ => rfl

theorem size_indexesWith (t : Term) (i : Index) :
    (a.indexesWith t i).size = a.indexes.size := by
  cases t with
  | var r | compound r =>
    simp only [indexesWith]
    split
    · exact Array.size_setIfInBounds
    · rfl
  | _ => rfl

/-- Under documented use no payload is given an index: the handle of a
variable or a compound term does not fit one. -/
theorem WellFormed.setIndex (wf : a.WellFormed u) {t : Term} (ht : a.Permits u t) (i : Index) :
    (a.reindexed (a.indexesWith t i)).WellFormed u := by
  apply wf.reindexed (size_indexesWith t i)
  intro place v hu hplace
  have hother (r : Reference) (hr : t.ref? = some r) (hkind : t.kind ≠ .payload) :
      (if r.arena = a.id then a.indexes.setIfInBounds r.id i else a.indexes)[place]? =
        a.indexes[place]? := by
    split
    · next hid =>
      refine Array.getElem?_setIfInBounds_ne fun heq => ?_
      rcases ht hu with hheld | ⟨r', hr', hne⟩
      · obtain ⟨n, hn, hfit⟩ := hheld r hr
        rw [node?, if_pos hid, heq, hplace] at hn
        cases hn
        exact hkind (hfit hu)
      · rw [hr] at hr'
        cases hr'
        exact hne hid
    · rfl
  cases t with
  | var r => exact hother r rfl (by simp [Term.kind])
  | compound r => exact hother r rfl (by simp [Term.kind])
  | _ => rfl

theorem setIndex_safe (wf : a.WellFormed u) {t : Term} (ht : a.Permits u t) (i : Index) :
    Safe u Extends (setIndex t i) (fun _ => []) a :=
  Ensures.of_ok (setIndex_eq t i)
    ⟨wf.setIndex ht i, extends_reindexed _ _, fun _ h => by cases h⟩

theorem duplicateVar_safe (wf : a.WellFormed u) (t : Term) :
    Safe u Extends (duplicateVar t) (fun t => [t]) a := by
  have hsame : a.Extends a := .refl a
  unfold duplicateVar
  split
  · exact Safe.refusal hsame wf
  · exact Safe.refusal hsame wf
  · refine Ensures.bind_ok (y := a) (x := a) rfl ?_
    split
    · exact Ensures.bind_ok (y := a) (x := a) rfl (Safe.refusal (T := fun t => [t]) hsame wf)
    · next name type hname =>
      have hnames : name ≠ "_" ∧ name ≠ "." := by
        cases t with
        | var r =>
          simp only [namedVar?, node?] at hname
          split at hname
          · next hn =>
            cases hname
            split at hn
            · exact wf.sound _ _ hn
            · cases hn
          · cases hname
        | _ => cases hname
      refine Safe.bind Extends.trans (T := fun _ => [])
        (Safe.look hsame wf fun _ _ _ h => by cases h) fun i b wfb _ _ => ?_
      refine Safe.bind Extends.trans (addVar_safe wfb type hnames.1 hnames.2).toExtends
        fun copy c wfc _ hcopy => ?_
      refine Safe.bind Extends.trans (setIndex_safe wfc (hcopy copy List.mem_cons_self) i)
        fun _ d wfd hcd _ => ?_
      apply Safe.answer (.refl d) wfd
      intro s hs
      exact (hcopy s hs).extends hcd

end Arena

/-! ## Host values -/

namespace HostValue

variable {V : Type} {u : Use} {a : Arena V}

open Arena

mutual

/-- The terms that a host value brings with it. -/
def terms : HostValue V → List Term
  | present value => value.terms
  | term t => [t]
  | compound _ args => termsOf args
  | _ => []

/-- The terms that host values bring with them. -/
def termsOf : List (HostValue V) → List Term
  | [] => []
  | value :: rest => value.terms ++ termsOf rest

end

mutual

/-- Coercion is safe. -/
theorem toTerm_safe : (value : HostValue V) → ∀ {a : Arena V}, a.WellFormed u →
    (∀ t ∈ value.terms, a.Permits u t) → Safe u Grows value.toTerm (fun t => [t]) a
  | absent, a, wf, _ => Safe.refusal (Grows.refl a) wf
  | present value, _, wf, h => by
    rw [toTerm]
    exact toTerm_safe value wf h
  | int i, a, wf, _ => by
    refine Safe.answer (Grows.refl a) wf (List.forall_mem_singleton.mpr (permits_of_inline ?_))
    unfold Term.ofInt
    split <;> rfl
  | single _, a, wf, _ | real _, a, wf, _ | bool _, a, wf, _ =>
    Safe.answer (Grows.refl a) wf (List.forall_mem_singleton.mpr (permits_of_inline rfl))
  | text s, _, wf, _ => ofText_safe wf s
  | payload v, _, wf, _ => payload_safe wf v
  | term _, a, wf, h => Safe.answer (Grows.refl a) wf h
  | atom name, a, wf, _ => by
    refine Safe.answer (Grows.refl a) wf (List.forall_mem_singleton.mpr (permits_of_inline ?_))
    unfold Term.ofAtomName
    split <;> rfl
  | var name, _, wf, _ => declareVar_safe wf name .any
  | compound f args, _, wf, h => by
    rw [toTerm]
    refine Safe.bind Grows.trans (toTerms_safe args wf h) fun ts b wfb _ hts => ?_
    exact compound_safe wfb f hts

/-- And so is the coercion of a list. -/
theorem toTerms_safe : (values : List (HostValue V)) → ∀ {a : Arena V}, a.WellFormed u →
    (∀ t ∈ termsOf values, a.Permits u t) → Safe u Grows (toTerms values) (fun ts => ts) a
  | [], a, wf, _ => Safe.answer (Grows.refl a) wf fun _ h => by cases h
  | value :: rest, _, wf, h => by
    rw [toTerms]
    refine Safe.bind Grows.trans
      (toTerm_safe value wf fun t ht => h t (List.mem_append_left _ ht)) fun t b wfb hab ht => ?_
    refine Safe.bind Grows.trans (toTerms_safe rest wfb fun t ht =>
      (h t (List.mem_append_right _ ht)).extends hab.toExtends) fun ts c wfc hbc hts => ?_
    apply Safe.answer (Grows.refl c) wfc
    intro s hs
    rcases List.mem_cons.mp hs with rfl | hs
    · exact (ht s List.mem_cons_self).extends hbc.toExtends
    · exact hts s hs

end

/-- Coercing the arguments of a functor is safe. -/
theorem toArguments_safe (f : String) (values : List (HostValue V)) :
    ∀ {a : Arena V} (index : Nat), a.WellFormed u → (∀ t ∈ termsOf values, a.Permits u t) →
      Safe u Grows (toArguments f index values) (fun ts => ts) a := by
  induction values with
  | nil =>
    intro a index wf _
    exact Safe.answer (Grows.refl a) wf fun _ h => by cases h
  | cons value rest ih =>
    intro a index wf h
    have hvalue := toTerm_safe value wf fun t ht => h t (List.mem_append_left _ ht)
    rw [toArguments]
    refine Safe.bind (T := fun t => [t]) Grows.trans ?_ fun t b wfb hab ht => ?_
    · unfold Safe Ensures at hvalue ⊢
      split at hvalue
      · next t b hok =>
        dsimp only
        rw [hok]
        exact hvalue
      · next e b herr =>
        dsimp only
        rw [herr]
        cases e <;> exact hvalue
    refine Safe.bind Grows.trans (ih (index + 1) wfb fun t ht =>
      (h t (List.mem_append_right _ ht)).extends hab.toExtends) fun ts c wfc hbc hts => ?_
    apply Safe.answer (Grows.refl c) wfc
    intro s hs
    rcases List.mem_cons.mp hs with rfl | hs
    · exact (ht s List.mem_cons_self).extends hbc.toExtends
    · exact hts s hs

end HostValue

/-- Building a compound term over host values is safe. -/
theorem Arena.compoundOf_safe {V : Type} {u : Use} {a : Arena V} (wf : a.WellFormed u)
    (f : String) {values : List (HostValue V)}
    (h : ∀ t ∈ HostValue.termsOf values, a.Permits u t) :
    Safe u Grows (compoundOf f values) (fun t => [t]) a :=
  Safe.bind Grows.trans (HostValue.toArguments_safe f values 0 wf h) fun _ _ wfb _ hts =>
    compound_safe wfb f hts

end TermGraph
