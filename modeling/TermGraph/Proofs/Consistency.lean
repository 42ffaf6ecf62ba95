import Mathlib.Logic.Relation
import TermGraph.Proofs.Closures
import TermGraph.Proofs.Recursion

/-!
# Consistency — the tables agree, after any history

`WellFormed` says what operations need. `TablesAgree` says it of the tables
themselves, row by row and without handles: the index table is as long as
the node table; the run of a compound node lies inside the operand store,
and its signature is its name with the length of the run; a node with
arguments has a name; and what an operand refers to is an older node of
the same arena.

This holds under FREE use. A host may pass any handle to any operation: a
handle of another arena, a handle of a copy that has gone its own way and
that resolves to an unrelated node here, a handle that resolves to
nothing. Operations may fail on the way. The tables agree all the same.

An argument is older than what holds it, so no chain of arguments comes
back to where it began, and every recursion over arguments ends.

## What is proved

`Session.Reachable.history_consistent` — all of this, of every copy of every
session, also of sessions in which closures were called.
-/

namespace TermGraph

namespace Arena

variable {V : Type} {u : Use} {a : Arena V}

/-- The operand number `i` of the run is the reference `r`. -/
def RefersAt (a : Arena V) (span : Span) (i : Nat) (r : Reference) : Prop :=
  i < span.length ∧ ∃ t, a.operands[span.start + i]? = some t ∧ t.ref? = some r

/-- The tables of the arena agree with each other, row by row. -/
structure TablesAgree (a : Arena V) : Prop where
  indexes : a.indexes.size = a.nodes.size
  runs : ∀ (place : Nat) name signature span,
    a.nodes[place]? = some (.compound name signature span) →
      span.start + span.length ≤ a.operands.size
  signatures : ∀ (place : Nat) name signature span,
    a.nodes[place]? = some (.compound name signature span) →
      signature = name ++ "/" ++ toString span.length
  named : ∀ (place : Nat) name signature span,
    a.nodes[place]? = some (.compound name signature span) → 0 < span.length → name ≠ ""
  older : ∀ (place : Nat) name signature span i r,
    a.nodes[place]? = some (.compound name signature span) → a.RefersAt span i r →
      r.arena = a.id ∧ r.id < place

/-- The arguments of a sound node are the operands of its run. -/
theorem SoundAt.run {place : Nat} {name signature : String} {span : Span}
    (h : a.SoundAt u place (.compound name signature span)) :
    ∃ args, a.SoundShell u place name signature args ∧ args.length = span.length ∧
      span.start + span.length ≤ a.operands.size ∧
      ∀ i, i < span.length → args[i]? = a.operands[span.start + i]? := by
  obtain ⟨args, hargs, hshell⟩ := h
  unfold operandsIn? at hargs
  split at hargs
  · next hin =>
    cases hargs
    refine ⟨_, hshell, ?_, hin, fun i hi => ?_⟩
    · rw [Array.length_toList, Array.size_extract]
      omega
    · rw [Array.getElem?_toList, Array.getElem?_extract_of_lt (by omega)]
      exact (Array.getElem?_eq_getElem _).symm
  · cases hargs

/-- WELL-FORMED TABLES AGREE. -/
theorem WellFormed.tablesAgree (wf : a.WellFormed u) : a.TablesAgree where
  indexes := wf.indexes_size
  runs place name signature span hn := by
    obtain ⟨args, -, -, hin, -⟩ := (wf.sound place _ hn).run
    exact hin
  signatures place name signature span hn := by
    obtain ⟨args, hshell, hlength, -, -⟩ := (wf.sound place _ hn).run
    rw [hshell.signature_eq, hlength, Signature.text]
  named place name signature span hn hpos hname := by
    obtain ⟨args, hshell, hlength, -, -⟩ := (wf.sound place _ hn).run
    rw [hshell.named hname, List.length_nil] at hlength
    omega
  older place name signature span i r hn hrefers := by
    obtain ⟨args, hshell, -, -, hargs⟩ := (wf.sound place _ hn).run
    obtain ⟨hi, t, ht, hr⟩ := hrefers
    have hmem : t ∈ args := List.mem_of_getElem? ((hargs i hi).trans ht)
    have hheight := hshell.older t hmem
    simp only [Term.height, hr] at hheight
    exact ⟨((hshell.held t hmem).place_lt hr).1, by omega⟩

/-- The node at the place `p` has an argument at the place `q`. -/
def Refers (a : Arena V) (p q : Nat) : Prop :=
  ∃ name signature span i, a.nodes[p]? = some (.compound name signature span) ∧
    a.RefersAt span i ⟨a.id, q⟩

/-- A chain of arguments leads to older nodes. -/
theorem TablesAgree.lt_of_chain (h : a.TablesAgree) {p q : Nat}
    (hpq : Relation.TransGen a.Refers p q) : q < p := by
  induction hpq with
  | single hstep =>
    obtain ⟨name, signature, span, i, hn, hrefers⟩ := hstep
    exact (h.older _ _ _ _ _ _ hn hrefers).2
  | tail _ hstep ih =>
    obtain ⟨name, signature, span, i, hn, hrefers⟩ := hstep
    have hlt := (h.older _ _ _ _ _ _ hn hrefers).2
    dsimp only at hlt
    omega

/-- NO TERM GRAPH HAS A CYCLE. -/
theorem TablesAgree.acyclic (h : a.TablesAgree) (p : Nat) : ¬Relation.TransGen a.Refers p p :=
  fun hp => Nat.lt_irrefl p (h.lt_of_chain hp)

/-- What is true of the tables of an arena, and of term graphs in it. -/
structure Consistent [Payload V] (a : Arena V) : Prop where
  tables : a.TablesAgree
  acyclic : ∀ p, ¬Relation.TransGen a.Refers p p
  recursions : a.RecursionsEnd

theorem WellFormed.consistent [Payload V] (wf : a.WellFormed .free) : a.Consistent :=
  ⟨wf.tablesAgree, wf.tablesAgree.acyclic, wf.recursionsEnd⟩

end Arena

/-- Where a run of moves ends, the arena is consistent. -/
theorem RunsTo.consistent {V σ α : Type} [Payload V] {supply : σ → NameSupply} {c : Copy V} {x : σ}
    {m : WorkM V σ α} {handles : α → List Term} (hc : c.InOrder .free)
    (h : RunsTo .free supply c x m handles) :
    Ensures m ⟨c.arena, x⟩ (fun _ w => w.arena.Consistent) (fun w => w.arena.Consistent) :=
  (h.ensures_extends hc).mono (fun _ _ hw => hw.1.consistent) fun _ hw => hw.1.consistent

/-- THE TABLES AGREE AFTER EVERY HISTORY. Every copy of every session that a
host can reach, with any handles passed anywhere, is consistent: its tables
agree, there is no cycle, and every recursion over arguments ends. The same
holds where an operation ends that called closures of the host; and the
recursion of a mapping ends too. -/
theorem Session.Reachable.history_consistent {V : Type} [Payload V] {u : Use} {s : Session V}
    (hs : s.Reachable u) {c : Copy V} (hc : c ∈ s.copies) :
    c.arena.Consistent ∧
    (∀ (σ : Type) (supply : σ → NameSupply) (mapper : Term → WorkM V σ Term) (t : Term) (x : σ),
      (∀ q, UsesMoves .free supply c [q] (mapper q)) →
      Ensures (Arena.mapCompounds mapper t) ⟨c.arena, x⟩ (fun _ w => w.arena.Consistent)
        (fun w => w.arena.Consistent) ∧
      EndsBy (Arena.mapCompoundsStep mapper) (· ⟨c.arena, x⟩) t
        (Arena.mapCompounds mapper t ⟨c.arena, x⟩)) ∧
    (∀ (σ : Type) (supply : σ → NameSupply) (f : String) (closures : List (WorkM V σ Term)) (x : σ),
      (∀ m ∈ closures, UsesMoves .free supply c [] m) →
      Ensures (Arena.compoundFrom f closures) ⟨c.arena, x⟩ (fun _ w => w.arena.Consistent)
        (fun w => w.arena.Consistent)) := by
  have horder := hs.free.inOrder c hc
  have wf := horder.1
  have hadmits {d : Copy V} (ts : List Term) : ∀ t ∈ ts, d.Admits .free t :=
    fun _ _ hu => by cases hu
  refine ⟨wf.consistent, fun σ supply mapper t x hmapper => ⟨?_, ?_⟩,
    fun σ supply f closures x hclosures => ?_⟩
  · exact (UsesMoves.mapCompounds hmapper t c x (.refl horder) (hadmits [t])).consistent horder
  · refine wf.mapCompounds_ends (fun q w hw => ?_) t x
    have hd : Copy.InOrder .free ⟨w.arena, []⟩ := ⟨hw, fun _ ht => by cases ht⟩
    have hrun := hmapper q ⟨w.arena, []⟩ w.carried (.free hd) (hadmits [q])
    exact (hrun.ensures_extends hd).mono (fun _ _ h => h.1) fun _ h => h.1
  · exact (UsesMoves.compoundFrom f hclosures c x (.refl horder) (hadmits [])).consistent horder

/-- The arena of the sample, under documented use; and a copy that was given
a handle of another one, after the two had parted. -/
theorem Session.history_consistent_sample :
    Copy.sample.arena.Consistent ∧ Copy.parted.arena.Consistent :=
  ⟨(Session.Reachable.history_consistent reachable_sample (List.mem_singleton_self _)).1,
    (Session.Reachable.history_consistent reachable_parted
      (List.mem_cons_of_mem _ (List.mem_singleton_self _))).1⟩

end TermGraph
