import TermGraph.Arena.Descent

/-!
# Extension — what an arena keeps while it grows

Nodes are never changed and never dropped, and neither are the arguments
in the operand store. So an arena after any operation EXTENDS the arena
before it, and whatever a reader answered before, it answers afterwards.

Two finer relations say what happens to the two tables that do change:

- an arena GROWS into another when nodes are added and nothing else
  happens: old nodes keep index and content, new nodes have no index;
- an arena is REINDEXED when its indexes alone are replaced.

## What is proved

Every reader's answer survives extension. A reader that fails may answer
afterwards, because the handle may resolve then; that is why the lemmas
are about answers, and not equations.
-/

namespace TermGraph

namespace Arena

variable {V : Type} {a b c : Arena V}

/-- The second arena holds everything that the first one holds, in the same
places. -/
structure Extends (a b : Arena V) : Prop where
  id : b.id = a.id
  nodes : ∀ (place : Nat) (n : Node V), a.nodes[place]? = some n → b.nodes[place]? = some n
  operands : ∀ span ts, a.operandsIn? span = some ts → b.operandsIn? span = some ts

namespace Extends

theorem refl (a : Arena V) : a.Extends a := ⟨rfl, fun _ _ h => h, fun _ _ h => h⟩

theorem trans (h : a.Extends b) (k : b.Extends c) : a.Extends c :=
  ⟨k.id.trans h.id, fun p n hn => k.nodes p n (h.nodes p n hn),
    fun s ts hs => k.operands s ts (h.operands s ts hs)⟩

/-- The number of nodes never decreases. -/
theorem size_le (h : a.Extends b) : a.nodes.size ≤ b.nodes.size := by
  rcases Nat.eq_zero_or_pos a.nodes.size with hz | hpos
  · omega
  · have hlast := h.nodes (a.nodes.size - 1) _ (Array.getElem?_eq_getElem (by omega))
    have := (Array.getElem?_eq_some_iff.mp hlast).1
    omega

/-! ## Answers that survive -/

theorem node?_eq (h : a.Extends b) {r : Reference} {n : Node V} (hn : a.node? r = some n) :
    b.node? r = some n := by
  rw [node?] at hn ⊢
  rw [h.id]
  split at hn
  · next hid => rw [if_pos hid]; exact h.nodes _ _ hn
  · cases hn

theorem node_eq (h : a.Extends b) {t : Term} {r : Reference} {n : Node V}
    (hn : a.node t r = .ok n) : b.node t r = .ok n := by
  unfold node at hn ⊢
  split at hn
  · next m hm => rw [h.node?_eq hm]; exact hn
  · cases hn

theorem args_eq (h : a.Extends b) {t : Term} {ts : List Term} (ht : a.args t = .ok ts) :
    b.args t = .ok ts := by
  cases t with
  | compound r =>
    simp only [args, bind, Except.bind] at ht ⊢
    cases hn : a.node (.compound r) r with
    | error e => rw [hn] at ht; cases ht
    | ok n =>
      rw [h.node_eq hn]
      rw [hn] at ht
      cases n with
      | compound name signature span =>
        simp only [operandsOf] at ht ⊢
        cases hs : a.operandsIn? span with
        | none => rw [hs] at ht; cases ht
        | some us => rw [h.operands _ _ hs]; rw [hs] at ht; exact ht
      | var _ _ => cases ht
      | payload _ => cases ht
  | _ => exact ht

theorem functor_eq (h : a.Extends b) {t : Term} {f : String} (ht : a.functor t = .ok f) :
    b.functor t = .ok f := by
  cases t with
  | compound r =>
    simp only [functor, bind, Except.bind] at ht ⊢
    cases hn : a.node (.compound r) r with
    | error e => rw [hn] at ht; cases ht
    | ok n => rw [h.node_eq hn]; rw [hn] at ht; exact ht
  | _ => exact ht

theorem shell?_eq (h : a.Extends b) {t : Term} {shell : String × List Term}
    (ht : a.shell? t = some shell) : b.shell? t = some shell := by
  unfold shell? at ht
  split at ht
  · next f ts hf hts =>
    rw [shell?, h.functor_eq hf, h.args_eq hts]
    exact ht
  · cases ht

theorem namedVar?_eq (h : a.Extends b) {t : Term} {v : String × VarType}
    (ht : a.namedVar? t = some v) : b.namedVar? t = some v := by
  cases t with
  | var r =>
    simp only [namedVar?] at ht ⊢
    cases hn : a.node? r with
    | none => rw [hn] at ht; cases ht
    | some n => rw [h.node?_eq hn]; rw [hn] at ht; exact ht
  | _ => cases ht

theorem payloadValue?_eq (h : a.Extends b) {t : Term} {v : V}
    (ht : a.payloadValue? t = some v) : b.payloadValue? t = some v := by
  cases t with
  | payload r =>
    simp only [payloadValue?] at ht ⊢
    cases hn : a.node? r with
    | none => rw [hn] at ht; cases ht
    | some n => rw [h.node?_eq hn]; rw [hn] at ht; exact ht
  | _ => cases ht

end Extends

/-! ## Growth -/

/-- Nodes were added, and nothing else happened. -/
structure Grows (a b : Arena V) : Prop extends a.Extends b where
  indexes : ∀ place : Nat, place < a.nodes.size → b.indexes[place]? = a.indexes[place]?
  fresh : ∀ place : Nat, a.nodes.size ≤ place → place < b.nodes.size →
    b.indexes[place]? = some .unassigned
  contents : ∀ place, place < a.nodes.size → b.contents.get? place = a.contents.get? place

namespace Grows

theorem refl (a : Arena V) : a.Grows a :=
  ⟨.refl a, fun _ _ => rfl, fun _ hle hlt => absurd hlt (Nat.not_lt.mpr hle), fun _ _ => rfl⟩

theorem trans (h : a.Grows b) (k : b.Grows c) : a.Grows c := by
  refine ⟨h.toExtends.trans k.toExtends, fun p hp => ?_, fun p hle hlt => ?_, fun p hp => ?_⟩
  · have := h.size_le
    rw [k.indexes p (by omega), h.indexes p hp]
  · rcases Nat.lt_or_ge p b.nodes.size with hb | hb
    · rw [k.indexes p hb, h.fresh p hle hb]
    · exact k.fresh p hb hlt
  · have := h.size_le
    rw [k.contents p (by omega), h.contents p hp]

/-- The place of a node that was not there before. -/
theorem index_of_le (h : a.Grows b) {t : Term} {r : Reference} (hle : a.nodes.size ≤ r.id)
    (ht : t = .var r ∨ t = .compound r) {i : Index} (hi : b.index t = .ok i)
    (hsize : b.indexes.size = b.nodes.size) : i = .unassigned := by
  have hread : b.indexes[r.id]?.getD .unassigned = i := by
    rcases ht with rfl | rfl <;>
    · simp only [index, bind, Except.bind] at hi
      split at hi
      · cases hi
      · exact Except.ok.inj hi
  rcases Nat.lt_or_ge r.id b.nodes.size with hlt | hge
  · rw [h.fresh r.id hle hlt] at hread
    exact hread.symm
  · rw [Array.getElem?_eq_none (by omega)] at hread
    exact hread.symm

end Grows

/-! ## Reindexing -/

/-- The arena with other indexes. -/
def reindexed (a : Arena V) (indexes : Array Index) : Arena V := { a with indexes }

section Reindexed

variable (a : Arena V) (ix : Array Index)

@[simp] theorem reindexed_id : (a.reindexed ix).id = a.id := rfl

@[simp] theorem reindexed_nodes : (a.reindexed ix).nodes = a.nodes := rfl

@[simp] theorem reindexed_indexes : (a.reindexed ix).indexes = ix := rfl

@[simp] theorem reindexed_contents : (a.reindexed ix).contents = a.contents := rfl

theorem extends_reindexed : a.Extends (a.reindexed ix) := ⟨rfl, fun _ _ h => h, fun _ _ h => h⟩

end Reindexed

end Arena

end TermGraph
