import TermGraph.Proofs.Building
import TermGraph.Proofs.Subterms

/-!
# Collecting — every position, and no index left

Collection and numbering change the index table and nothing else. `Marks`
says what such a change did, handle by handle: which terms were given an
index, and which index. Every other term the arena holds keeps the index
it had.

Collection marks every variable and every compound term it lists as
unassigned. It lists a term once for each position, and it takes indexes
away once for each position too; the second time changes nothing.

## What is proved

`collectInto_ok` and `collect_ok` — the exact effect of collection, on a
term that the arena holds: it succeeds, the pool is extended by the
listing, and no index is left on what was listed.
-/

namespace TermGraph

/-- A term that has an index to set: a variable or a compound term. -/
def Term.hasSlot : Term → Bool
  | var _ | compound _ => true
  | _ => false

theorem Term.hasSlot_of_isNamedVar {t : Term} (h : t.isNamedVar = true) : t.hasSlot = true := by
  cases t with
  | var _ => rfl
  | _ => cases h

namespace Arena

variable {V : Type} {a b c : Arena V} {t s : Term} {mark mark' : Term → Option Index}

/-! ## Marking -/

/-- The second arena is the first one with new indexes on the terms that
`mark` names. -/
structure Marks (a : Arena V) (mark : Term → Option Index) (b : Arena V) : Prop where
  tables : b = a.reindexed b.indexes
  index : ∀ s, a.Holds .documented s → b.index s =
    match mark s with
    | some i => .ok i
    | none => a.index s

namespace Marks

theorem refl (a : Arena V) : a.Marks (fun _ => none) a := ⟨rfl, fun _ _ => rfl⟩

theorem toExtends (h : a.Marks mark b) : a.Extends b := by
  rw [h.tables]
  exact extends_reindexed a _

/-- A reader that does not look at indexes answers as before. -/
theorem holds_iff (h : a.Marks mark b) : b.Holds .documented s ↔ a.Holds .documented s := by
  rw [h.tables]
  exact holds_reindexed

theorem listing_eq (h : a.Marks mark b) : b.listing s = a.listing s := by
  rw [h.tables]
  rfl

theorem args_eq (h : a.Marks mark b) : b.args s = a.args s := by
  rw [h.tables]
  rfl

theorem argsOrNone_eq (h : a.Marks mark b) : b.argsOrNone s = a.argsOrNone s := by
  rw [h.tables]
  rfl

/-- One marking after another: the later mark counts. -/
theorem trans (h : a.Marks mark b) (k : b.Marks mark' c) :
    a.Marks (fun s => (mark' s).or (mark s)) c := by
  refine ⟨?_, fun s hs => ?_⟩
  · rw [k.tables, h.tables]
    rfl
  · rw [k.index s (h.holds_iff.mpr hs), h.index s hs]
    cases mark' s <;> rfl

/-- Marks that agree on what is held are one marking. -/
theorem congr (h : a.Marks mark b) (heq : ∀ s, a.Holds .documented s → mark s = mark' s) :
    a.Marks mark' b :=
  ⟨h.tables, fun s hs => by rw [← heq s hs]; exact h.index s hs⟩

end Marks

/-- Handles with a slot at one place are one handle, if the arena holds
both. -/
theorem eq_of_slot (hs : a.Holds .documented s) (ht : a.Holds .documented t) (hslot : t.hasSlot)
    {r : Reference} (hsr : s.ref? = some r) (htr : t.ref? = some r) : s = t := by
  obtain ⟨n, hn, hfit⟩ := hs r hsr
  obtain ⟨m, hm, hfit'⟩ := ht r htr
  rw [hn] at hm
  cases hm
  have hkind : s.kind = t.kind := by rw [hfit rfl, hfit' rfl]
  cases s <;> cases t <;> simp_all [Term.ref?, Term.kind, Term.hasSlot]

/-- Setting an index marks one term. -/
theorem marks_setIndex (wf : a.WellFormed .documented) (ht : a.Holds .documented t) (i : Index) :
    a.Marks (fun s => if s = t ∧ t.hasSlot = true then some i else none)
      (a.reindexed (a.indexesWith t i)) := by
  refine ⟨rfl, fun s hs => ?_⟩
  by_cases hst : s = t ∧ t.hasSlot = true
  · obtain ⟨rfl, hslot⟩ := hst
    simp only [hslot, and_self, if_true]
    cases s with
    | var r | compound r =>
      obtain ⟨n, hok, hn, -⟩ := hs.node rfl
      obtain ⟨hid, hlt⟩ := hs.place_lt rfl
      simp only [index, bind, Except.bind, pure, Except.pure, indexesWith, if_pos hid]
      rw [show (a.reindexed (a.indexes.setIfInBounds r.id i)).node _ r = .ok n from hok]
      simp [wf.indexes_size, hlt]
    | _ => cases hslot
  · rw [if_neg hst]
    have hplace (r : Reference) (hr : s.ref? = some r) (r' : Reference) (hr' : t.ref? = some r')
        (hslot : t.hasSlot = true) :
        (if r'.arena = a.id then a.indexes.setIfInBounds r'.id i else a.indexes)[r.id]? =
          a.indexes[r.id]? := by
      rw [if_pos (ht.place_lt hr').1]
      refine Array.getElem?_setIfInBounds_ne fun heq => hst ⟨?_, hslot⟩
      have hrr : r' = r := by
        have hid := (ht.place_lt hr').1
        rw [← (hs.place_lt hr).1] at hid
        cases r
        cases r'
        simp_all
      exact eq_of_slot hs ht hslot hr (hrr ▸ hr')
    have hread (r : Reference) (hr : s.ref? = some r) :
        (a.indexesWith t i)[r.id]? = a.indexes[r.id]? := by
      cases t with
      | var r' => exact hplace r hr r' rfl rfl
      | compound r' => exact hplace r hr r' rfl rfl
      | _ => rfl
    cases s with
    | var r | compound r | payload r =>
      simp only [index, reindexed_indexes, hread r rfl]
      rfl
    | _ => rfl

/-! ## Collecting -/

/-- The marks of collection: no index on anything listed. -/
def unmark (listed : List Term) (s : Term) : Option Index :=
  if s ∈ listed ∧ s.hasSlot = true then some .unassigned else none

theorem unmark_append (xs ys : List Term) (s : Term) :
    (unmark ys s).or (unmark xs s) = unmark (xs ++ ys) s := by
  unfold unmark
  by_cases hs : s.hasSlot = true
  · by_cases hx : s ∈ xs <;> by_cases hy : s ∈ ys <;> simp [hs, hx, hy]
  · simp [hs]

/-- The children of a held term are its arguments. -/
theorem WellFormed.childrenOf_eq (wf : a.WellFormed .documented) (ht : a.Holds .documented t) :
    a.childrenOf t = .ok (a.argsOrNone t) := by
  rcases wf.cases_holds ht with ⟨r, name, type, rfl, -⟩ | ⟨r, f, ts, rfl, hshell⟩ | hl
  · rfl
  · rw [argsOrNone_of_shell? hshell]
    exact args_of_shell? hshell
  · rw [argsOrNone_of_isLeaf hl]
    cases t with
    | compound _ => cases hl
    | _ => rfl

/-- Taking the index of a term away marks that term alone. -/
theorem marks_unassigned (wf : a.WellFormed .documented) (ht : a.Holds .documented t) :
    a.Marks (unmark [t]) (a.reindexed (a.indexesWith t .unassigned)) := by
  apply (marks_setIndex wf ht .unassigned).congr
  intro s _
  by_cases hst : s = t
  · simp [unmark, hst]
  · simp [unmark, hst]

/-- THE EFFECT OF COLLECTION. The listing of the term is appended to the
pool, and no index is left on what is listed. -/
theorem collectInto_ok (t : Term) :
    ∀ {a : Arena V} (pool : Pool), a.WellFormed .documented → a.Holds .documented t →
      Ensures (collectInto t) ⟨a, pool⟩
        (fun _ w => w.arena.WellFormed .documented ∧ a.Marks (unmark (a.listing t)) w.arena ∧
          w.carried = pool ++ (a.listing t).toArray)
        (fun _ => False) := by
  induction t using Term.byHeight with
  | step t ih =>
    intro a pool wf ht
    rw [collectInto_eq, collectStep]
    apply Ensures.bind_ok (WorkM.look_of_ok ht.verify)
    let b := a.reindexed (a.indexesWith t .unassigned)
    have wfb : b.WellFormed .documented := wf.setIndex ht.permits .unassigned
    have hb : a.Marks (unmark [t]) b := marks_unassigned wf ht
    have hkids : b.childrenOf t = .ok (a.argsOrNone t) := wf.childrenOf_eq ht
    refine Ensures.bind_ok (x := ()) (y := ⟨b, pool⟩) ?_ ?_
    · rw [WorkM.onArena, dropIndex, setIndex_eq]
    apply Ensures.bind_ok (WorkM.look_of_ok (f := (·.childrenOf t)) hkids)
    refine Ensures.bind (Ensures.forM (I := fun done w => w.arena.WellFormed .documented ∧
      a.Marks (unmark (t :: done.flatMap a.listing)) w.arena ∧
      w.carried = pool ++ (done.flatMap a.listing).toArray) (a.argsOrNone t) ?_
      ⟨wfb, by simpa using hb, by simp⟩) ?_
    · rintro done s ⟨rest, hsplit⟩ ⟨c, pool'⟩ ⟨wfc, hc, hpool⟩
      obtain ⟨hheld, hlt⟩ := wf.argsOrNone_sound s (by rw [hsplit]; simp)
      rw [if_pos hlt]
      refine (ih s hlt pool' wfc (hc.holds_iff.mpr hheld)).mono ?_ fun _ h => h
      intro _ w hend
      obtain ⟨wfw, hw, hpool'⟩ := hend
      rw [hc.listing_eq] at hw hpool'
      refine ⟨wfw, (hc.trans hw).congr fun x _ => ?_, ?_⟩
      · rw [unmark_append]
        simp [List.flatMap_append]
      · rw [hpool', show pool' = _ from hpool]
        simp [List.flatMap_append]
    · intro _ w hend
      obtain ⟨wfw, hw, hpool⟩ := hend
      refine ⟨wfw, hw.congr fun x _ => ?_, ?_⟩
      · rw [wf.listing_eq t]
        simp [unmark, or_comm]
      · rw [wf.listing_eq t]
        show w.carried.push t = _
        rw [hpool]
        simp

/-- Everything under a term is collected, the term itself left out. -/
theorem collect_ok (wf : a.WellFormed .documented) (ht : a.Holds .documented t) :
    Ensures (collect t) a
      (fun pool b => b.WellFormed .documented ∧ a.Marks (unmark (a.listing t)) b ∧
        pool = ((a.argsOrNone t).flatMap a.listing).toArray)
      (fun _ => False) := by
  refine Ensures.bind (Ensures.beside (P := fun x b => b.WellFormed .documented ∧
    a.Marks (unmark (a.listing t)) b ∧ x.2 = (a.listing t).toArray) ?_) ?_
  · refine (collectInto_ok t #[] wf ht).mono ?_ fun _ h => h
    intro _ w hend
    obtain ⟨wfw, hw, hpool⟩ := hend
    exact ⟨wfw, hw, by rw [hpool, Array.empty_append]⟩
  · rintro ⟨_, pool⟩ b ⟨wfb, hb, rfl⟩
    refine Ensures.answer ⟨wfb, hb, ?_⟩
    rw [wf.listing_eq]
    simp

/-- After collection nothing that was listed has an index. -/
theorem Marks.index_unmark {listed : List Term} (h : a.Marks (unmark listed) b)
    (hs : a.Holds .documented s) (hmem : s ∈ listed) (hslot : s.hasSlot = true) :
    b.index s = .ok .unassigned := by
  rw [h.index s hs, unmark, if_pos ⟨hmem, hslot⟩]

end Arena

end TermGraph
