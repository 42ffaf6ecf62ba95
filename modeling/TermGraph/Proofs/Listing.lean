import TermGraph.Proofs.Effects
import TermGraph.Proofs.Postorder

/-!
# Listing — what collection answers, and what it leaves

Collection is one walk with two results. It answers a list of terms, and it
leaves an index table. The two are described apart, and neither description
mentions the walk.

`ListsBelow` describes the list by positions: there is an entry for every
position but the root's, in post-order of the positions, and the entry is
what stands there. A handle that stands at several positions is listed
several times.

`Unindexed` describes the table by places: no index is left at the places of
the variables and compound nodes under the term, every other place is as it
was, and so are all other tables. A place is cleared once for each position
of its handle, and the table shows no difference.

The two descriptions leave no choice: `WellFormed.listsBelow_iff` and
`Unindexed.unique`. So the arena that is left does not depend on the pool
that was given.

## What is proved

`Session.Reachable.collection_exact` — on every term of every copy that a
host can reach under documented use, collection succeeds, and both
descriptions hold.
-/

namespace TermGraph

namespace Arena

variable {V : Type} {u : Use} {a b c : Arena V} {t x : Term}

/-! ## The list -/

/-- The list has an entry for each position below the term: all of them, in
post-order. -/
structure ListsBelow (a : Arena V) (t : Term) (places : List (List Nat)) (ts : List Term) :
    Prop where
  sorted : places.Pairwise Earlier
  complete : ∀ place, place ∈ places ↔ place ≠ [] ∧ ∃ x, a.at? t place = some x
  entries : ts.map some = places.map (a.at? t)

/-- The listing without its last entry is such a list. -/
theorem WellFormed.listsBelow (wf : a.WellFormed u) (t : Term) :
    a.ListsBelow t (a.placesBelow (fun _ => true) t) ((a.argsOrNone t).flatMap a.listing) where
  sorted := earlier_placesBelow fun arg _ => wf.earlier_placesWhere _ arg
  complete place := by simp only [wf.mem_placesBelow_iff, and_true]
  entries := by rw [map_placesBelow fun arg _ => wf.map_placesWhere _ arg, List.filter_true]

/-- And there is no other one. -/
theorem WellFormed.listsBelow_iff (wf : a.WellFormed u) {ts : List Term} :
    (∃ places, a.ListsBelow t places ts) ↔ ts = (a.argsOrNone t).flatMap a.listing := by
  have hlisted := wf.listsBelow t
  constructor
  · rintro ⟨places, h⟩
    have hplaces : places = a.placesBelow (fun _ => true) t := by
      apply eq_of_pairwise_earlier h.sorted hlisted.sorted
      intro place
      rw [h.complete, hlisted.complete]
    apply (List.map_inj_right fun _ _ => Option.some.inj).mp
    rw [h.entries, hlisted.entries, hplaces]
  · rintro rfl
    exact ⟨_, hlisted⟩

/-! ## The table -/

/-- The arena `b` is the arena `a` without the indexes of the variables and
compound nodes under the term. -/
structure Unindexed (a : Arena V) (t : Term) (b : Arena V) : Prop where
  /-- Nothing but the index table changes, and it changes only there. -/
  elsewhere : ReindexedAt (a.SlotUnder t) a b
  /-- No index is left there. -/
  cleared : ∀ place, a.SlotUnder t place → b.indexes[place]? = some .unassigned
  /-- So no variable and no compound term reads one. The anonymous variable,
  which is no node, has a mark of its own. -/
  reads : ∀ x, a.Under t x → x.isVar = true ∨ x.isCompound = true → x ≠ .anon →
    b.index x = .ok .unassigned
  /-- All other terms read the index that they had. -/
  kept : ∀ x, a.Holds .documented x → ¬(a.Under t x ∧ x.hasSlot = true) → b.index x = a.index x

/-- One arena is so described. -/
theorem Unindexed.unique (h : a.Unindexed t b) (k : a.Unindexed t c) : b = c := by
  have htable : b.indexes = c.indexes := by
    apply Array.ext_getElem?
    intro place
    by_cases hplace : a.SlotUnder t place
    · rw [h.cleared place hplace, k.cleared place hplace]
    · rw [h.elsewhere.elsewhere place hplace, k.elsewhere.elsewhere place hplace]
  rw [h.elsewhere.tables, k.elsewhere.tables, htable]

section Unmarked

variable (h : a.Marks (unmark (a.listing t)) b) (wf : a.WellFormed .documented)
  (wf' : b.WellFormed .documented) (ht : a.Holds .documented t)

include h wf ht

/-- What is unmarked with the listing and stands under the term reads no
index. -/
theorem Marks.index_under (hx : a.Under t x) (hslot : x.hasSlot = true) :
    b.index x = .ok .unassigned :=
  h.index_unmark (wf.holds_under ht hx) ((wf.under_iff ht).mp hx) hslot

include wf'

/-- WHAT UNMARKS THE LISTING TAKES THE INDEXES AWAY under the term. -/
theorem Marks.unindexed : a.Unindexed t b where
  elsewhere := by
    refine h.reindexedAt wf wf' fun x place hr hnot => ?_
    rw [unmark, if_neg]
    rintro ⟨hmem, hslot⟩
    exact hnot ⟨x, (wf.under_iff ht).mpr hmem, hslot, hr⟩
  cleared place hplace := by
    obtain ⟨x, hx, hslot, hr⟩ := hplace
    have hheld := h.holds_iff.mpr (wf.holds_under ht hx)
    exact (wf'.index_eq_ok_iff hheld hr).mp (h.index_under wf ht hx hslot)
  reads x hx hkind hanon := by
    cases x with
    | var r | compound r => exact h.index_under wf ht hx rfl
    | anon => exact absurd rfl hanon
    | whole | control _ => rfl
    | _ => rcases hkind with hkind | hkind <;> cases hkind
  kept x hx hnot := by
    rw [h.index x hx, unmark, if_neg]
    rintro ⟨hmem, hslot⟩
    exact hnot ⟨(wf.under_iff ht).mpr hmem, hslot⟩

end Unmarked

/-! ## Both -/

/-- Beside any pool the same arena is left, and the listing is appended. -/
theorem WellFormed.collectInto_of_unindexed (wf : a.WellFormed .documented)
    (ht : a.Holds .documented t) (h : a.Unindexed t b) (pool : Pool) :
    collectInto t ⟨a, pool⟩ = .ok () ⟨b, pool ++ (a.listing t).toArray⟩ := by
  obtain ⟨⟨⟩, ⟨c, carried⟩, hok, wfc, hmarks, hcarried⟩ := (collectInto_ok t pool wf ht).exists_ok
  have hc : c = b := (hmarks.unindexed wf wfc ht).unique h
  rw [hok, hc, show carried = _ from hcarried]

end Arena

/-- COLLECTION IS EXACT. On every term of every copy that a host can reach
under documented use it succeeds. It answers what stands below the term, one
entry for each position, in post-order; to a pool, whatever it holds, it
appends the same and then the term. It takes away the indexes of the
variables and compound nodes under the term, and does nothing else. -/
theorem Session.Reachable.collection_exact {V : Type} {s : Session V}
    (hs : s.Reachable .documented) {c : Copy V} (hc : c ∈ s.copies) {t : Term} (ht : c.Owns t) :
    ∃ collected b, Arena.collect t c.arena = .ok collected b ∧
      (∀ pool, Arena.collectInto t ⟨c.arena, pool⟩ = .ok () ⟨b, pool ++ collected.push t⟩) ∧
      (∃ places, c.arena.ListsBelow t places collected.toList) ∧ c.arena.Unindexed t b := by
  have wf := (hs.inOrder c hc).1
  have hheld := (hs.inOrder c hc).holds ht
  obtain ⟨collected, b, hok, wfb, hmarks, rfl⟩ := (Arena.collect_ok wf hheld).exists_ok
  have hunindexed := hmarks.unindexed wf wfb hheld
  refine ⟨_, b, hok, fun pool => ?_, wf.listsBelow_iff.mpr rfl, hunindexed⟩
  rw [wf.collectInto_of_unindexed hheld hunindexed, wf.listing_eq, List.push_toArray]

/-- The operations that build `h(f(g(X, 0.0), g(X, -0.0)), g(X, 0.0), _)` over
the sample, and number it from 7 on. -/
def Operation.overSample : List (Operation Scalar) :=
  [.compound "h" [.sample, .compound ⟨⟨0⟩, 2⟩, .anon], .number (.compound ⟨⟨0⟩, 5⟩) 7]

/-- The copy in which it was built. -/
def Copy.overSample : Copy Scalar := (Copy.sample.afterAll {} Operation.overSample).1

/-- The handle of what was built. -/
def Term.overSample : Term := .compound ⟨⟨0⟩, 5⟩

theorem Session.reachable_overSample :
    Session.Reachable .documented ⟨[Copy.overSample], {}⟩ := by
  have hsample : Session.Reachable .documented ⟨[] ++ Copy.sample :: [], {}⟩ := reachable_sample
  exact hsample.afterAll Operation.overSample (by decide +kernel)

/-- A term with numbers, in which one handle stands at two positions. -/
theorem Session.collection_exact_sample :
    ∃ collected b, Arena.collect Term.overSample Copy.overSample.arena = .ok collected b ∧
      (∀ pool, Arena.collectInto Term.overSample ⟨Copy.overSample.arena, pool⟩ =
        .ok () ⟨b, pool ++ collected.push Term.overSample⟩) ∧
      (∃ places, Copy.overSample.arena.ListsBelow Term.overSample places collected.toList) ∧
      Copy.overSample.arena.Unindexed Term.overSample b :=
  Session.Reachable.collection_exact reachable_overSample (List.mem_singleton_self _)
    (by decide +kernel)

/-- What is collected there, and whether the second variable has an index
before and after. -/
example :
    (match Arena.collect Term.overSample Copy.overSample.arena with
      | .ok collected b => (collected.toList, Copy.overSample.arena.hasIndex (.var ⟨⟨0⟩, 1⟩),
          b.hasIndex (.var ⟨⟨0⟩, 1⟩))
      | .error _ _ => ([], false, false)) =
      ([.var ⟨⟨0⟩, 0⟩, .real ⟨0⟩, .compound ⟨⟨0⟩, 2⟩, .var ⟨⟨0⟩, 1⟩,
        .real ⟨0x8000000000000000⟩, .compound ⟨⟨0⟩, 3⟩, .sample, .var ⟨⟨0⟩, 0⟩, .real ⟨0⟩,
        .compound ⟨⟨0⟩, 2⟩, .anon], true, false) := by
  decide +kernel

end TermGraph
