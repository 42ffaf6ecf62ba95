import TermGraph.Proofs.Effects
import TermGraph.Proofs.Numbering

/-!
# Partial numbering — some indexes are there already

Numbering may begin on a graph of which any part is numbered, from any
place, and with any sharing between the part that is numbered and the part
that is not. An index that is there decides two things. A term that has
one is left alone, and what is under it can be reached only around it.

`Arena.Reaches` says what is visited without a word about the order: the
end of every chain of arguments on which nothing has an index.
`Arena.pending` is the same as a list, arguments before the term. The
index table of the whole arena changes at the places of that list, and
nowhere else; so no index that was set is lost, whether it stands under
the term or not.

## What is proved

`Session.Reachable.number_pending` — on every term of every copy that a
host can reach, with whatever indexes there are, numbering from any place
succeeds. What is pending is numbered in the order in which it is met, the
rest of the arena is as it was, and a second call changes nothing.
-/

namespace TermGraph

namespace Arena

variable {V : Type} {u : Use} {a b : Arena V} {t x : Term} {start free : Nat}

/-! ## What is reached -/

/-- Numbering comes from the first term to the second one: along arguments,
and nothing on the way has an index. -/
inductive Reaches (a : Arena V) : Term → Term → Prop
  | here {t : Term} (h : a.skips t = false) : Reaches a t t
  | arg {t arg x : Term} (h : a.skips t = false) (harg : arg ∈ a.argsOrNone t)
    (hx : Reaches a arg x) : Reaches a t x

/-- What is reached has no index. -/
theorem Reaches.skips_eq (h : a.Reaches t x) : a.skips x = false := by
  induction h with
  | here h => exact h
  | arg _ _ _ ih => exact ih

theorem Reaches.under (h : a.Reaches t x) : a.Under t x := by
  induction h with
  | here _ => exact .refl a _
  | arg _ harg _ ih => exact ih.arg harg

/-- What is reached is what is pending. -/
theorem WellFormed.mem_pending (wf : a.WellFormed u) (ht : a.Holds u t) :
    x ∈ a.pending t ↔ a.Reaches t x := by
  constructor
  · refine wf.inductionUnder (P := fun t => x ∈ a.pending t → a.Reaches t x) ?_ ht
    intro t _ ih hx
    rw [wf.pending_eq] at hx
    split at hx
    · cases hx
    · next hskip =>
      have hskip := Bool.eq_false_iff.mpr hskip
      rcases List.mem_append.mp hx with hx | hx
      · obtain ⟨arg, harg, hx⟩ := List.mem_flatMap.mp hx
        exact .arg hskip harg (ih arg harg hx)
      · rw [List.mem_singleton.mp hx]
        exact .here hskip
  · intro h
    clear ht
    induction h with
    | here h =>
      rw [wf.pending_eq, h, if_neg Bool.false_ne_true]
      exact List.mem_append_right _ (List.mem_singleton_self _)
    | arg h harg _ ih =>
      rw [wf.pending_eq, h, if_neg Bool.false_ne_true]
      exact List.mem_append_left _ (List.mem_flatMap.mpr ⟨_, harg, ih⟩)

/-! ## What has an index -/

/-- What has an index resolves. -/
theorem holds_of_hasIndex (h : a.hasIndex t = true) : a.Holds .free t := by
  intro r hr
  cases hn : a.node? r with
  | some n => exact ⟨n, rfl, fun hu => by cases hu⟩
  | none =>
    have hfail : a.node t r = .error (.foreignTerm t) := by rw [node, hn]
    cases t with
    | var _ | compound _ | payload _ =>
      cases hr
      simp only [hasIndex, index, hfail, bind, Except.bind] at h
      cases h
    | _ => cases hr

/-- A term that needs no number is left alone, with the whole arena. -/
theorem number_eq_start (ht : a.Holds u t) (h : t.hasSlot = true → a.hasIndex t = true) :
    number t start a = .ok start a := by
  obtain ⟨i, hi⟩ := ht.index
  rw [number_eq]
  unfold numberStep
  rw [bind_of_ok (look_of_ok (f := (·.index t)) hi)]
  by_cases hassigned : i.isAssigned = true
  · rw [if_pos hassigned]
    rfl
  · rw [if_neg hassigned]
    have hslot : t.hasSlot ≠ true := by
      intro hslot
      have hindex := h hslot
      rw [hasIndex, hi] at hindex
      exact hassigned hindex
    cases t with
    | var _ | compound _ => exact absurd rfl hslot
    | _ => rfl

/-! ## What is pending is numbered -/

/-- What it is to number a term from `start` on: `free` is the next free
place, and the arena was `a` and is `b`. -/
structure NumbersPending (a : Arena V) (t : Term) (start free : Nat) (b : Arena V) : Prop where
  /-- What is pending is what no index stands in the way of. -/
  visits : ∀ x, x ∈ a.pending t ↔ a.Reaches t x
  /-- The variables among it get the places from `start` on, each once and
  in the order in which they are met. -/
  places : ∀ (j : Nat) (x : Term), (distinctVars (a.pending t))[j]? = some x →
    b.index x = .ok (.assigned (start + j))
  /-- A compound term gets the count that was reached when it first ended. -/
  counts : ∀ r, .compound r ∈ a.pending t →
    b.index (.compound r) = .ok (.assigned (start + placeIn (a.pending t) (.compound r)))
  /-- Nothing but the index table changes, and it changes only there. -/
  elsewhere : ReindexedAt
    (fun place => ∃ x ∈ a.pending t, x.hasSlot = true ∧ x.ref? = some ⟨a.id, place⟩) a b
  /-- An index that was set stays what it was. -/
  kept : ∀ x, a.hasIndex x = true → b.index x = a.index x
  free_eq : free = start + (distinctVars (a.pending t)).length
  /-- Nothing is left for a second call. -/
  again : ∀ start', number t start' b = .ok start' b

/-- A handle of a place that is reached has no index. -/
theorem WellFormed.hasIndex_eq_false_of_reached (wf : a.WellFormed u) (ht : a.Holds u t)
    (hx : a.Reaches t x) (hslot : x.hasSlot = true) {y : Term} (href : y.ref? = x.ref?) :
    a.hasIndex y = false := by
  have hskip := hx.skips_eq
  rw [skips, hslot, Bool.true_and] at hskip
  cases hr : x.ref? with
  | none =>
    cases x with
    | var _ | compound _ => cases hr
    | _ => cases hslot
  | some r =>
    obtain ⟨n, hn, -⟩ := wf.holds_under ht hx.under r hr
    rw [hasIndex, index_of_node hr hn] at hskip
    rw [hasIndex, index_of_node (href.trans hr) hn]
    exact hskip

/-- THE EFFECT OF NUMBERING ON ANY INDEXES. -/
theorem Numbered.numbersPending (h : Numbered a start (a.pending t) free b)
    (wf : a.WellFormed .documented) (ht : a.Holds .documented t) :
    NumbersPending a t start free b := by
  have hheld {x : Term} (hx : x ∈ a.pending t) : a.Holds .documented x :=
    wf.holds_under ht ((wf.mem_pending ht).mp hx).under
  have hindex {x : Term} (hx : x ∈ a.pending t) (hslot : x.hasSlot = true) :
      b.index x = .ok (.assigned (start + placeIn (a.pending t) x)) := by
    rw [h.marks.index x (hheld hx), numbered, if_pos ⟨hx, hslot⟩]
  have helsewhere : ReindexedAt
      (fun place => ∃ x ∈ a.pending t, x.hasSlot = true ∧ x.ref? = some ⟨a.id, place⟩) a b := by
    refine h.marks.reindexedAt wf h.wf fun x place hr hnot => ?_
    rw [numbered, if_neg]
    rintro ⟨hx, hslot⟩
    exact hnot ⟨x, hx, hslot, hr⟩
  have hkept (x : Term) (hx : a.hasIndex x = true) : b.index x = a.index x := by
    have hres := holds_of_hasIndex hx
    have htouches : Touches _ nowhere a b := helsewhere.touches
    refine htouches.index_eq hres fun r hr => ?_
    rintro ⟨y, hy, hslot, hr'⟩
    have href : x.ref? = y.ref? := by rw [hr, hr', ← (hres.place_lt hr).1]
    have hnone := wf.hasIndex_eq_false_of_reached ht ((wf.mem_pending ht).mp hy) hslot href
    rw [hx] at hnone
    cases hnone
  refine ⟨fun x => wf.mem_pending ht, fun j x hx => ?_, fun r hr => hindex hr rfl, helsewhere,
    hkept, h.free_eq, fun start' => ?_⟩
  · obtain ⟨hmem, hvar⟩ := mem_distinctVars.mp (List.mem_of_getElem? hx)
    rw [hindex hmem (Term.hasSlot_of_isNamedVar hvar), placeIn_of_getElem? hx]
  · refine number_eq_start (h.marks.holds_iff.mpr ht) fun hslot => ?_
    rw [h.hasIndex_eq ht]
    split
    · rfl
    · next hnot =>
      have hskip : a.skips t = true := by
        by_contra hskip
        refine hnot ⟨(wf.mem_pending ht).mpr (.here (Bool.eq_false_iff.mpr hskip)), hslot⟩
      exact (Bool.and_eq_true_iff.mp hskip).2

end Arena

/-- NUMBERING NUMBERS WHAT IS PENDING, AND NOTHING ELSE. On every term of
every copy that a host can reach it succeeds, from any place and whatever
indexes there are. -/
theorem Session.Reachable.number_pending {V : Type} {s : Session V}
    (hs : s.Reachable .documented) {c : Copy V} (hc : c ∈ s.copies) {t : Term} (ht : c.Owns t)
    (start : Nat) :
    ∃ free b, Arena.number t start c.arena = .ok free b ∧
      Arena.NumbersPending c.arena t start free b := by
  have wf := (hs.inOrder c hc).1
  have hheld := (hs.inOrder c hc).holds ht
  -- Nothing is done yet, so what is pending is all that is listed in the end.
  obtain ⟨free, b, hok, h⟩ := (Arena.number_ok wf t hheld (.refl wf start)
    fun _ hs => by cases hs).exists_ok
  rw [List.nil_append] at h
  exact ⟨free, b, hok, h.numbersPending wf hheld⟩

/-- The sample after its first argument was numbered from 7. -/
def Copy.halfNumbered : Copy Scalar := Copy.sample.after {} (.number (.compound ⟨⟨0⟩, 2⟩) 7)

theorem Session.reachable_halfNumbered :
    Session.Reachable .documented ⟨[Copy.halfNumbered], {}⟩ := by
  have hsample : Session.Reachable .documented ⟨[] ++ Copy.sample :: [], {}⟩ := reachable_sample
  exact hsample.afterAll [.number (.compound ⟨⟨0⟩, 2⟩) 7] (by decide +kernel)

/-- A term of which one argument has indexes and the other has none. -/
theorem Session.number_pending_sample :
    ∃ free b, Arena.number Term.sample 3 Copy.halfNumbered.arena = .ok free b ∧
      Arena.NumbersPending Copy.halfNumbered.arena Term.sample 3 free b :=
  Session.Reachable.number_pending reachable_halfNumbered (List.mem_singleton_self _)
    (by decide +kernel) 3

/-- Only the second variable is pending there. -/
example : distinctVars (Copy.halfNumbered.arena.pending Term.sample) = [.var ⟨⟨0⟩, 1⟩] := by
  decide +kernel

end TermGraph
