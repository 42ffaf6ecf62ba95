import TermGraph.Arena.NormalForm
import TermGraph.Proofs.Collecting
import TermGraph.Proofs.Variables

/-!
# Numbering — what is met first gets the next place

Numbering leaves alone what has an index, with everything under it. What
it does visit is `Arena.pending`: the listing of the term, cut off at every
variable and compound term that has an index when numbering begins.

A term that is visited may be met again, and has an index then. It is in
the listing once more with everything under it, and none of that is new.
So the effect can be read off the listing alone: a variable or a compound
term gets the number of variables listed before it stands there first.

The proof carries the listing that is done. `Visited` says that it is
closed: with a term it lists what is pending under the term. This is what
makes a second visit the same as no visit.

## What is proved

`number_ok` — the exact effect of numbering from any place, on any term
that the arena holds, whatever indexes there are.
-/

namespace TermGraph

namespace Arena

variable {V : Type} {a b c : Arena V} {t s : Term} {start : Nat} {done : List Term}

/-! ## What is pending -/

/-- The term is left alone by numbering. -/
def skips (a : Arena V) (t : Term) : Bool := t.hasSlot && a.hasIndex t

/-- The listing of a term, without what is left alone. -/
def pending (a : Arena V) (t : Term) : List Term :=
  walk (fun _ => []) (fun recur t =>
    if a.skips t then [] else (a.argsOrNone t).flatMap recur ++ [t]) t

theorem WellFormed.pending_eq (wf : a.WellFormed u) (t : Term) :
    a.pending t = if a.skips t then [] else (a.argsOrNone t).flatMap a.pending ++ [t] := by
  have h := @walk_eq _ (fun _ => []) (fun recur t =>
    if a.skips t then [] else (a.argsOrNone t).flatMap recur ++ [t]) t
  rw [pending, h]
  split
  · rfl
  · congr 1
    apply List.flatMap_congr
    intro s hs
    rw [if_pos (wf.argsOrNone_sound s hs).2, pending]

/-- Where nothing has an index everything is pending. -/
theorem WellFormed.pending_eq_listing (wf : a.WellFormed u) (ht : a.Holds u t)
    (h : ∀ s, a.Under t s → a.skips s = false) : a.pending t = a.listing t := by
  revert h
  refine wf.inductionUnder (P := fun t => (∀ s, a.Under t s → a.skips s = false) →
    a.pending t = a.listing t) ?_ ht
  intro t _ ih h
  rw [wf.pending_eq, wf.listing_eq, h t (.refl a t), if_neg Bool.false_ne_true]
  congr 1
  exact List.flatMap_congr fun s hs => ih s hs fun x hx => h x (hx.arg hs)

/-- What is pending is not higher than the term. -/
theorem WellFormed.height_le_of_pending (wf : a.WellFormed u) (ht : a.Holds u t)
    (h : s ∈ a.pending t) : s.height ≤ t.height := by
  revert h
  refine wf.inductionUnder (P := fun t => s ∈ a.pending t → s.height ≤ t.height) ?_ ht
  intro t _ ih h
  rw [wf.pending_eq] at h
  split at h
  · cases h
  · rcases List.mem_append.mp h with h | h
    · obtain ⟨arg, harg, h⟩ := List.mem_flatMap.mp h
      have hle := ih arg harg h
      have hlt := (wf.argsOrNone_sound arg harg).2
      omega
    · exact Nat.le_of_eq (congrArg Term.height (List.mem_singleton.mp h))

/-- What is listed was visited: none of it is left alone, and what is
pending under it is listed too. -/
def Visited (a : Arena V) (done : List Term) : Prop :=
  ∀ s ∈ done, a.skips s = false ∧ ∀ x ∈ a.pending s, x ∈ done

theorem Visited.append {more : List Term} (h : a.Visited done) (k : a.Visited more) :
    a.Visited (done ++ more) := by
  intro s hs
  rcases List.mem_append.mp hs with hs | hs
  · exact ⟨(h s hs).1, fun x hx => List.mem_append_left _ ((h s hs).2 x hx)⟩
  · exact ⟨(k s hs).1, fun x hx => List.mem_append_right _ ((k s hs).2 x hx)⟩

theorem visited_flatMap {ts : List Term} (h : ∀ s ∈ ts, a.Visited (a.pending s)) :
    a.Visited (ts.flatMap a.pending) := by
  induction ts with
  | nil => exact fun _ hs => by cases hs
  | cons t ts ih =>
    rw [List.flatMap_cons]
    exact (h t List.mem_cons_self).append (ih fun s hs => h s (List.mem_cons_of_mem _ hs))

theorem WellFormed.visited_pending (wf : a.WellFormed u) (ht : a.Holds u t) :
    a.Visited (a.pending t) := by
  refine wf.inductionUnder (P := fun t => a.Visited (a.pending t)) ?_ ht
  intro t _ ih s hs
  have hpending := wf.pending_eq t
  by_cases hskip : a.skips t = true
  · rw [hpending, if_pos hskip] at hs
    cases hs
  · rw [if_neg hskip] at hpending
    rw [hpending] at hs
    rcases List.mem_append.mp hs with hs' | hs'
    · have hvisited := visited_flatMap ih s hs'
      refine ⟨hvisited.1, fun x hx => ?_⟩
      rw [hpending]
      exact List.mem_append_left _ (hvisited.2 x hx)
    · rw [List.mem_singleton.mp hs']
      exact ⟨Bool.eq_false_iff.mpr hskip, fun _ hx => hx⟩

/-! ## The marks of numbering -/

/-- The marks of numbering from a place: on what is listed, the number of
variables listed before. -/
def numbered (start : Nat) (done : List Term) (s : Term) : Option Index :=
  if s ∈ done ∧ s.hasSlot = true then some (.assigned (start + placeIn done s)) else none

/-- What is listed again changes no mark. -/
theorem numbered_append_of_subset {more : List Term} (h : ∀ x ∈ more, x ∈ done) (s : Term) :
    numbered start (done ++ more) s = numbered start done s := by
  unfold numbered
  by_cases hs : s ∈ done
  · rw [placeIn_append hs]
    simp [hs]
  · have hnot : s ∉ more := fun hmem => hs (h s hmem)
    simp [hs, hnot]

/-- A new term is marked with the number of variables so far. -/
theorem numbered_concat (ht : t ∉ done) (s : Term) :
    numbered start (done ++ [t]) s =
      (if s = t ∧ t.hasSlot = true then some (.assigned (start + (distinctVars done).length))
        else none).or (numbered start done s) := by
  unfold numbered
  by_cases hst : s = t
  · subst hst
    have hplace : placeIn (done ++ [s]) s = (distinctVars done).length :=
      placeIn_of_first ht
    by_cases hslot : s.hasSlot = true
    · simp [hslot, hplace]
    · simp [hslot]
  · by_cases hs : s ∈ done
    · rw [placeIn_append hs]
      simp [hs, hst]
    · simp [hs, hst]

/-! ## Numbering -/

/-- What numbering has done when the list is done. -/
structure Numbered (a : Arena V) (start : Nat) (done : List Term) (free : Nat) (b : Arena V) :
    Prop where
  wf : b.WellFormed .documented
  marks : a.Marks (numbered start done) b
  free_eq : free = start + (distinctVars done).length

/-- A term that is listed has an index, and one that is not listed has the
index it had. -/
theorem Numbered.hasIndex_eq {free : Nat} (h : Numbered a start done free b)
    (ht : a.Holds .documented t) :
    b.hasIndex t = if t ∈ done ∧ t.hasSlot = true then true else a.hasIndex t := by
  rw [hasIndex, h.marks.index t ht, numbered, hasIndex]
  by_cases hmem : t ∈ done ∧ t.hasSlot = true
  · rw [if_pos hmem, if_pos hmem]
    rfl
  · rw [if_neg hmem, if_neg hmem]

/-- What was visited is not visited again. -/
theorem Numbered.again {free : Nat} {more : List Term} (h : Numbered a start done free b)
    (hmore : ∀ x ∈ more, x ∈ done) : Numbered a start (done ++ more) free b := by
  refine ⟨h.wf, h.marks.congr fun s _ => (numbered_append_of_subset hmore s).symm, ?_⟩
  rw [distinctVars_append_of_subset hmore]
  exact h.free_eq

/-- Setting the index of a term that was not visited. -/
theorem Numbered.setIndex {free : Nat} (h : Numbered a start done free b)
    (ht : a.Holds .documented t) (hnew : t ∉ done) :
    Numbered a start (done ++ [t]) (if t.isNamedVar then free + 1 else free)
      (b.reindexed (b.indexesWith t (.assigned free))) := by
  have hb := h.marks.holds_iff.mpr ht
  refine ⟨h.wf.setIndex hb.permits _, ?_, ?_⟩
  · apply (h.marks.trans (marks_setIndex h.wf hb (.assigned free))).congr
    intro s _
    rw [numbered_concat hnew, h.free_eq]
  · rw [distinctVars_concat, h.free_eq]
    by_cases hvar : t.isNamedVar = true
    · simp [hvar, hnew, Nat.add_assoc]
    · simp [hvar]

/-- A term without a slot is listed, and nothing happens to it. -/
theorem WellFormed.pending_of_not_slot (wf : a.WellFormed .documented)
    (ht : a.Holds .documented t) (hslot : ¬t.hasSlot = true) : a.pending t = [t] := by
  rw [wf.pending_eq, skips, if_neg (by simp [hslot])]
  rcases wf.cases_holds ht with ⟨r, name, type, rfl, -⟩ | ⟨r, f, ts, rfl, -⟩ | hl
  · exact absurd rfl hslot
  · exact absurd rfl hslot
  · rw [argsOrNone_of_isLeaf hl]
    rfl

theorem Numbered.keep {free : Nat} (h : Numbered a start done free b)
    (hslot : ¬t.hasSlot = true) : Numbered a start (done ++ [t]) free b := by
  refine ⟨h.wf, h.marks.congr fun s _ => ?_, ?_⟩
  · unfold numbered
    by_cases hs : s ∈ done
    · rw [placeIn_append hs]
      simp [hs]
    · by_cases hst : s = t
      · simp [hst, hslot]
      · simp [hs, hst]
  · rw [distinctVars_concat, if_neg, h.free_eq]
    intro hand
    cases t with
    | var _ => exact hslot rfl
    | _ => cases hand.1

/-- One argument after another: what was pending under each of them is
visited in the end. -/
theorem Numbered.args (wf : a.WellFormed .documented) {ts : List Term}
    (held : ∀ s ∈ ts, a.Holds .documented s) {recur : Term → Nat → BuildM V Nat}
    (hrec : ∀ s ∈ ts, ∀ {done free b}, Numbered a start done free b → a.Visited done →
      Ensures (recur s free) b (fun n c => Numbered a start (done ++ a.pending s) n c)
        (fun _ => False))
    {free : Nat} (h : Numbered a start done free b) (hvisited : a.Visited done) :
    Ensures (ts.foldlM (fun free s => recur s free) free) b
      (fun n c => Numbered a start (done ++ ts.flatMap a.pending) n c) (fun _ => False) := by
  refine (Ensures.foldlM (I := fun args n c =>
    Numbered a start (done ++ args.flatMap a.pending) n c ∧
      a.Visited (done ++ args.flatMap a.pending)) ts ?_ ?_).mono (fun _ _ hn => hn.1) fun _ h => h
  · rintro args s ⟨rest, hsplit⟩ n c ⟨hn, hvisited'⟩
    have hs : s ∈ ts := by
      rw [hsplit]
      exact List.mem_append_right _ List.mem_cons_self
    refine (hrec s hs hn hvisited').mono ?_ fun _ h => h
    intro m d hm
    rw [List.flatMap_append, List.flatMap_singleton, ← List.append_assoc]
    exact ⟨hm, hvisited'.append (wf.visited_pending (held s hs))⟩
  · rw [List.flatMap_nil, List.append_nil]
    exact ⟨h, hvisited⟩

/-- What is pending under an argument is lower than the term. -/
theorem WellFormed.not_mem_pending_args (wf : a.WellFormed u) {ts : List Term}
    (hargs : a.args t = .ok ts) : t ∉ ts.flatMap a.pending := by
  intro hmem
  obtain ⟨arg, harg, hmem⟩ := List.mem_flatMap.mp hmem
  obtain ⟨hheld, hlt⟩ := wf.args_sound hargs arg harg
  have hle := wf.height_le_of_pending hheld hmem
  omega

/-- THE EFFECT OF NUMBERING. It succeeds, visits what is pending, and
answers the next free place. -/
theorem number_ok (wf : a.WellFormed .documented) (t : Term) :
    ∀ {b : Arena V} {done : List Term} {free : Nat}, a.Holds .documented t →
      Numbered a start done free b → a.Visited done →
      Ensures (number t free) b
        (fun n c => Numbered a start (done ++ a.pending t) n c) (fun _ => False) := by
  induction t using Term.byHeight with
  | step t ih =>
    intro b done free ht h hvisited
    obtain ⟨i, hi⟩ := (h.marks.holds_iff.mpr ht).index
    have hindex : i.isAssigned = if t ∈ done ∧ t.hasSlot = true then true else a.hasIndex t := by
      rw [← h.hasIndex_eq ht, hasIndex, hi]
    rw [number_eq]
    unfold numberStep
    apply Ensures.bind_ok (look_of_ok (f := (·.index t)) hi)
    by_cases hslot : t.hasSlot = true
    · by_cases hdone : t ∈ done
      · rw [if_pos ⟨hdone, hslot⟩] at hindex
        rw [if_pos hindex]
        exact Ensures.answer (h.again (hvisited t hdone).2)
      rw [if_neg fun hand => hdone hand.1] at hindex
      by_cases hskip : a.hasIndex t = true
      · have hnone : a.pending t = [] := by
          rw [wf.pending_eq, skips, hslot, hskip, Bool.and_self, if_pos rfl]
        rw [if_pos (hindex.trans hskip), hnone, List.append_nil]
        exact Ensures.answer h
      rw [if_neg (by rw [hindex]; exact hskip)]
      have hpending : a.pending t = (a.argsOrNone t).flatMap a.pending ++ [t] := by
        rw [wf.pending_eq, skips, if_neg (by simp [hskip])]
      rw [hpending]
      cases t with
      | var r =>
        refine Ensures.bind_ok (setIndex_eq _ _) (Ensures.answer ?_)
        exact h.setIndex ht hdone
      | compound r =>
        obtain ⟨f, ts, signature, -, hargs, -⟩ := wf.shell ht
        have hlow := wf.args_sound hargs
        rw [argsOrNone_eq hargs]
        refine Ensures.bind_ok
          (look_of_ok (f := (·.args (.compound r))) (h.marks.args_eq.trans hargs)) ?_
        refine Ensures.bind (Numbered.args wf (fun s hs => (hlow s hs).1) ?_ h hvisited) ?_
        · intro s hs done' free' c hn hvisited'
          rw [if_pos (hlow s hs).2]
          exact ih s (hlow s hs).2 (hlow s hs).1 hn hvisited'
        · intro n c hn
          have hnew : Term.compound r ∉ done ++ ts.flatMap a.pending := fun hmem =>
            (List.mem_append.mp hmem).elim hdone (wf.not_mem_pending_args hargs)
          refine Ensures.bind_ok (setIndex_eq _ _) (Ensures.answer ?_)
          rw [← List.append_assoc]
          exact hn.setIndex ht hnew
      | _ => cases hslot
    · rw [wf.pending_of_not_slot ht hslot]
      cases i.isAssigned with
      | true => exact Ensures.answer (h.keep hslot)
      | false =>
        cases t with
        | var _ | compound _ => exact absurd rfl hslot
        | _ => exact Ensures.answer (h.keep hslot)

/-- Numbering begins with nothing done. -/
theorem Numbered.refl (wf : a.WellFormed .documented) (start : Nat) :
    Numbered a start [] start a :=
  ⟨wf, (Marks.refl a).congr fun _ _ => by simp [numbered], rfl⟩

end Arena

end TermGraph
