import TermGraph.Proofs.Subterms

/-!
# Post-order — the places of the terms in a tree

A traversal visits the terms of a tree in POST-ORDER: what is below a term
before the term, and of two arguments the one on the left first. An order of
visits is an order of positions, and not of handles, because one handle may
stand at many positions and is visited at each.

`Earlier` is the order, on paths of argument numbers, and says nothing of
trees. `placesWhere` lists the positions of the terms that are wanted by
going through the tree. Collection wants all terms; a mapping visits the
compound ones, and `compoundPlaces` are their positions.

## What is proved

`WellFormed.mem_placesWhere` — these are all the positions of terms that are
wanted. `WellFormed.earlier_placesWhere` — they are listed in post-order, so
each is listed once. The two leave no choice: `WellFormed.inPostorder_iff`.
`WellFormed.map_placesWhere` — what stands at these positions is the listing
of the tree.
-/

namespace TermGraph

/-- The first position comes before the second in post-order: it is below
it, or it goes further to the left where the two part. -/
def Earlier : List Nat → List Nat → Prop
  | [], _ => False
  | _ :: _, [] => True
  | i :: p, j :: q => i < j ∨ i = j ∧ Earlier p q

namespace Earlier

theorem irrefl (p : List Nat) : ¬Earlier p p := by
  induction p with
  | nil => exact fun h => h
  | cons i p ih =>
    intro h
    rcases h with hlt | ⟨-, h⟩
    · exact Nat.lt_irrefl i hlt
    · exact ih h

theorem asymm {p q : List Nat} (h : Earlier p q) : ¬Earlier q p := by
  induction p generalizing q with
  | nil => exact h.elim
  | cons i p ih =>
    cases q with
    | nil => exact fun k => k
    | cons j q =>
      intro k
      rcases h with hlt | ⟨rfl, h⟩
      · rcases k with hlt' | ⟨heq, -⟩ <;> omega
      · rcases k with hlt | ⟨-, k⟩
        · exact Nat.lt_irrefl i hlt
        · exact ih h k

end Earlier

/-- A set of positions is listed in post-order in one way only. -/
theorem eq_of_pairwise_earlier {ps qs : List (List Nat)} (hps : ps.Pairwise Earlier)
    (hqs : qs.Pairwise Earlier) (h : ∀ p, p ∈ ps ↔ p ∈ qs) : ps = qs := by
  have hnodup {ps : List (List Nat)} (hps : ps.Pairwise Earlier) : ps.Nodup := by
    refine List.Pairwise.imp (fun {p q} hpq => ?_) hps
    rintro rfl
    exact Earlier.irrefl p hpq
  have hperm : ps.Perm qs := (List.perm_ext_iff_of_nodup (hnodup hps) (hnodup hqs)).mpr h
  exact hperm.eq_of_pairwise (fun _ _ _ _ hpq hqp => absurd hqp hpq.asymm) hps hqs

namespace Arena

variable {V : Type} {u : Use} {a : Arena V} {t : Term} {wanted : Term → Bool}

/-! ## The places of the terms that are wanted -/

/-- The positions of the terms that are wanted, each after the positions
below it. -/
def placesWhere (a : Arena V) (wanted : Term → Bool) (t : Term) : List (List Nat) :=
  walk (fun _ => []) (fun recur t =>
    ((a.argsOrNone t).zipIdx.flatMap fun arg => (recur arg.1).map (arg.2 :: ·)) ++
      if wanted t then [[]] else []) t

/-- The same without the position of the term itself. -/
def placesBelow (a : Arena V) (wanted : Term → Bool) (t : Term) : List (List Nat) :=
  (a.argsOrNone t).zipIdx.flatMap fun arg => (a.placesWhere wanted arg.1).map (arg.2 :: ·)

/-- The place of a term comes after those of its arguments. -/
theorem WellFormed.placesWhere_eq (wf : a.WellFormed u) (wanted : Term → Bool) (t : Term) :
    a.placesWhere wanted t = a.placesBelow wanted t ++ if wanted t then [[]] else [] := by
  have h := @walk_eq _ (fun _ => []) (fun recur t =>
    ((a.argsOrNone t).zipIdx.flatMap fun arg => (recur arg.1).map (arg.2 :: ·)) ++
      if wanted t then [[]] else []) t
  rw [placesWhere, h]
  congr 1
  apply List.flatMap_congr
  intro arg harg
  have hlt := (wf.argsOrNone_sound arg.1 (List.fst_mem_of_mem_zipIdx harg)).2
  show List.map _ (if arg.1.height < t.height then _ else _) = _
  rw [if_pos hlt, placesWhere]

/-- A position below a term goes on from the number of an argument. -/
theorem mem_placesBelow {place : List Nat} :
    place ∈ a.placesBelow wanted t ↔
      ∃ i rest arg, place = i :: rest ∧ (a.argsOrNone t)[i]? = some arg ∧
        rest ∈ a.placesWhere wanted arg := by
  rw [placesBelow, List.mem_flatMap]
  constructor
  · rintro ⟨⟨arg, i⟩, harg, h⟩
    obtain ⟨rest, hrest, rfl⟩ := List.mem_map.mp h
    exact ⟨i, rest, arg, rfl, List.mem_zipIdx_iff_getElem?.mp harg, hrest⟩
  · rintro ⟨i, rest, arg, rfl, harg, hrest⟩
    exact ⟨(arg, i), List.mem_zipIdx_iff_getElem?.mpr harg, List.mem_map.mpr ⟨rest, hrest, rfl⟩⟩

/-- The places of a term are those below it, and its own if it is wanted. -/
theorem WellFormed.mem_placesWhere_iff (wf : a.WellFormed u) {place : List Nat} :
    place ∈ a.placesWhere wanted t ↔
      place ∈ a.placesBelow wanted t ∨ place = [] ∧ wanted t = true := by
  rw [wf.placesWhere_eq, List.mem_append]
  refine or_congr_right ?_
  split
  · next h => rw [List.mem_singleton, and_iff_left h]
  · next h => exact iff_of_false (List.not_mem_nil) fun hplace => h hplace.2

/-- ALL POSITIONS OF TERMS THAT ARE WANTED are listed, and no others. -/
theorem WellFormed.mem_placesWhere (wf : a.WellFormed u) {place : List Nat} :
    place ∈ a.placesWhere wanted t ↔ ∃ x, a.at? t place = some x ∧ wanted x = true := by
  induction place generalizing t with
  | nil =>
    rw [wf.mem_placesWhere_iff]
    constructor
    · rintro (h | ⟨-, hwanted⟩)
      · obtain ⟨_, _, _, hnil, -⟩ := mem_placesBelow.mp h
        cases hnil
      · exact ⟨t, rfl, hwanted⟩
    · rintro ⟨x, hx, hwanted⟩
      cases hx
      exact .inr ⟨rfl, hwanted⟩
  | cons i place ih =>
    rw [wf.mem_placesWhere_iff, mem_placesBelow, at?]
    constructor
    · rintro (⟨_, _, arg, heq, harg, hrest⟩ | ⟨hnil, -⟩)
      · cases heq
        obtain ⟨x, hx, hwanted⟩ := ih.mp hrest
        exact ⟨x, by rw [harg]; exact hx, hwanted⟩
      · cases hnil
    · rintro ⟨x, hx, hwanted⟩
      obtain ⟨arg, harg, hrest⟩ := Option.bind_eq_some_iff.mp hx
      exact .inl ⟨i, place, arg, rfl, harg, ih.mpr ⟨x, hrest, hwanted⟩⟩

/-- The positions below a term are those that are not its own. -/
theorem WellFormed.mem_placesBelow_iff (wf : a.WellFormed u) {place : List Nat} :
    place ∈ a.placesBelow wanted t ↔
      place ≠ [] ∧ ∃ x, a.at? t place = some x ∧ wanted x = true := by
  rw [← wf.mem_placesWhere, wf.mem_placesWhere_iff]
  constructor
  · intro h
    refine ⟨?_, .inl h⟩
    obtain ⟨_, _, _, rfl, -⟩ := mem_placesBelow.mp h
    exact List.cons_ne_nil _ _
  · rintro ⟨hne, h | ⟨hnil, -⟩⟩
    · exact h
    · exact absurd hnil hne

/-- Arguments are numbered from left to right. -/
theorem pairwise_zipIdx (ts : List Term) : ts.zipIdx.Pairwise fun x y => x.2 < y.2 := by
  have h : (ts.zipIdx.map Prod.snd).Pairwise (· < ·) := by
    rw [List.zipIdx_map_snd]
    exact List.pairwise_lt_range' 1
  exact List.pairwise_map.mp h

/-- Below a term they are in post-order, if they are in every argument. -/
theorem earlier_placesBelow
    (h : ∀ arg ∈ a.argsOrNone t, (a.placesWhere wanted arg).Pairwise Earlier) :
    (a.placesBelow wanted t).Pairwise Earlier := by
  refine List.pairwise_flatMap.mpr ⟨?_, ?_⟩
  · intro arg harg
    apply List.pairwise_map.mpr
    exact (h arg.1 (List.fst_mem_of_mem_zipIdx harg)).imp fun h => .inr ⟨rfl, h⟩
  · refine (pairwise_zipIdx (a.argsOrNone t)).imp fun {x y} hlt p hp q hq => ?_
    obtain ⟨_, -, rfl⟩ := List.mem_map.mp hp
    obtain ⟨_, -, rfl⟩ := List.mem_map.mp hq
    exact .inl hlt

/-- THE ORDER is post-order. -/
theorem WellFormed.earlier_placesWhere (wf : a.WellFormed u) (wanted : Term → Bool) (t : Term) :
    (a.placesWhere wanted t).Pairwise Earlier := by
  induction t using Term.byHeight with
  | step t ih =>
    rw [wf.placesWhere_eq]
    apply List.pairwise_append.mpr
    refine ⟨earlier_placesBelow fun arg harg => ih arg (wf.argsOrNone_sound arg harg).2, ?_, ?_⟩
    · split
      · exact List.pairwise_singleton _ _
      · exact .nil
    · intro p hp q hq
      obtain ⟨_, _, _, rfl, -⟩ := mem_placesBelow.mp hp
      split at hq
      · rw [List.mem_singleton.mp hq]
        exact trivial
      · cases hq

/-- Below a term they hold what is listed below it, if they do in every
argument. -/
theorem map_placesBelow
    (h : ∀ arg ∈ a.argsOrNone t,
      (a.placesWhere wanted arg).map (a.at? arg) = ((a.listing arg).filter wanted).map some) :
    (a.placesBelow wanted t).map (a.at? t) =
      (((a.argsOrNone t).flatMap a.listing).filter wanted).map some := by
  let listed (arg : Term) : List (Option Term) := ((a.listing arg).filter wanted).map some
  calc (a.placesBelow wanted t).map (a.at? t)
      = (a.argsOrNone t).zipIdx.flatMap fun arg => listed arg.1 := by
        rw [placesBelow, List.map_flatMap]
        apply List.flatMap_congr
        intro arg harg
        have hplace : (a.argsOrNone t)[arg.2]? = some arg.1 :=
          List.mem_zipIdx_iff_getElem?.mp harg
        show _ = ((a.listing arg.1).filter wanted).map some
        rw [← h arg.1 (List.fst_mem_of_mem_zipIdx harg), List.map_map]
        apply List.map_congr_left
        intro rest _
        simp only [Function.comp_apply, at?, hplace, Option.bind_some]
    _ = ((a.argsOrNone t).zipIdx.map Prod.fst).flatMap listed := by
        rw [List.flatMap_map]
    _ = (((a.argsOrNone t).flatMap a.listing).filter wanted).map some := by
        rw [List.zipIdx_map_fst, List.filter_flatMap, List.map_flatMap]

/-- WHAT STANDS AT THE PLACES is what is listed, as far as it is wanted. -/
theorem WellFormed.map_placesWhere (wf : a.WellFormed u) (wanted : Term → Bool) (t : Term) :
    (a.placesWhere wanted t).map (a.at? t) = ((a.listing t).filter wanted).map some := by
  induction t using Term.byHeight with
  | step t ih =>
    have hbelow := map_placesBelow fun arg harg => ih arg (wf.argsOrNone_sound arg harg).2
    rw [wf.placesWhere_eq, wf.listing_eq, List.map_append, List.filter_append, List.map_append,
      hbelow, List.filter_singleton]
    congr 1
    cases wanted t with
    | true => rfl
    | false => rfl

/-! ## The places of the compound terms -/

/-- The positions of the compound terms, each after the positions below
it. -/
def compoundPlaces (a : Arena V) (t : Term) : List (List Nat) := a.placesWhere Term.isCompound t

/-- What is not compound has no compound term under it. -/
theorem WellFormed.compoundPlaces_of_not_compound (wf : a.WellFormed u)
    (h : t.isCompound = false) : a.compoundPlaces t = [] := by
  rw [compoundPlaces, wf.placesWhere_eq, placesBelow,
    argsOrNone_of_not_compound h, h]
  rfl

/-- The positions of the compound terms under a term that stands at a
position itself. -/
def placesAt (a : Arena V) (place : List Nat) (t : Term) : List (List Nat) :=
  (a.compoundPlaces t).map (place ++ ·)

/-- The same for numbered arguments of a term at that position. -/
def placesIn (a : Arena V) (place : List Nat) (args : List (Term × Nat)) : List (List Nat) :=
  args.flatMap fun arg => a.placesAt (place ++ [arg.2]) arg.1

theorem placesAt_nil (a : Arena V) (t : Term) : a.placesAt [] t = a.compoundPlaces t :=
  List.map_id' _

/-- The position of a compound term comes after those in its arguments. -/
theorem WellFormed.placesAt_eq (wf : a.WellFormed u) (place : List Nat)
    (h : t.isCompound = true) :
    a.placesAt place t = a.placesIn place (a.argsOrNone t).zipIdx ++ [place] := by
  rw [placesAt, compoundPlaces, wf.placesWhere_eq, if_pos h, placesBelow,
    List.map_append, List.map_flatMap, List.map_singleton, List.append_nil, placesIn]
  congr 1
  apply List.flatMap_congr
  intro arg _
  rw [List.map_map, placesAt]
  apply List.map_congr_left
  intro rest _
  show place ++ arg.2 :: rest = place ++ [arg.2] ++ rest
  rw [List.append_assoc]
  rfl

/-- The positions of the compound terms of a term, all of them, in
post-order. -/
structure InPostorder (a : Arena V) (t : Term) (places : List (List Nat)) : Prop where
  sorted : places.Pairwise Earlier
  complete : ∀ place, place ∈ places ↔ ∃ x, a.at? t place = some x ∧ x.isCompound = true

/-- There is one list of these positions. -/
theorem WellFormed.inPostorder_iff (wf : a.WellFormed u) {places : List (List Nat)} :
    a.InPostorder t places ↔ places = a.compoundPlaces t := by
  have hlisted : a.InPostorder t (a.compoundPlaces t) :=
    ⟨wf.earlier_placesWhere Term.isCompound t, fun _ => wf.mem_placesWhere⟩
  constructor
  · intro h
    apply eq_of_pairwise_earlier h.sorted hlisted.sorted
    intro place
    rw [h.complete, hlisted.complete]
  · rintro rfl
    exact hlisted

end Arena

end TermGraph
