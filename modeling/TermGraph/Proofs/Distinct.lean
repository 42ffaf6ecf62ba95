import Mathlib.Data.List.Forall2
import TermGraph.Results.Basic

/-!
# Distinct — results without repetitions

Repetitions are removed in one pass, with a set of what has been seen. The
set is the invariant: an element is removed if the set has an equal one,
and enters the set otherwise. So in the middle of a list two things decide
about an element, what the set held at the beginning and what stands before
it; that is what the inductions below are about.

Equality is any equivalence, and hashing agrees with it. Equal elements
need not be one and the same, so it matters WHICH of several equal ones is
kept: the first, both in the list without repetitions and in the set.

## What is proved

`Results.distinct_removes_repetitions` — which places are kept, what order
and number the rest has, and when nothing is removed.
-/

namespace TermGraph

namespace Results

variable {α : Type}

/-! ## Places that are kept -/

/-- The element at the place is not in the set, and equals none before
it. -/
def IsNew [BEq α] [Hashable α] (seen : Std.HashSet α) (xs : List α) (i : Nat) : Prop :=
  ∃ x, xs[i]? = some x ∧ x ∉ seen ∧ ∀ j y, j < i → xs[j]? = some y → (y == x) = false

/-- The element at the place equals none before it. -/
def IsFirst [BEq α] (xs : List α) (i : Nat) : Prop :=
  ∃ x, xs[i]? = some x ∧ ∀ j y, j < i → xs[j]? = some y → (y == x) = false

/-- The second list has the elements of the first one from the places where
`P` holds, and no others, in order. -/
def KeptWhere (P : Nat → Prop) (xs ys : List α) : Prop :=
  ∃ places : List Nat, places.Pairwise (· < ·) ∧ (∀ i, i ∈ places ↔ P i) ∧
    List.Forall₂ (xs[·]? = some ·) places ys

/-- An element that is left out moves the places of all others. -/
theorem KeptWhere.skip {P : Nat → Prop} {x : α} {xs ys : List α}
    (h : KeptWhere (fun i => P (i + 1)) xs ys) (hx : ¬P 0) : KeptWhere P (x :: xs) ys := by
  obtain ⟨places, hsorted, hmem, hall⟩ := h
  refine ⟨places.map (· + 1), ?_, fun i => ?_, ?_⟩
  · exact List.pairwise_map.mpr (hsorted.imp Nat.succ_lt_succ)
  · cases i with
    | zero => simp [hx]
    | succ i => simp [hmem]
  · exact List.forall₂_map_left_iff.mpr hall

/-- An element that is kept is at the first place. -/
theorem KeptWhere.keep {P : Nat → Prop} {x : α} {xs ys : List α}
    (h : KeptWhere (fun i => P (i + 1)) xs ys) (hx : P 0) : KeptWhere P (x :: xs) (x :: ys) := by
  obtain ⟨places, hsorted, hmem, hall⟩ := h
  refine ⟨0 :: places.map (· + 1), ?_, fun i => ?_, ?_⟩
  · refine List.pairwise_cons.mpr ⟨fun i hi => ?_, ?_⟩
    · obtain ⟨j, -, rfl⟩ := List.mem_map.mp hi
      exact Nat.succ_pos j
    · exact List.pairwise_map.mpr (hsorted.imp Nat.succ_lt_succ)
  · cases i with
    | zero => simp [hx]
    | succ i => simp [hmem]
  · exact .cons rfl (List.forall₂_map_left_iff.mpr hall)

theorem KeptWhere.congr {P Q : Nat → Prop} {xs ys : List α} (h : KeptWhere P xs ys)
    (hPQ : ∀ i, P i ↔ Q i) : KeptWhere Q xs ys := by
  obtain ⟨places, hsorted, hmem, hall⟩ := h
  exact ⟨places, hsorted, fun i => (hmem i).trans (hPQ i), hall⟩

/-! ## One pass -/

section Pass

variable [BEq α] [Hashable α] {seen seen' : Std.HashSet α} {x : α} {xs : List α}

theorem firstOccurrences_of_mem (h : x ∈ seen) :
    firstOccurrences seen (x :: xs) = firstOccurrences seen xs := by
  rw [firstOccurrences, if_pos (Std.HashSet.mem_iff_contains.mp h)]

theorem firstOccurrences_of_not_mem (h : x ∉ seen) :
    firstOccurrences seen (x :: xs) = x :: firstOccurrences (seen.insert x) xs := by
  rw [firstOccurrences, if_neg fun hc => h (Std.HashSet.mem_iff_contains.mpr hc)]

/-- What is kept is kept in order. -/
theorem firstOccurrences_sublist : (firstOccurrences seen xs).Sublist xs := by
  induction xs generalizing seen with
  | nil => exact .slnil
  | cons x xs ih =>
    by_cases hx : x ∈ seen
    · rw [firstOccurrences_of_mem hx]
      exact ih.cons x
    · rw [firstOccurrences_of_not_mem hx]
      exact ih.cons_cons x

/-- What stands before a later element is the first one, and what stands
between. -/
theorem isNew_succ {i : Nat} : IsNew seen (x :: xs) (i + 1) ↔
    ∃ z, xs[i]? = some z ∧ z ∉ seen ∧ (x == z) = false ∧
      ∀ j y, j < i → xs[j]? = some y → (y == z) = false := by
  refine exists_congr fun z => and_congr_right fun _ => and_congr_right fun _ => ?_
  constructor
  · intro h
    exact ⟨h 0 x (Nat.succ_pos i) rfl, fun j y hj hy => h (j + 1) y (Nat.succ_lt_succ hj) hy⟩
  · rintro ⟨hx, hrest⟩ j y hj hy
    cases j with
    | zero =>
      cases hy
      exact hx
    | succ j => exact hrest j y (Nat.lt_of_succ_lt_succ hj) hy

variable [EquivBEq α] [LawfulHashable α]

/-- The elements that are kept are those from the places that are new. -/
theorem firstOccurrences_kept : KeptWhere (IsNew seen xs) xs (firstOccurrences seen xs) := by
  induction xs generalizing seen with
  | nil => exact ⟨[], .nil, fun i => by simp [IsNew], .nil⟩
  | cons x xs ih =>
    by_cases hx : x ∈ seen
    · rw [firstOccurrences_of_mem hx]
      refine KeptWhere.skip (ih.congr fun i => ?_) ?_
      · -- What is not in the set differs from `x`, which is.
        rw [isNew_succ]
        refine exists_congr fun z => and_congr_right fun _ => and_congr_right fun hz => ?_
        refine (and_iff_right ?_).symm
        exact Bool.eq_false_iff.mpr fun hxz => hz ((Std.HashSet.mem_congr hxz).mp hx)
      · rintro ⟨z, hz, hnot, -⟩
        cases hz
        exact hnot hx
    · rw [firstOccurrences_of_not_mem hx]
      refine KeptWhere.keep (ih.congr fun i => ?_) ?_
      · -- Not in the set with `x` is not in the set, and different from `x`.
        rw [isNew_succ]
        refine exists_congr fun z => and_congr_right fun _ => ?_
        rw [Std.HashSet.mem_insert, not_or, Bool.not_eq_true]
        exact ⟨fun ⟨⟨hxz, hz⟩, h⟩ => ⟨hz, hxz, h⟩, fun ⟨hz, hxz, h⟩ => ⟨⟨hxz, hz⟩, h⟩⟩
      · exact ⟨x, rfl, hx, fun j y hj => absurd hj (Nat.not_lt_zero j)⟩

/-- Of the set only its elements matter. -/
theorem firstOccurrences_congr (h : ∀ y, y ∈ seen ↔ y ∈ seen') :
    firstOccurrences seen xs = firstOccurrences seen' xs := by
  induction xs generalizing seen seen' with
  | nil => rfl
  | cons x xs ih =>
    by_cases hx : x ∈ seen
    · rw [firstOccurrences_of_mem hx, firstOccurrences_of_mem ((h x).mp hx), ih h]
    · rw [firstOccurrences_of_not_mem hx, firstOccurrences_of_not_mem (mt (h x).mpr hx)]
      have hinsert : ∀ y, y ∈ seen.insert x ↔ y ∈ seen'.insert x := fun y => by
        rw [Std.HashSet.mem_insert, Std.HashSet.mem_insert, h y]
      rw [ih hinsert]

/-- The elements that are kept are those that the pass has added to the
set. -/
theorem toList_insertMany_perm :
    (seen.insertMany xs).toList.Perm (seen.toList ++ firstOccurrences seen xs) := by
  induction xs generalizing seen with
  | nil => rw [Std.HashSet.insertMany_nil, firstOccurrences, List.append_nil]
  | cons x xs ih =>
    rw [Std.HashSet.insertMany_cons]
    have hinsert := Std.HashSet.toList_insert_perm (m := seen) (k := x)
    refine ih.trans ((hinsert.append_right _).trans ?_)
    by_cases hx : x ∈ seen
    · have hsame : ∀ y, y ∈ seen.insert x ↔ y ∈ seen := fun y => by
        rw [Std.HashSet.mem_insert]
        exact or_iff_right_of_imp fun hxy => (Std.HashSet.mem_congr hxy).mp hx
      rw [if_pos hx, firstOccurrences_of_mem hx, firstOccurrences_congr hsame]
    · rw [if_neg hx, firstOccurrences_of_not_mem hx]
      exact List.perm_middle.symm

end Pass

/-! ## The results without repetitions -/

section Distinct

variable [BEq α] [Hashable α] [EquivBEq α] [LawfulHashable α]

/-- The set has the very elements that are kept. -/
theorem toList_toSet_perm (r : Results α) : r.toSet.toList.Perm r.distinct.toList := by
  have hset : r.toSet = (∅ : Std.HashSet α).insertMany r.toList := by
    rw [toSet]
    cases r.toList with
    | nil => rw [Std.HashSet.ofList_nil, Std.HashSet.insertMany_nil]
    | cons x xs => rw [Std.HashSet.ofList_cons, Std.HashSet.insertMany_cons]
  have hperm : ((∅ : Std.HashSet α).insertMany r.toList).toList.Perm
      ((∅ : Std.HashSet α).toList ++ r.distinct.toList) := toList_insertMany_perm
  rwa [Std.HashSet.toList_empty, List.nil_append, ← hset] at hperm

/-- No two elements that are kept are equal. -/
theorem distinct_pairwise (r : Results α) :
    r.distinct.toList.Pairwise fun x y => (x == y) = false := by
  refine ((toList_toSet_perm r).pairwise_iff fun {x y} h => ?_).mp Std.HashSet.distinct_toList
  rwa [BEq.comm]

/-- There are as many as the set has. -/
theorem count_distinct (r : Results α) : r.distinct.count = r.toSet.size := by
  rw [← Std.HashSet.length_toList, (toList_toSet_perm r).length_eq, count]

/-- Nothing is removed from results without repetitions. -/
theorem distinct_of_pairwise {r : Results α}
    (h : r.toList.Pairwise fun x y => (x == y) = false) : r.distinct = r := by
  have hlength : r.distinct.toList.length = r.toList.length :=
    (count_distinct r).trans (Std.HashSet.size_ofList h)
  exact congrArg mk (firstOccurrences_sublist.eq_of_length hlength)

/-- What is true of the results without their repetitions. -/
structure RemovesRepetitions (r : Results α) : Prop where
  /-- An element is kept if and only if it equals none before it. -/
  kept : KeptWhere (IsFirst r.toList) r.toList r.distinct.toList
  sublist : r.distinct.toList.Sublist r.toList
  pairwise : r.distinct.toList.Pairwise fun x y => (x == y) = false
  /-- The elements that are kept are those of the set: equal elements, and
  indeed the very same ones. -/
  mem_set : ∀ x, x ∈ r.toSet ↔ r.distinct.toList.contains x = true
  set : r.toSet.toList.Perm r.distinct.toList
  count : r.distinct.count = r.toSet.size
  again : r.distinct.distinct = r.distinct
  unchanged : r.distinct = r ↔ r.toList.Pairwise fun x y => (x == y) = false

/-- EXACTLY THE REPETITIONS ARE REMOVED, of any results over a type with an
equality that is an equivalence, and with a hash that agrees with it. -/
theorem distinct_removes_repetitions (r : Results α) : r.RemovesRepetitions where
  kept := firstOccurrences_kept.congr fun i => by simp [IsNew, IsFirst]
  sublist := firstOccurrences_sublist
  pairwise := distinct_pairwise r
  mem_set x := by
    rw [Std.HashSet.mem_iff_contains, ← Std.HashSet.contains_toList,
      (toList_toSet_perm r).contains_eq]
  set := toList_toSet_perm r
  count := count_distinct r
  again := distinct_of_pairwise (distinct_pairwise r)
  unchanged := ⟨fun h => h ▸ distinct_pairwise r, distinct_of_pairwise⟩

end Distinct

/-! ## Equality that is not identity -/

/-- A number, of which only the remainder by three counts. -/
structure Remainder where
  number : Nat
  deriving DecidableEq

instance : BEq Remainder := ⟨fun x y => x.number % 3 == y.number % 3⟩

instance : Hashable Remainder := ⟨fun x => hash (x.number % 3)⟩

theorem beq_remainder {x y : Remainder} : (x == y) = true ↔ x.number % 3 = y.number % 3 :=
  beq_iff_eq (α := Nat)

instance : EquivBEq Remainder where
  rfl := beq_remainder.mpr rfl
  symm h := beq_remainder.mpr (beq_remainder.mp h).symm
  trans h k := beq_remainder.mpr ((beq_remainder.mp h).trans (beq_remainder.mp k))

instance : LawfulHashable Remainder where
  hash_eq _ _ h := congrArg (hash (α := Nat)) (beq_remainder.mp h)

/-- Of equal numbers that are not the same the first one is kept. -/
theorem distinct_removes_repetitions_sample :
    (⟨[⟨4⟩, ⟨2⟩, ⟨7⟩, ⟨3⟩, ⟨5⟩]⟩ : Results Remainder).RemovesRepetitions ∧
      (⟨[⟨4⟩, ⟨2⟩, ⟨7⟩, ⟨3⟩, ⟨5⟩]⟩ : Results Remainder).distinct = ⟨[⟨4⟩, ⟨2⟩, ⟨3⟩]⟩ := by
  refine ⟨distinct_removes_repetitions _, ?_⟩
  simp [distinct, firstOccurrences, beq_remainder]

end Results

end TermGraph
