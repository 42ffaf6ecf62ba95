import Mathlib.Data.List.Induction
import TermGraph.Proofs.Sameness

/-!
# Variables — which occur in a term, and which is the first of a name

The named variables of a term are those of its listing. `distinctVars`
takes them from any list, each once and where it stands first; the place
of a variable in that list is what numbering will assign.

## What is proved

`WellFormed.namedVars_eq` — the variables that a walk finds are those of
the listing. `WellFormed.firstNamed_eq_find?` — the first variable of a
name that a walk finds is the first one listed.
-/

namespace TermGraph

/-- The named variables of a list, each once, where it stands first. -/
def distinctVars (ts : List Term) : List Term := (ts.filter Term.isNamedVar).eraseDups

@[simp] theorem mem_distinctVars {ts : List Term} {t : Term} :
    t ∈ distinctVars ts ↔ t ∈ ts ∧ t.isNamedVar = true := by
  rw [distinctVars, List.mem_eraseDups, List.mem_filter]

/-- One more term adds itself, if it is a named variable that was not
there. -/
theorem distinctVars_concat (ts : List Term) (t : Term) :
    distinctVars (ts ++ [t]) =
      if t.isNamedVar = true ∧ t ∉ ts then distinctVars ts ++ [t] else distinctVars ts := by
  unfold distinctVars
  rw [List.filter_append, List.eraseDups_append]
  by_cases hvar : t.isNamedVar = true
  · by_cases hmem : t ∈ ts <;> simp [List.removeAll, List.eraseDups_cons, hvar, hmem]
  · simp [List.removeAll, hvar]

/-- What is there already adds nothing. -/
theorem distinctVars_append_of_subset {ts us : List Term} (h : ∀ u ∈ us, u ∈ ts) :
    distinctVars (ts ++ us) = distinctVars ts := by
  induction us using List.reverseRecOn with
  | nil => rw [List.append_nil]
  | append_singleton us u ih =>
    have hu : u ∈ ts := h u (by simp)
    rw [← List.append_assoc, distinctVars_concat, if_neg]
    · exact ih fun v hv => h v (List.mem_append_left _ hv)
    · rintro ⟨-, hnot⟩
      exact hnot (List.mem_append_left _ hu)

theorem nodup_distinctVars (ts : List Term) : (distinctVars ts).Nodup := by
  induction ts using List.reverseRecOn with
  | nil => exact .nil
  | append_singleton ts t ih =>
    rw [distinctVars_concat]
    split
    · next h =>
      refine List.nodup_append.mpr ⟨ih, List.pairwise_singleton _ t, fun x hx y hy => ?_⟩
      rw [List.mem_singleton.mp hy]
      rintro rfl
      exact h.2 (mem_distinctVars.mp hx).1
    · exact ih

/-- What is a named variable is found among them, if it is found at all. -/
theorem find?_distinctVars {p : Term → Bool} (hp : ∀ t, p t = true → t.isNamedVar = true)
    (ts : List Term) : (distinctVars ts).find? p = ts.find? p := by
  induction ts using List.reverseRecOn with
  | nil => rfl
  | append_singleton ts t ih =>
    rw [distinctVars_concat, List.find?_append]
    split
    · rw [List.find?_append, ih]
    · next hnot =>
      rw [ih, List.find?_singleton]
      by_cases ht : p t = true
      · -- It is a variable that was there before, so one is found before it.
        have hmem : t ∈ ts := Decidable.byContradiction fun h => hnot ⟨hp t ht, h⟩
        obtain ⟨s, hs⟩ := Option.isSome_iff_exists.mp (List.find?_isSome.mpr ⟨t, hmem, ht⟩)
        rw [hs, Option.some_or]
      · rw [if_neg ht, Option.or_none]

/-! ## Places -/

/-- The number of named variables of a list before a term stands in it for
the first time. -/
def placeIn (ts : List Term) (t : Term) : Nat :=
  (distinctVars (ts.takeWhile (· ≠ t))).length

/-- A list, cut where a term stands for the first time. -/
theorem exists_first {ts : List Term} {t : Term} (h : t ∈ ts) :
    ∃ before after, ts = before ++ t :: after ∧ t ∉ before ∧ ts.takeWhile (· ≠ t) = before := by
  induction ts with
  | nil => cases h
  | cons s ts ih =>
    by_cases hst : s = t
    · subst hst
      exact ⟨[], ts, rfl, List.not_mem_nil, by simp⟩
    · have hrest := (List.mem_cons.mp h).resolve_left (Ne.symm hst)
      obtain ⟨before, after, heq, hnot, htake⟩ := ih hrest
      refine ⟨s :: before, after, by rw [heq, List.cons_append], ?_, ?_⟩
      · rw [List.mem_cons, not_or]
        exact ⟨Ne.symm hst, hnot⟩
      · rw [List.takeWhile_cons_of_pos (by simpa using hst), htake]

/-- A list is cut after all of a first part without the term. -/
theorem takeWhile_append_of_notMem {ts us : List Term} {t : Term} (h : t ∉ ts) :
    (ts ++ us).takeWhile (· ≠ t) = ts ++ us.takeWhile (· ≠ t) := by
  apply List.takeWhile_append_of_pos
  intro s hs
  rw [decide_eq_true_eq]
  rintro rfl
  exact h hs

/-- A list is cut at a term as its first part is, if the term is there. -/
theorem takeWhile_append_of_mem {ts us : List Term} {t : Term} (h : t ∈ ts) :
    (ts ++ us).takeWhile (· ≠ t) = ts.takeWhile (· ≠ t) := by
  obtain ⟨before, after, rfl, hnot, -⟩ := exists_first h
  rw [List.append_assoc, takeWhile_append_of_notMem hnot, takeWhile_append_of_notMem hnot,
    List.cons_append, List.takeWhile_cons_of_neg (by simp), List.takeWhile_cons_of_neg (by simp)]

theorem placeIn_of_first {before after : List Term} {t : Term} (h : t ∉ before) :
    placeIn (before ++ t :: after) t = (distinctVars before).length := by
  rw [placeIn, takeWhile_append_of_notMem h, List.takeWhile_cons_of_neg (by simp), List.append_nil]

/-- What comes after the first time does not count. -/
theorem placeIn_append {ts us : List Term} {t : Term} (h : t ∈ ts) :
    placeIn (ts ++ us) t = placeIn ts t := by
  obtain ⟨before, after, rfl, hnot, -⟩ := exists_first h
  rw [List.append_assoc, List.cons_append, placeIn_of_first hnot, placeIn_of_first hnot]

/-- More of a list has more variables. -/
theorem length_distinctVars_le (ts us : List Term) :
    (distinctVars ts).length ≤ (distinctVars (ts ++ us)).length := by
  rw [distinctVars, distinctVars, List.filter_append, List.eraseDups_append, List.length_append]
  exact Nat.le_add_right _ _

/-- A variable has a smaller place than everything it comes before. -/
theorem placeIn_lt {ts : List Term} {s t : Term} (hs : s ∈ ts.takeWhile (· ≠ t))
    (hvar : s.isNamedVar = true) (ht : t ∈ ts) : placeIn ts s < placeIn ts t := by
  obtain ⟨before, after, rfl, hnot, htake⟩ := exists_first ht
  rw [htake] at hs
  obtain ⟨first, rest, rfl, hnot', -⟩ := exists_first hs
  have hlast := distinctVars_concat first s
  rw [if_pos ⟨hvar, hnot'⟩] at hlast
  have hle := length_distinctVars_le (first ++ [s]) rest
  rw [hlast, List.append_assoc, List.singleton_append, List.length_append,
    List.length_singleton] at hle
  rw [placeIn_append hs, placeIn_of_first hnot', placeIn_of_first hnot]
  omega

/-- The place of a variable is where it stands among the variables. -/
theorem placeIn_of_getElem? {ts : List Term} {t : Term} {i : Nat}
    (h : (distinctVars ts)[i]? = some t) : placeIn ts t = i := by
  obtain ⟨hmem, hvar⟩ := mem_distinctVars.mp (List.mem_of_getElem? h)
  obtain ⟨before, after, rfl, hnot, -⟩ := exists_first hmem
  rw [placeIn_of_first hnot]
  have hcut : ∃ rest, distinctVars (before ++ t :: after) = distinctVars before ++ t :: rest := by
    have hlast := distinctVars_concat before t
    rw [if_pos ⟨hvar, hnot⟩] at hlast
    refine ⟨((after.filter Term.isNamedVar).removeAll ((before ++ [t]).filter
      Term.isNamedVar)).eraseDups, ?_⟩
    rw [← List.singleton_append, ← List.append_assoc, distinctVars, List.filter_append,
      List.eraseDups_append, ← distinctVars, hlast, List.append_assoc, List.singleton_append]
  obtain ⟨rest, hrest⟩ := hcut
  have hnodup := nodup_distinctVars (before ++ t :: after)
  have hplace : (distinctVars (before ++ t :: after))[(distinctVars before).length]? = some t := by
    rw [hrest, List.getElem?_append_right (Nat.le_refl _), Nat.sub_self, List.getElem?_cons_zero]
  have hlt := (List.getElem?_eq_some_iff.mp hplace).1
  exact (List.getElem?_inj hlt hnodup).mp (hplace.trans h.symm)

namespace Arena

variable {V : Type} {a : Arena V} {t : Term}

/-- The variables found in a term are added to those found before, in the
order of the listing. -/
theorem WellFormed.namedVarsFrom_eq (wf : a.WellFormed .documented)
    (ht : a.Holds .documented t) : ∀ (found : Array Term) (ts : List Term),
    found.toList = distinctVars ts →
      (a.namedVarsFrom t found).toList = distinctVars (ts ++ a.listing t) := by
  refine wf.inductionUnder (P := fun t => ∀ (found : Array Term) (ts : List Term),
    found.toList = distinctVars ts →
      (a.namedVarsFrom t found).toList = distinctVars (ts ++ a.listing t)) ?_ ht
  intro t ht ih found ts hfound
  have hself (hargs : a.argsOrNone t = []) (hvar : t.isNamedVar = false) :
      found.toList = distinctVars (ts ++ a.listing t) := by
    rw [wf.listing_eq, hargs, List.flatMap_nil, List.nil_append, distinctVars_concat, hfound,
      if_neg (by simp [hvar])]
  rw [Arena.namedVarsFrom_eq]
  rcases wf.cases_holds ht with ⟨r, name, type, rfl, -⟩ | ⟨r, f, args, rfl, hshell⟩ | hl
  · have hany : found.any (·.same (.var r)) = true ↔ .var r ∈ ts := by
      have hmem : .var r ∈ found ↔ .var r ∈ ts := by
        rw [← Array.mem_toList_iff, hfound, mem_distinctVars]
        exact and_iff_left rfl
      rw [← hmem, Array.any_eq_true']
      constructor
      · rintro ⟨x, hx, hsame⟩
        rw [Term.eq_of_same_of_ref (Term.same_symm hsame) (r := r) rfl]
        exact hx
      · exact fun hx => ⟨_, hx, Term.same_self _⟩
    rw [wf.listing_eq, argsOrNone_var, List.flatMap_nil, List.nil_append, distinctVars_concat,
      ← hfound]
    unfold namedVarsStep
    by_cases hin : .var r ∈ ts
    · simp [Term.role, Term.isNamedVar, hin, hany.mpr hin]
    · simp [Term.role, Term.isNamedVar, hin, Bool.eq_false_iff.mpr (mt hany.mp hin)]
  · have hargs := argsOrNone_of_shell? hshell
    have hlow := wf.args_sound (args_of_shell? hshell)
    rw [wf.listing_eq, hargs, ← List.append_assoc, distinctVars_concat,
      if_neg (by simp [Term.isNamedVar])]
    unfold namedVarsStep
    rw [hargs] at ih ⊢
    simp only [Term.role]
    clear hself hshell hargs
    induction args generalizing found ts with
    | nil => rw [List.foldl_nil, List.flatMap_nil, List.append_nil, hfound]
    | cons arg args ihargs =>
      rw [List.foldl_cons, if_pos (hlow arg List.mem_cons_self).2, List.flatMap_cons,
        ← List.append_assoc]
      exact ihargs _ _ (ih arg List.mem_cons_self found ts hfound)
        (fun s hs => ih s (List.mem_cons_of_mem _ hs))
        fun s hs => hlow s (List.mem_cons_of_mem _ hs)
  · cases t with
    | var _ | compound _ => cases hl
    | _ => exact hself rfl rfl

/-- THE VARIABLES OF A TERM are those of its listing. -/
theorem WellFormed.namedVars_eq (wf : a.WellFormed .documented) (ht : a.Holds .documented t) :
    (a.namedVars t).toList = distinctVars (a.listing t) := by
  have h := wf.namedVarsFrom_eq ht #[] [] rfl
  rwa [List.nil_append] at h

/-- The term is a variable of this name: a named one, or the anonymous
one. -/
def answersTo (a : Arena V) (name : String) (t : Term) : Bool :=
  a.isVarNamed name t || (t.isAnon && decide (name = "_"))

/-- The first variable of a name is the first one listed. -/
theorem WellFormed.firstNamed_eq_find? (wf : a.WellFormed .documented)
    (ht : a.Holds .documented t) (name : String) :
    a.firstNamed name t = (a.listing t).find? (a.answersTo name) := by
  refine wf.inductionUnder
    (P := fun t => a.firstNamed name t = (a.listing t).find? (a.answersTo name)) ?_ ht
  intro t ht ih
  rw [firstNamed_eq, wf.listing_eq, List.find?_append, List.find?_flatMap]
  unfold firstNamedStep
  rcases wf.cases_holds ht with ⟨r, found, type, rfl, hfound⟩ | ⟨r, f, args, rfl, hshell⟩ | hl
  · rw [argsOrNone_var, hfound]
    by_cases h : found = name <;> simp [answersTo, isVarNamed, Term.isAnon, hfound, h]
  · have hlow := wf.argsOrNone_sound (t := .compound r)
    have hnot : a.answersTo name (.compound r) = false := rfl
    rw [List.find?_singleton, hnot, if_neg Bool.false_ne_true, Option.or_none]
    show (a.argsOrNone (.compound r)).findSome? _ = _
    generalize a.argsOrNone (.compound r) = args at hlow ih
    induction args with
    | nil => rfl
    | cons arg args ihargs =>
      rw [List.findSome?_cons, List.findSome?_cons, if_pos (hlow arg List.mem_cons_self).2,
        ih arg List.mem_cons_self, ihargs (fun s hs => hlow s (List.mem_cons_of_mem _ hs))
          fun s hs => ih s (List.mem_cons_of_mem _ hs)]
  · rw [argsOrNone_of_isLeaf hl]
    cases t with
    | var _ | compound _ => cases hl
    | anon => by_cases h : name = "_" <;> simp [answersTo, isVarNamed, namedVar?, Term.isAnon, h]
    | _ => rfl

/-- The same for the lookup by name, for the names that variables have. -/
theorem WellFormed.varNamed?_eq (wf : a.WellFormed .documented) (ht : a.Holds .documented t)
    {name : String} (hanon : name ≠ "_") (hwhole : name ≠ ".") :
    a.varNamed? t name = (a.listing t).find? (a.isVarNamed name) := by
  have hsame : a.answersTo name = a.isVarNamed name := by
    funext x
    rw [answersTo, decide_eq_false hanon, Bool.and_false, Bool.or_false]
  rw [varNamed?, if_neg hwhole, wf.firstNamed_eq_find? ht, hsame]

end Arena

end TermGraph
