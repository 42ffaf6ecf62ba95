import TermGraph.Proofs.Normalization

/-!
# Lookup — the variables of a term, listed and looked up by name

Two algorithms go through a term from left to right. Listing carries the
variables it has met, and goes on to the end. Looking up carries nothing,
and stops at the first variable of the name. Variables are told apart by
their handles, so two of them may have one name; lookup answers the one that
was listed first.

What comes first is said of positions. A variable has no arguments, so of
two positions of variables neither goes on from the other: they part
somewhere, and one of them goes to the left. `WellFormed.exists_leftmost`
ties this to the listing: what stands to the left of the leftmost occurrence
of a variable was listed before it.

In a normal form no two variables have one name, and lookup undoes naming.

## What is proved

`Session.Reachable.lookup_agrees` — of every term that a host can reach
under documented use.
-/

namespace TermGraph

/-- The two positions part, and the first one goes to the left. -/
def LeftOf : List Nat → List Nat → Prop
  | i :: p, j :: q => i < j ∨ i = j ∧ LeftOf p q
  | _, _ => False

namespace Arena

variable {V : Type} {a b d : Arena V} {t n x : Term}

/-- The position is the leftmost one at which the term `x` stands. -/
def Leftmost (a : Arena V) (t x : Term) (p : List Nat) : Prop :=
  a.at? t p = some x ∧ ∀ q, a.at? t q = some x → q = p ∨ LeftOf p q

/-! ## What is to be shown -/

/-- The variables of a term are listed each once, from left to right. -/
structure ListsVariables (a : Arena V) (t : Term) : Prop where
  mem : ∀ x, x ∈ a.namedVars t ↔ a.Under t x ∧ x.isNamedVar = true
  once : (a.namedVars t).toList.Nodup
  order : ∀ (i j : Nat) (x y : Term), i < j → (a.namedVars t)[i]? = some x →
    (a.namedVars t)[j]? = some y →
      ∃ p q, a.Leftmost t x p ∧ a.Leftmost t y q ∧ LeftOf p q

/-- Looking up a name answers the first variable of that name, or none. The
two singletons are found by names of their own. -/
structure FindsFirst (a : Arena V) (t : Term) : Prop where
  named : ∀ name, name ≠ "_" → name ≠ "." →
    a.varNamed? t name = (a.namedVars t).toList.find? fun x => a.varName x = .ok name
  anon : a.varNamed? t "_" = some .anon ↔ a.Under t .anon
  onlyAnon : ∀ x, a.varNamed? t "_" = some x → x = .anon
  whole : a.varNamed? t "." = some .whole

/-- No two variables of the term have one name, and each is found by its
own. -/
structure NamesUndone (a : Arena V) (t : Term) : Prop where
  distinct : ((a.namedVars t).toList.map a.varName).Nodup
  found : ∀ x ∈ a.namedVars t, ∃ name, a.varName x = .ok name ∧ a.varNamed? t name = some x

/-! ## From left to right -/

/-- A variable has no arguments. -/
theorem argsOrNone_of_isNamedVar (hvar : t.isNamedVar = true) : a.argsOrNone t = [] := by
  cases t with
  | var r => rfl
  | _ => cases hvar

/-- A VARIABLE HAS A LEFTMOST OCCURRENCE. Another variable is to the right of
it, unless it was listed before. -/
theorem WellFormed.exists_leftmost (wf : a.WellFormed .documented)
    (ht : a.Holds .documented t) (hvar : x.isNamedVar = true) (hx : x ∈ a.listing t) :
    ∃ p, a.at? t p = some x ∧ ∀ q y, a.at? t q = some y → y.isNamedVar = true →
      y ∉ (a.listing t).takeWhile (· ≠ x) → q = p ∨ LeftOf p q := by
  revert hx
  refine wf.inductionUnder (P := fun t => x ∈ a.listing t → ∃ p, a.at? t p = some x ∧
    ∀ q y, a.at? t q = some y → y.isNamedVar = true →
      y ∉ (a.listing t).takeWhile (· ≠ x) → q = p ∨ LeftOf p q) ?_ ht
  intro t ht ih hx
  rw [wf.listing_eq] at hx ⊢
  rcases List.mem_append.mp hx with hx | hx
  · obtain ⟨before, arg, after, hsplit, hxarg, hbefore⟩ := exists_first_argument hx
    have harg : (a.argsOrNone t)[before.length]? = some arg := by
      rw [hsplit, List.getElem?_append_right (Nat.le_refl _), Nat.sub_self,
        List.getElem?_cons_zero]
    obtain ⟨p, hp, hright⟩ := ih arg (List.mem_of_getElem? harg) hxarg
    refine ⟨before.length :: p, by rw [at?, harg]; exact hp, fun q y hq hy hnot => ?_⟩
    rw [hsplit, takeWhile_flatMap _ hxarg hbefore, List.mem_append, not_or] at hnot
    cases q with
    | nil =>
      cases hq
      rw [argsOrNone_of_isNamedVar hy] at harg
      cases harg
    | cons j q =>
      obtain ⟨s, hs, hq⟩ := Option.bind_eq_some_iff.mp hq
      rcases Nat.lt_trichotomy j before.length with hj | rfl | hj
      · -- All of an earlier argument is listed before.
        rw [hsplit, List.getElem?_append_left hj] at hs
        have hmem := List.mem_of_getElem? hs
        have hheld := (wf.argsOrNone_sound s
          (hsplit ▸ List.mem_append_left (arg :: after) hmem)).1
        refine absurd ?_ hnot.1
        exact List.mem_flatMap.mpr ⟨s, hmem, (wf.under_iff hheld).mp ⟨q, hq⟩⟩
      · rw [harg] at hs
        cases hs
        rcases hright q y hq hy hnot.2 with rfl | hleft
        · exact .inl rfl
        · exact .inr (.inr ⟨rfl, hleft⟩)
      · exact .inr (.inl hj)
  · obtain rfl := List.mem_singleton.mp hx
    refine ⟨[], rfl, fun q y hq _ _ => ?_⟩
    cases q with
    | nil => exact .inl rfl
    | cons j q =>
      rw [at?, argsOrNone_of_isNamedVar hvar] at hq
      cases hq

/-- Nothing is listed before itself. -/
theorem notMem_takeWhile (ts : List Term) (x : Term) : x ∉ ts.takeWhile (· ≠ x) := by
  intro h
  have hne := List.all_eq_true.mp List.all_takeWhile x h
  exact of_decide_eq_true hne rfl

/-- So the occurrence is the leftmost one. -/
theorem WellFormed.leftmost_of_listing (wf : a.WellFormed .documented)
    (ht : a.Holds .documented t) (hvar : x.isNamedVar = true) (hx : x ∈ a.listing t) :
    ∃ p, a.Leftmost t x p ∧ ∀ q y, a.at? t q = some y → y.isNamedVar = true →
      y ∉ (a.listing t).takeWhile (· ≠ x) → q = p ∨ LeftOf p q := by
  obtain ⟨p, hp, hright⟩ := wf.exists_leftmost ht hvar hx
  exact ⟨p, ⟨hp, fun q hq => hright q x hq hvar (notMem_takeWhile _ x)⟩, hright⟩

/-! ## Listing -/

/-- THE VARIABLES OF A TERM ARE LISTED, each once and from left to right. -/
theorem WellFormed.listsVariables (wf : a.WellFormed .documented)
    (ht : a.Holds .documented t) : a.ListsVariables t where
  mem x := by
    rw [← Array.mem_toList_iff, wf.namedVars_eq ht, mem_distinctVars, wf.under_iff ht]
  once := by
    rw [wf.namedVars_eq ht]
    exact nodup_distinctVars _
  order i j x y hij hx hy := by
    rw [← Array.getElem?_toList, wf.namedVars_eq ht] at hx hy
    obtain ⟨hxmem, hxvar⟩ := mem_distinctVars.mp (List.mem_of_getElem? hx)
    obtain ⟨hymem, hyvar⟩ := mem_distinctVars.mp (List.mem_of_getElem? hy)
    have hnot : y ∉ (a.listing t).takeWhile (· ≠ x) := by
      intro h
      have hlt := placeIn_lt h hyvar hxmem
      rw [placeIn_of_getElem? hx, placeIn_of_getElem? hy] at hlt
      omega
    obtain ⟨p, hp, hright⟩ := wf.leftmost_of_listing ht hxvar hxmem
    obtain ⟨q, hq, -⟩ := wf.leftmost_of_listing ht hyvar hymem
    refine ⟨p, q, hp, hq, ?_⟩
    rcases hright q y hq.1 hyvar hnot with rfl | hleft
    · -- One position holds one term, and the two have different places.
      have hxy : x = y := Option.some.inj (hp.1.symm.trans hq.1)
      rw [← placeIn_of_getElem? hx, ← placeIn_of_getElem? hy, hxy] at hij
      exact absurd hij (Nat.lt_irrefl _)
    · exact hleft

/-! ## Looking up -/

/-- A named variable has a name, which is no singleton's, and is the variable
of that name only. -/
theorem WellFormed.named_iff (wf : a.WellFormed .documented) (hx : a.Holds .documented x)
    (hvar : x.isNamedVar = true) :
    ∃ name, a.varName x = .ok name ∧ name ≠ "_" ∧ name ≠ "." ∧
      ∀ other, a.isVarNamed other x = true ↔ name = other := by
  cases x with
  | var r =>
    obtain ⟨name, type, hname, hanon, hwhole⟩ := wf.named hx
    refine ⟨name, varName_of_namedVar? hname, hanon, hwhole, fun other => ?_⟩
    rw [isVarNamed, hname, beq_iff_eq]
  | _ => cases hvar

theorem isNamedVar_of_isVarNamed {name : String} (h : a.isVarNamed name x = true) :
    x.isNamedVar = true := by
  cases x with
  | var r => rfl
  | _ => cases h

/-- No named variable answers to the name of the anonymous one. -/
theorem WellFormed.eq_anon_of_answersTo (wf : a.WellFormed .documented)
    (hx : a.Holds .documented x) (h : a.answersTo "_" x = true) : x = .anon := by
  rcases Bool.or_eq_true_iff.mp h with h | h
  · obtain ⟨name, -, hanon, -, hiff⟩ := wf.named_iff hx (isNamedVar_of_isVarNamed h)
    exact absurd ((hiff "_").mp h) hanon
  · cases x with
    | anon => rfl
    | _ => cases h

/-- LOOKUP ANSWERS THE FIRST VARIABLE of the name. -/
theorem WellFormed.findsFirst (wf : a.WellFormed .documented) (ht : a.Holds .documented t) :
    a.FindsFirst t where
  named name hanon hwhole := by
    rw [wf.varNamed?_eq ht hanon hwhole, wf.namedVars_eq ht,
      ← find?_distinctVars fun x => isNamedVar_of_isVarNamed]
    refine List.find?_congr fun x hx => ?_
    obtain ⟨hmem, hvar⟩ := mem_distinctVars.mp hx
    obtain ⟨found, hfound, -, -, hiff⟩ :=
      wf.named_iff (wf.holds_under ht ((wf.under_iff ht).mpr hmem)) hvar
    rw [Bool.eq_iff_iff, hiff, hfound, decide_eq_true_eq, Except.ok.injEq]
  anon := by
    rw [varNamed?, if_neg (by decide), wf.firstNamed_eq_find? ht, wf.under_iff ht]
    constructor
    · exact List.mem_of_find?_eq_some
    · intro hmem
      have hsome := List.find?_isSome.mpr ⟨Term.anon, hmem, show a.answersTo "_" .anon = true from rfl⟩
      obtain ⟨x, hx⟩ := Option.isSome_iff_exists.mp hsome
      have hheld := wf.holds_under ht ((wf.under_iff ht).mpr (List.mem_of_find?_eq_some hx))
      rw [hx, wf.eq_anon_of_answersTo hheld (List.find?_some hx)]
  onlyAnon x hx := by
    rw [varNamed?, if_neg (by decide), wf.firstNamed_eq_find? ht] at hx
    have hheld := wf.holds_under ht ((wf.under_iff ht).mpr (List.mem_of_find?_eq_some hx))
    exact wf.eq_anon_of_answersTo hheld (List.find?_some hx)
  whole := if_pos rfl

/-! ## Normal forms -/

namespace Normalized

variable (h : Normalized a t n b d)
include h

/-- A variable of a normal form is the only one of its name. -/
theorem eq_of_varName {name : String} (hx : x ∈ d.namedVars n) (hy : y ∈ d.namedVars n)
    (hxn : d.varName x = .ok name) (hyn : d.varName y = .ok name) : x = y := by
  obtain ⟨i, hi⟩ := Array.mem_iff_getElem?.mp hx
  obtain ⟨j, hj⟩ := Array.mem_iff_getElem?.mp hy
  obtain rfl := h.once hi hj hxn hyn
  exact Option.some.inj (hi.symm.trans hj)

/-- And it has a name. -/
theorem exists_varName (hx : x ∈ d.namedVars n) :
    ∃ name, d.varName x = .ok name ∧ name ≠ "_" ∧ name ≠ "." := by
  obtain ⟨hunder, hvar⟩ := (h.numbered.wf.listsVariables h.held).mem x |>.mp hx
  obtain ⟨name, hname, hanon, hwhole, -⟩ :=
    h.numbered.wf.named_iff (h.numbered.wf.holds_under h.held hunder) hvar
  exact ⟨name, hname, hanon, hwhole⟩

/-- LOOKUP UNDOES NAMING in a normal form. -/
theorem namesUndone : d.NamesUndone n where
  distinct := by
    refine List.pairwise_map.mpr ?_
    refine (h.numbered.wf.listsVariables h.held).once.imp_of_mem fun {x y} hx hy hne hxy => hne ?_
    rw [Array.mem_toList_iff] at hx hy
    obtain ⟨name, hname, -⟩ := h.exists_varName hx
    exact h.eq_of_varName hx hy hname (hxy ▸ hname)
  found x hx := by
    obtain ⟨name, hname, hanon, hwhole⟩ := h.exists_varName hx
    refine ⟨name, hname, ?_⟩
    rw [(h.numbered.wf.findsFirst h.held).named name hanon hwhole]
    have hsome : ((d.namedVars n).toList.find? fun y => d.varName y = .ok name).isSome = true :=
      List.find?_isSome.mpr ⟨x, Array.mem_toList_iff.mpr hx, decide_eq_true hname⟩
    obtain ⟨y, hy⟩ := Option.isSome_iff_exists.mp hsome
    have hmem := Array.mem_toList_iff.mp (List.mem_of_find?_eq_some hy)
    have hyname := List.find?_some hy
    rw [decide_eq_true_eq] at hyname
    rw [hy, h.eq_of_varName hmem hx hyname hname]

end Normalized

end Arena

/-- LISTING AND LOOKUP AGREE. Of every term of every copy that a host can
reach under documented use: its named variables are listed each once, in the
order of their leftmost occurrences; a name is looked up as the first one
listed of that name; and the anonymous variable is found where it occurs. In
the normal form the names are distinct, and each is looked up as its
variable. -/
theorem Session.Reachable.lookup_agrees {V : Type} {s : Session V}
    (hs : s.Reachable .documented) {c : Copy V} (hc : c ∈ s.copies) {t : Term} (ht : c.Owns t) :
    c.arena.ListsVariables t ∧ c.arena.FindsFirst t ∧
      ∃ n d, Arena.normalize t c.arena = .ok n d ∧ d.ListsVariables n ∧ d.FindsFirst n ∧
        d.NamesUndone n := by
  have wf := (hs.inOrder c hc).1
  have hheld := (hs.inOrder c hc).holds ht
  obtain ⟨n, d, hok, b, h⟩ := (Arena.normalize_ok wf hheld).exists_ok
  refine ⟨wf.listsVariables hheld, wf.findsFirst hheld, n, d, hok, ?_, ?_, h.namesUndone⟩
  · exact h.numbered.wf.listsVariables h.held
  · exact h.numbered.wf.findsFirst h.held

/-- A term in which two variables have one name, of which the first is
found. -/
theorem Session.lookup_agrees_sample :
    Copy.sample.arena.ListsVariables Term.sample ∧ Copy.sample.arena.FindsFirst Term.sample ∧
      ∃ n d, Arena.normalize Term.sample Copy.sample.arena = .ok n d ∧ d.ListsVariables n ∧
        d.FindsFirst n ∧ d.NamesUndone n :=
  Session.Reachable.lookup_agrees reachable_sample (List.mem_singleton_self _) Copy.sample_owns

end TermGraph
