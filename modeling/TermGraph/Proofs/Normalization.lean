import TermGraph.Proofs.Factorization
import TermGraph.Proofs.Numbering

/-!
# Normalization — a frame without gaps

A normal form is factorized and then numbered from zero. Factorization
leaves no index on anything under its result, so numbering visits all of
it; and since one name is one variable there, the places of the variables
are the places of a frame with one slot for each name.

Three algorithms meet here, and each contributes one fact. Collection
takes every index away, whatever earlier operations left. Sharing answers
old nodes that were collected, and new nodes that never had an index. And
numbering leaves alone what has an index, which is nothing.

## What is proved

`Session.Reachable.normalize_numbers` — the places of all variables and
compound terms of a normal form, on any term a host can reach.
-/

namespace TermGraph

namespace Arena

variable {V : Type} {u : Use} {a b d : Arena V} {t n x y : Term}

/-- The variables that a traversal of a term has met, from left to right
and each once, when it comes to the end of the first occurrence of `x`. A
term is listed when the traversal comes to its end. -/
def varsUpTo (a : Arena V) (t x : Term) : List Term :=
  distinctVars ((a.listing t).takeWhile (· ≠ x))

/-- An argument under which a term stands, and none before it. -/
theorem exists_first_argument {args : List Term} (h : x ∈ args.flatMap a.listing) :
    ∃ before arg after, args = before ++ arg :: after ∧ x ∈ a.listing arg ∧
      ∀ s ∈ before, x ∉ a.listing s := by
  obtain ⟨arg, harg, hx⟩ := List.mem_flatMap.mp h
  have hsome : (args.find? fun s => decide (x ∈ a.listing s)).isSome = true :=
    List.find?_isSome.mpr ⟨arg, harg, decide_eq_true hx⟩
  obtain ⟨first, hfirst⟩ := Option.isSome_iff_exists.mp hsome
  obtain ⟨hmem, before, after, hsplit, hbefore⟩ := List.find?_eq_some_iff_append.mp hfirst
  refine ⟨before, first, after, hsplit, of_decide_eq_true hmem, fun s hs => ?_⟩
  have hnot := hbefore s hs
  rw [Bool.not_eq_true', decide_eq_false_iff_not] at hnot
  exact hnot

/-- Up to the first occurrence, a listing goes through whole arguments and
then through a part of one. -/
theorem takeWhile_flatMap {before after : List Term} {arg : Term} (tail : List Term)
    (hx : x ∈ a.listing arg) (hbefore : ∀ s ∈ before, x ∉ a.listing s) :
    ((before ++ arg :: after).flatMap a.listing ++ tail).takeWhile (· ≠ x) =
      before.flatMap a.listing ++ (a.listing arg).takeWhile (· ≠ x) := by
  have hnot : x ∉ before.flatMap a.listing := by
    intro h
    obtain ⟨s, hs, h⟩ := List.mem_flatMap.mp h
    exact hbefore s hs h
  rw [List.flatMap_append, List.flatMap_cons, List.append_assoc, List.append_assoc,
    takeWhile_append_of_notMem hnot, takeWhile_append_of_mem hx]

/-- Everything under a term is met before the first occurrence of the term
ends. -/
theorem WellFormed.mem_takeWhile_listing (wf : a.WellFormed u) (ht : a.Holds u t)
    (hx : x ∈ a.listing t) (hy : a.Under x y) (hyx : y ≠ x) :
    y ∈ (a.listing t).takeWhile (· ≠ x) := by
  revert hx
  refine wf.inductionUnder (P := fun t => x ∈ a.listing t →
    y ∈ (a.listing t).takeWhile (· ≠ x)) ?_ ht
  intro t ht ih hx
  rw [wf.listing_eq] at hx ⊢
  by_cases hfirst : x ∈ (a.argsOrNone t).flatMap a.listing
  · obtain ⟨before, arg, after, hsplit, hxarg, hbefore⟩ := exists_first_argument hfirst
    have hmem : arg ∈ a.argsOrNone t := by
      rw [hsplit]
      exact List.mem_append_right _ List.mem_cons_self
    rw [hsplit, takeWhile_flatMap _ hxarg hbefore]
    exact List.mem_append_right _ (ih arg hmem hxarg)
  · -- The term itself ends last, and everything else is listed before it.
    have hxt : x = t := by
      rcases List.mem_append.mp hx with h | h
      · exact absurd h hfirst
      · exact List.mem_singleton.mp h
    subst hxt
    have hmem := (wf.under_iff ht).mp hy
    rw [wf.listing_eq] at hmem
    have hbefore : y ∈ (a.argsOrNone x).flatMap a.listing := by
      rcases List.mem_append.mp hmem with h | h
      · exact h
      · exact absurd (List.mem_singleton.mp h) hyx
    rw [takeWhile_append_of_notMem hfirst]
    exact List.mem_append_left _ hbefore

/-! ## The normal form -/

/-- What normalization of `t` in `a` leaves: the result `n` and the arena
`d`, numbered after factorization left the arena `b`. -/
structure Normalized (a : Arena V) (t n : Term) (b d : Arena V) : Prop where
  factorized : Factorized a t n b
  numbered : Numbered b 0 (b.listing n) (distinctVars (b.listing n)).length d

/-- THE EFFECT OF NORMALIZATION on a term that the arena holds. -/
theorem normalize_ok (wf : a.WellFormed .documented) (ht : a.Holds .documented t) :
    Ensures (normalize t) a (fun n d => ∃ b, Normalized a t n b d) (fun _ => False) := by
  apply Ensures.bind (factorize_ok wf ht)
  intro n b h
  have hpending : b.pending n = b.listing n := by
    apply h.wf.pending_eq_listing h.held
    intro s hs
    by_cases hslot : s.hasSlot = true
    · rw [skips, hasIndex, h.fresh s hs hslot]
      exact Bool.and_false _
    · rw [skips, Bool.eq_false_iff.mpr hslot, Bool.false_and]
  apply Ensures.bind (number_ok h.wf n h.held (.refl h.wf 0) fun _ hs => by cases hs)
  intro free d hd
  rw [List.nil_append, hpending] at hd
  refine Ensures.answer ⟨b, h, ?_⟩
  have hfree := hd.free_eq
  rw [Nat.zero_add] at hfree
  exact hfree ▸ hd

namespace Normalized

variable (h : Normalized a t n b d)
include h

theorem listing_eq : d.listing n = b.listing n := h.numbered.marks.listing_eq

theorem held : d.Holds .documented n := h.numbered.marks.holds_iff.mpr h.factorized.held

theorem under_iff : d.Under n x ↔ b.Under n x := by
  rw [h.numbered.wf.under_iff h.held, h.listing_eq, ← h.factorized.wf.under_iff h.factorized.held]

theorem varName_eq : d.varName x = b.varName x := by
  rw [h.numbered.marks.tables]
  cases x <;> rfl

theorem namedVars_eq : (d.namedVars n).toList = distinctVars (b.listing n) := by
  rw [h.numbered.wf.namedVars_eq h.held, h.listing_eq]

/-- The place of a variable or a compound term under a normal form. -/
theorem index_eq (hx : b.Under n x) (hslot : x.hasSlot = true) :
    d.index x = .ok (.assigned (d.varsUpTo n x).length) := by
  have hmem := (h.factorized.wf.under_iff h.factorized.held).mp hx
  have hheld := h.factorized.wf.holds_under h.factorized.held hx
  rw [h.numbered.marks.index x hheld, TermGraph.Arena.numbered, if_pos ⟨hmem, hslot⟩, Nat.zero_add,
    varsUpTo, h.listing_eq, placeIn]

/-- A name of the term is the name of a variable of the normal form, and
the other way round. -/
theorem names (wf : a.WellFormed .documented) (ht : a.Holds .documented t) (name : String) :
    (∃ x, a.Under t x ∧ x.isNamedVar = true ∧ a.varName x = .ok name) ↔
      ∃ y, y ∈ distinctVars (b.listing n) ∧ d.varName y = .ok name := by
  have hf := h.factorized
  have htracks := hf.made.tracks
  constructor
  · rintro ⟨x, hx, hvar, hname⟩
    obtain ⟨type, hxn⟩ := wf.namedVar?_of_varName (wf.holds_under ht hx) hvar hname
    obtain ⟨y, hy, hxy⟩ := Matches.exists_under htracks ((hf.ext.under_frozen wf ht).mpr hx)
    cases x with
    | var v =>
      obtain ⟨v', rfl, -, -, found, type₁, type₂, hv, hv', -⟩ := hxy.ofVar
      rw [hf.ext.namedVar?_eq hxn] at hv
      cases hv
      refine ⟨_, mem_distinctVars.mpr ⟨(hf.wf.under_iff hf.held).mp hy, rfl⟩, ?_⟩
      rw [h.varName_eq, varName_of_namedVar? hv']
    | _ => cases hvar
  · rintro ⟨y, hy, hname⟩
    obtain ⟨hmem, hvar⟩ := mem_distinctVars.mp hy
    rw [h.varName_eq] at hname
    obtain ⟨x, hx, hxy⟩ := Matches.exists_under_right htracks
      ((hf.wf.under_iff hf.held).mpr hmem)
    cases hxy with
    | var hpicked =>
      obtain ⟨hsrc, -, found, type₁, type₂, hv, hv', -⟩ := hpicked
      rw [varName_of_namedVar? hv'] at hname
      cases hname
      refine ⟨_, hsrc, rfl, ?_⟩
      rw [hf.ext.namedVar?_frozen (wf.holds_under ht hsrc)] at hv
      exact varName_of_namedVar? hv
    | leaf _ hl _ =>
      cases y with
      | var _ => cases hl
      | _ => cases hvar
    | node _ _ _ _ => cases hvar

/-- The variables of a normal form, in the order in which they are met. -/
theorem getElem?_namedVars (i : Nat) :
    (d.namedVars n)[i]? = (distinctVars (b.listing n))[i]? := by
  rw [← h.namedVars_eq, Array.getElem?_toList]

theorem under_of_namedVar {i : Nat} (hx : (d.namedVars n)[i]? = some x) :
    b.Under n x ∧ x.isNamedVar = true ∧ x.hasSlot = true := by
  rw [h.getElem?_namedVars] at hx
  obtain ⟨hmem, hvar⟩ := mem_distinctVars.mp (List.mem_of_getElem? hx)
  exact ⟨(h.factorized.wf.under_iff h.factorized.held).mpr hmem, hvar,
    Term.hasSlot_of_isNamedVar hvar⟩

/-- The place of a variable is its place among them. -/
theorem place {i : Nat} (hx : (d.namedVars n)[i]? = some x) : d.index x = .ok (.assigned i) := by
  obtain ⟨hunder, -, hslot⟩ := h.under_of_namedVar hx
  rw [h.getElem?_namedVars] at hx
  rw [h.index_eq hunder hslot, varsUpTo, h.listing_eq, ← placeIn, placeIn_of_getElem? hx]

/-- No two of them have one name. -/
theorem once {i j : Nat} {name : String} (hx : (d.namedVars n)[i]? = some x)
    (hy : (d.namedVars n)[j]? = some y) (hxn : d.varName x = .ok name)
    (hyn : d.varName y = .ok name) : i = j := by
  have hf := h.factorized
  obtain ⟨hxu, hxv, -⟩ := h.under_of_namedVar hx
  obtain ⟨hyu, hyv, -⟩ := h.under_of_namedVar hy
  rw [h.varName_eq] at hxn hyn
  obtain ⟨type, hx'⟩ := hf.wf.namedVar?_of_varName (hf.wf.holds_under hf.held hxu) hxv hxn
  obtain ⟨type', hy'⟩ := hf.wf.namedVar?_of_varName (hf.wf.holds_under hf.held hyu) hyv hyn
  obtain rfl := hf.name_unique x y hxu hyu ⟨name, type, type', hx', hy'⟩
  have hi := h.place hx
  rw [h.place hy] at hi
  cases hi
  rfl

/-- A variable under a term is met before the term ends. -/
theorem below {r : Reference} (hr : d.Under n (.compound r)) (hy : d.Under (.compound r) y)
    (hvar : y.isNamedVar = true) :
    ∃ i, i < (d.varsUpTo n (.compound r)).length ∧ d.index y = .ok (.assigned i) := by
  have hwf := h.numbered.wf
  have hr' := (hwf.under_iff h.held).mp hr
  have hy' := (hwf.under_iff h.held).mp (hr.trans hy)
  have hne : y ≠ .compound r := by
    rintro rfl
    cases hvar
  refine ⟨_, ?_, h.index_eq (h.under_iff.mp (hr.trans hy)) (Term.hasSlot_of_isNamedVar hvar)⟩
  exact placeIn_lt (hwf.mem_takeWhile_listing h.held hr' hy hne) hvar hr'

/-- The term itself ends last, after all variables. -/
theorem total {r : Reference} (hn : n = .compound r) :
    d.index n = .ok (.assigned (d.namedVars n).size) := by
  have hwf := h.numbered.wf
  subst hn
  rw [h.index_eq (.refl b _) rfl, ← Array.length_toList, hwf.namedVars_eq h.held, varsUpTo,
    hwf.listing_eq, distinctVars_concat, if_neg (by simp [Term.isNamedVar]),
    List.takeWhile_append_of_pos, List.takeWhile_cons_of_neg (by simp), List.append_nil]
  intro s hs
  obtain ⟨arg, harg, hs⟩ := List.mem_flatMap.mp hs
  obtain ⟨hheld, hlt⟩ := hwf.argsOrNone_sound arg harg
  have hle := (hwf.under_sound hheld ((hwf.under_iff hheld).mpr hs)).2
  rw [decide_eq_true_eq]
  rintro rfl
  omega

end Normalized

/-- The binding frame of a normal form `n`, in the arena `d` after the
call; the term was `t` and the arena `a`. -/
structure NumbersFrame (a : Arena V) (t n : Term) (d : Arena V) : Prop where
  /-- The variables of the normal form have the names of the term. -/
  names : ∀ name, (∃ x, a.Under t x ∧ x.isNamedVar = true ∧ a.varName x = .ok name) ↔
    ∃ (i : Nat) (y : Term), (d.namedVars n)[i]? = some y ∧ d.varName y = .ok name
  /-- No two of them have one name. -/
  once : ∀ (i j : Nat) (x y : Term) (name : String), (d.namedVars n)[i]? = some x →
    (d.namedVars n)[j]? = some y → d.varName x = .ok name → d.varName y = .ok name → i = j
  /-- The place of a variable is its place among them. -/
  place : ∀ (i : Nat) (x : Term), (d.namedVars n)[i]? = some x → d.index x = .ok (.assigned i)
  /-- A compound term records how many were met by its end. -/
  count : ∀ r, d.Under n (.compound r) →
    d.index (.compound r) = .ok (.assigned (d.varsUpTo n (.compound r)).length)
  /-- So the variables under it have smaller places. -/
  below : ∀ r y, d.Under n (.compound r) → d.Under (.compound r) y → y.isNamedVar = true →
    ∃ i, i < (d.varsUpTo n (.compound r)).length ∧ d.index y = .ok (.assigned i)
  /-- A compound normal form records how many there are. -/
  total : ∀ r, n = .compound r → d.index n = .ok (.assigned (d.namedVars n).size)

theorem Normalized.numbersFrame (h : Normalized a t n b d) (wf : a.WellFormed .documented)
    (ht : a.Holds .documented t) : NumbersFrame a t n d where
  names name := by
    rw [h.names wf ht]
    constructor
    · rintro ⟨y, hy, hname⟩
      obtain ⟨i, hi⟩ := List.mem_iff_getElem?.mp hy
      exact ⟨i, y, (h.getElem?_namedVars i).trans hi, hname⟩
    · rintro ⟨i, y, hy, hname⟩
      rw [h.getElem?_namedVars] at hy
      exact ⟨y, List.mem_of_getElem? hy, hname⟩
  once i j x y name hx hy hxn hyn := h.once hx hy hxn hyn
  place i x hx := h.place hx
  count r hr := h.index_eq (h.under_iff.mp hr) rfl
  below r y hr hy hvar := h.below hr hy hvar
  total r hn := h.total hn

/-- A held term that is neither a named variable nor a compound node has no
place. -/
theorem WellFormed.index_ne_assigned (wf : a.WellFormed .documented)
    (hx : a.Holds .documented x) (hslot : x.hasSlot = false) (i : Nat) :
    a.index x ≠ .ok (.assigned i) := by
  intro hi
  cases x with
  | var _ | compound _ => cases hslot
  | payload r =>
    rw [(wf.carried hx).2] at hi
    cases hi
  | _ => cases hi

end Arena

/-- NORMALIZATION NUMBERS THE BINDING FRAME. On every term of every copy
that a host can reach it succeeds, whatever indexes there were. The normal
form has one variable for each name, numbered in the order in which they
are met; and nothing but variables and compound terms has a number. -/
theorem Session.Reachable.normalize_numbers {V : Type} {s : Session V}
    (hs : s.Reachable .documented) {c : Copy V} (hc : c ∈ s.copies) {t : Term} (ht : c.Owns t) :
    ∃ n d, Arena.normalize t c.arena = .ok n d ∧ Arena.NumbersFrame c.arena t n d ∧
      ∀ x i, c.Owns x ∨ d.Under n x → x.hasSlot = false → d.index x ≠ .ok (.assigned i) := by
  have wf := (hs.inOrder c hc).1
  have hheld := (hs.inOrder c hc).holds ht
  obtain ⟨n, d, hok, b, h⟩ := (Arena.normalize_ok wf hheld).exists_ok
  refine ⟨n, d, hok, h.numbersFrame wf hheld, fun x i hx hslot => ?_⟩
  refine h.numbered.wf.index_ne_assigned ?_ hslot i
  rcases hx with hx | hx
  · exact (((hs.inOrder c hc).holds hx).extends h.factorized.ext).extends
      h.numbered.marks.toExtends
  · exact h.numbered.wf.holds_under h.held hx

/-- A term in which two variables have one name and nothing has an index. -/
theorem Session.normalize_numbers_sample :
    ∃ n d, Arena.normalize Term.sample Copy.sample.arena = .ok n d ∧
      Arena.NumbersFrame Copy.sample.arena Term.sample n d ∧
      ∀ x i, Copy.sample.Owns x ∨ d.Under n x → x.hasSlot = false →
        d.index x ≠ .ok (.assigned i) :=
  Session.Reachable.normalize_numbers reachable_sample (List.mem_singleton_self _)
    Copy.sample_owns

end TermGraph
