import TermGraph.Proofs.Confinement
import TermGraph.Proofs.Normalization

/-!
# Renumbering — a normal form after another normalization

A frame for a normal form has as many slots as the form records, and every
variable under it has a slot of its own. The places are kept in the nodes,
and two terms may share nodes. So normalizing a second term may take the
frame of the first one apart: the places of what the two share are taken
away, and given anew as the second term counts.

What decides is how the second term overlaps with the normal form:

- the form stands under the second NORMAL FORM: then its frame is a part of
  the new numbering;
- the form stands under the second term and was replaced: then it records
  nothing any more, and a frame fits only if it has no variables;
- it does not stand under the second term: then what it records is as it
  was, and so are the places of the variables that the second term leaves
  alone; the others must share the slots they had among themselves.

## What is proved

`Session.Reachable.renumbered_iff` — these are all the cases in which the
frame still fits, for any two terms of a copy that a host can reach.
-/

namespace TermGraph

namespace Arena

variable {V : Type} {a b b' d e : Arena V} {t n x y : Term} {r : Reference}

/-! ## Frames -/

/-- A frame with as many slots as the term records has one for every
variable under the term, and no slot for two. -/
structure FitsFrame (a : Arena V) (n : Term) : Prop where
  below : ∀ x, a.Under n x → x.isNamedVar = true →
    ∃ i k, a.index x = .ok (.assigned i) ∧ a.index n = .ok (.assigned k) ∧ i < k
  apart : ∀ x y i, a.Under n x → a.Under n y → x.isNamedVar = true → y.isNamedVar = true →
    a.index x = .ok (.assigned i) → a.index y = .ok (.assigned i) → x = y

/-- Each variable that the terms `n` and `t` share has a place in the arena
`e` that one of these variables had in the arena `d`. -/
def KeepsPlaces (d e : Arena V) (n t : Term) : Prop :=
  ∀ x, d.Under n x → d.Under t x → x.isNamedVar = true →
    ∃ y i, d.Under n y ∧ d.Under t y ∧ y.isNamedVar = true ∧
      d.index y = .ok (.assigned i) ∧ e.index x = .ok (.assigned i)

/-- A term without variables fits every frame. -/
theorem FitsFrame.ofGround (h : ∀ x, a.Under n x → x.isNamedVar = false) : a.FitsFrame n where
  below x hx hvar := by
    rw [h x hx] at hvar
    cases hvar
  apart x _ _ hx _ hvar := by
    rw [h x hx] at hvar
    cases hvar

namespace Normalized

section Frame

variable (h : Normalized a t n b d)
include h

theorem toExtends : a.Extends d := h.factorized.ext.trans h.numbered.marks.toExtends

/-- A variable under a normal form is one of its variables. -/
theorem exists_place (hx : d.Under n x) (hvar : x.isNamedVar = true) :
    ∃ i : Nat, (d.namedVars n)[i]? = some x := by
  have hmem := (h.factorized.wf.under_iff h.factorized.held).mp (h.under_iff.mp hx)
  obtain ⟨i, hi⟩ := List.mem_iff_getElem?.mp (mem_distinctVars.mpr ⟨hmem, hvar⟩)
  exact ⟨i, (h.getElem?_namedVars i).trans hi⟩

/-- Variables under a normal form have different places. -/
theorem apart (hx : d.Under n x) (hy : d.Under n y) (hxv : x.isNamedVar = true)
    (hyv : y.isNamedVar = true) {i : Nat} (hxi : d.index x = .ok (.assigned i))
    (hyi : d.index y = .ok (.assigned i)) : x = y := by
  obtain ⟨j, hxj⟩ := h.exists_place hx hxv
  obtain ⟨k, hyk⟩ := h.exists_place hy hyv
  have hji := (h.place hxj).symm.trans hxi
  have hki := (h.place hyk).symm.trans hyi
  cases hji
  cases hki
  exact Option.some.inj (hxj.symm.trans hyk)

/-- Whatever stands under a normal form has a frame that fits. -/
theorem fitsFrame (hr : d.Under n (.compound r)) : d.FitsFrame (.compound r) where
  below x hx hvar := by
    obtain ⟨i, hlt, hi⟩ := h.below hr hx hvar
    exact ⟨i, _, hi, h.index_eq (h.under_iff.mp hr) rfl, hlt⟩
  apart x y i hx hy hxv hyv hxi hyi := h.apart (hr.trans hx) (hr.trans hy) hxv hyv hxi hyi

/-- What stands under the term and has a place still stands under its normal
form too: collection took all places away. -/
theorem under_of_assigned (wf : a.WellFormed .documented) (ht : a.Holds .documented t)
    (hx : a.Under t x) (hslot : x.hasSlot = true) {i : Nat} (hi : d.index x = .ok (.assigned i)) :
    d.Under n x := by
  have hf := h.factorized
  by_contra hnot
  have hlisted : x ∉ b.listing n := fun hmem =>
    hnot (h.under_iff.mpr ((hf.wf.under_iff hf.held).mpr hmem))
  rw [h.numbered.marks.index x ((wf.holds_under ht hx).extends hf.ext),
    TermGraph.Arena.numbered, if_neg fun hmem => hlisted hmem.1] at hi
  cases (hf.sources x hx hslot).symm.trans hi

end Frame

/-- A compound normal form records how many variables there are, and each
smaller place is that of a variable. -/
theorem exists_slots (h : Normalized a t (.compound r) b d) :
    ∃ k, d.index (.compound r) = .ok (.assigned k) ∧ ∀ i < k, ∃ y,
      d.Under (.compound r) y ∧ y.isNamedVar = true ∧ d.index y = .ok (.assigned i) := by
  refine ⟨_, h.total rfl, fun i hi => ?_⟩
  have hy := Array.getElem?_eq_getElem hi
  obtain ⟨hunder, hvar, -⟩ := h.under_of_namedVar hy
  exact ⟨_, h.under_iff.mpr hunder, hvar, h.place hy⟩

end Normalized

/-- Normalization leaves alone what does not stand under the term. -/
theorem normalize_index_eq (wf : a.WellFormed .documented) (ht : a.Holds .documented t)
    (hok : normalize t a = .ok n d) (hx : a.Holds .documented x) (hnot : ¬a.Under t x) :
    d.index x = a.index x := by
  have hrun := (Operation.normalize t).run_confined wf {} (fun s hs => by
    obtain rfl := List.mem_singleton.mp hs
    exact ht.permits) hx
  simp only [Operation.run, Operation.handOut, hok] at hrun
  by_contra hne
  obtain ⟨t', y, hop, hy, -, heq⟩ := hrun.index hne
  cases hop
  exact hnot (heq rfl ▸ hy)

/-- A variable with the place of a shared variable is shared. -/
theorem KeepsPlaces.shared {s : Term} (h : d.KeepsPlaces e n s) (hfits : d.FitsFrame n)
    (hsame : ∀ x, d.Under n x → ¬d.Under s x → e.index x = d.index x) (hx : d.Under n x)
    (hy : d.Under n y) (hxv : x.isNamedVar = true) (hyv : y.isNamedVar = true) {i : Nat}
    (hxi : e.index x = .ok (.assigned i)) (hyi : e.index y = .ok (.assigned i))
    (hxs : d.Under s x) : d.Under s y := by
  by_contra hys
  obtain ⟨z, j, hz, hzs, hzv, hzj, hxj⟩ := h x hx hxs hxv
  rw [hxi] at hxj
  cases hxj
  rw [hsame y hy hys] at hyi
  exact hys (hfits.apart z y i hz hy hzv hyv hzj hyi ▸ hzs)

/-! ## The second normalization -/

section Twice

variable {s q : Term} (h : Normalized a t (.compound r) b d) (k : Normalized d s q b' e)
include h k

/-- If the form stands under the second term, and not under its normal
form, then only a form without variables fits. -/
theorem FitsFrame.ground_of_under (hs : d.Holds .documented s) (hfit : e.FitsFrame (.compound r))
    (hunder : d.Under s (.compound r)) (hnot : ¬e.Under q (.compound r)) (x : Term)
    (hx : d.Under (.compound r) x) : x.isNamedVar = false := by
  by_contra hvar
  rw [Bool.not_eq_false] at hvar
  have hx' := (k.toExtends.under_frozen h.numbered.wf h.held).mpr hx
  obtain ⟨i, count, -, hcount, -⟩ := hfit.below x hx' hvar
  exact hnot (k.under_of_assigned h.numbered.wf hs hunder rfl hcount)

variable (hsame : ∀ x, d.Under (.compound r) x → ¬d.Under s x → e.index x = d.index x)
  (hnot : ¬d.Under s (.compound r))
include hsame hnot

/-- Otherwise the variables that the two terms share must have kept their
places among themselves. -/
theorem FitsFrame.keepsPlaces (hfit : e.FitsFrame (.compound r)) :
    d.KeepsPlaces e (.compound r) s := by
  intro x hx hxs hvar
  have hunder : ∀ y, e.Under (.compound r) y ↔ d.Under (.compound r) y := fun y =>
    k.toExtends.under_frozen h.numbered.wf h.held
  obtain ⟨count, hcount, hslots⟩ := h.exists_slots
  obtain ⟨i, count', hi, hcount', hlt⟩ := hfit.below x ((hunder x).mpr hx) hvar
  rw [hsame _ (.refl d _) hnot, hcount] at hcount'
  cases hcount'
  obtain ⟨y, hy, hyv, hyi⟩ := hslots i hlt
  refine ⟨y, i, hy, ?_, hyv, hyi, hi⟩
  -- A variable that was left alone has the place still, and is not `x`.
  by_contra hys
  have hyi' := (hsame y hy hys).trans hyi
  have heq := hfit.apart x y i ((hunder x).mpr hx) ((hunder y).mpr hy) hvar hyv hi hyi'
  exact hys (heq ▸ hxs)

/-- And this is enough. -/
theorem KeepsPlaces.fitsFrame (hs : d.Holds .documented s)
    (hkeeps : d.KeepsPlaces e (.compound r) s) : e.FitsFrame (.compound r) := by
  have hunder : ∀ y, e.Under (.compound r) y ↔ d.Under (.compound r) y := fun y =>
    k.toExtends.under_frozen h.numbered.wf h.held
  have hfits : d.FitsFrame (.compound r) := h.fitsFrame (.refl d _)
  have hcount := hsame _ (.refl d _) hnot
  refine ⟨fun x hx hvar => ?_, fun x y i hx hy hxv hyv hxi hyi => ?_⟩
  · rw [hunder] at hx
    rw [hcount]
    by_cases hxs : d.Under s x
    · obtain ⟨y, i, hy, -, hyv, hyi, hxi⟩ := hkeeps x hx hxs hvar
      obtain ⟨i', count, hyi', hcount', hlt⟩ := hfits.below y hy hyv
      rw [hyi] at hyi'
      cases hyi'
      exact ⟨i, count, hxi, hcount', hlt⟩
    · rw [hsame x hx hxs]
      exact hfits.below x hx hvar
  · rw [hunder] at hx hy
    -- Of two variables with one place, both were left alone or none was.
    by_cases hxs : d.Under s x
    · have hys := hkeeps.shared hfits hsame hx hy hxv hyv hxi hyi hxs
      have hxq := k.under_of_assigned h.numbered.wf hs hxs (Term.hasSlot_of_isNamedVar hxv) hxi
      have hyq := k.under_of_assigned h.numbered.wf hs hys (Term.hasSlot_of_isNamedVar hyv) hyi
      exact k.apart hxq hyq hxv hyv hxi hyi
    · have hys : ¬d.Under s y := fun hys =>
        hxs (hkeeps.shared hfits hsame hy hx hyv hxv hyi hxi hys)
      rw [hsame x hx hxs] at hxi
      rw [hsame y hy hys] at hyi
      exact hfits.apart x y i hx hy hxv hyv hxi hyi

end Twice

/-- WHEN A NORMAL FORM STILL FITS ITS FRAME after a second
normalization. -/
theorem Normalized.fitsFrame_iff {s q : Term} (h : Normalized a t (.compound r) b d)
    (k : Normalized d s q b' e) (hs : d.Holds .documented s)
    (hsame : ∀ x, d.Under (.compound r) x → ¬d.Under s x → e.index x = d.index x) :
    e.FitsFrame (.compound r) ↔ (∀ x, d.Under (.compound r) x → x.isNamedVar = false) ∨
      e.Under q (.compound r) ∨
        ¬d.Under s (.compound r) ∧ d.KeepsPlaces e (.compound r) s := by
  constructor
  · intro hfit
    by_cases hq : e.Under q (.compound r)
    · exact .inr (.inl hq)
    by_cases hunder : d.Under s (.compound r)
    · exact .inl (hfit.ground_of_under h k hs hunder hq)
    · exact .inr (.inr ⟨hunder, hfit.keepsPlaces h k hsame hunder⟩)
  · rintro (hground | hq | ⟨hnot, hkeeps⟩)
    · refine .ofGround fun x hx => hground x ?_
      exact (k.toExtends.under_frozen h.numbered.wf h.held).mp hx
    · exact k.fitsFrame hq
    · exact hkeeps.fitsFrame h k hsame hnot hs

end Arena

/-- A NORMAL FORM KEEPS A FRAME THAT FITS exactly if it has no variables,
or stands under the next normal form, or does not stand under the next
term and the variables that the two share keep their places among
themselves. This holds of any two terms of every copy that a host can
reach, normalized one after the other. -/
theorem Session.Reachable.renumbered_iff {V : Type} {s : Session V}
    (hs : s.Reachable .documented) {c : Copy V} (hc : c ∈ s.copies) {t : Term} (ht : c.Owns t) :
    ∃ n d, Arena.normalize t c.arena = .ok n d ∧ ∀ r q, n = .compound r →
      (c.after s.supply (.normalize t)).Owns q →
        ∃ m e, Arena.normalize q d = .ok m e ∧
          (e.FitsFrame n ↔ (∀ x, d.Under n x → x.isNamedVar = false) ∨ e.Under m n ∨
            ¬d.Under q n ∧ d.KeepsPlaces e n q) := by
  have horder := hs.inOrder c hc
  have hheld := horder.holds ht
  obtain ⟨n, d, hok, b, h⟩ := (Arena.normalize_ok horder.1 hheld).exists_ok
  refine ⟨n, d, hok, ?_⟩
  rintro r q rfl hq
  have hafter : (c.after s.supply (.normalize t)).arena = d := by
    simp only [Copy.after, Operation.run, Operation.handOut, hok]
  have hadmits : ∀ u ∈ (Operation.normalize t : Operation V).given, c.Admits .documented u := by
    intro u hu _
    obtain rfl := List.mem_singleton.mp hu
    exact ht.imp_right fun hissued => .inl hissued.1
  have hqd := (horder.after s.supply _ hadmits).holds hq
  rw [hafter] at hqd
  obtain ⟨m, e, hok', b', k⟩ := (Arena.normalize_ok h.numbered.wf hqd).exists_ok
  refine ⟨m, e, hok', h.fitsFrame_iff k hqd fun x hx hnot => ?_⟩
  exact Arena.normalize_index_eq h.numbered.wf hqd hok' (h.numbered.wf.holds_under h.held hx) hnot

/-! ## Two terms with a common variable -/

/-- The operations that build `f(X, Y)` and `g(Y)`. -/
def Operation.overlapping : List (Operation Scalar) :=
  [.declareVar "X" .term, .declareVar "Y" .term,
    .compound "f" [.var ⟨⟨0⟩, 0⟩, .var ⟨⟨0⟩, 1⟩], .compound "g" [.var ⟨⟨0⟩, 1⟩]]

/-- The copy in which they were built. -/
def Copy.overlapping : Copy Scalar :=
  ((Copy.blank ⟨0⟩).afterAll {} Operation.overlapping).1

/-- The handle of `f(X, Y)`. -/
def Term.overlapped : Term := .compound ⟨⟨0⟩, 2⟩

/-- The handle of `g(Y)`. -/
def Term.overlapping : Term := .compound ⟨⟨0⟩, 3⟩

theorem Session.reachable_overlapping :
    Session.Reachable .documented ⟨[Copy.overlapping], {}⟩ :=
  reachable_alone ⟨0⟩ Operation.overlapping (by decide +kernel)

/-- `f(X, Y)` is its own normal form, and `g(Y)` is normalized after it. -/
theorem Session.renumbered_sample :
    ∃ d m e, Arena.normalize Term.overlapped Copy.overlapping.arena = .ok Term.overlapped d ∧
      Arena.normalize Term.overlapping d = .ok m e ∧
      (e.FitsFrame Term.overlapped ↔ (∀ x, d.Under Term.overlapped x → x.isNamedVar = false) ∨
        e.Under m Term.overlapped ∨ ¬d.Under Term.overlapping Term.overlapped ∧
          d.KeepsPlaces e Term.overlapped Term.overlapping) := by
  obtain ⟨n, d, hok, h⟩ := Session.Reachable.renumbered_iff reachable_overlapping
    (List.mem_singleton_self _) (t := Term.overlapped) (by decide +kernel)
  have hself : (match Arena.normalize Term.overlapped Copy.overlapping.arena with
      | .ok n _ => n == Term.overlapped
      | .error _ _ => false) = true := by decide +kernel
  simp only [hok, beq_iff_eq] at hself
  subst hself
  obtain ⟨m, e, hok', hiff⟩ := h _ Term.overlapping rfl (by decide +kernel)
  exact ⟨d, m, e, hok, hok', hiff⟩

/-- The frame does not fit any more: `X` and `Y` have one place. -/
theorem Session.renumbered_overlaps :
    ¬∀ s : Session Scalar, s.Reachable .documented → ∀ c ∈ s.copies, ∀ t q, c.Owns t → c.Owns q →
      ∀ r d m e, Arena.normalize t c.arena = .ok (.compound r) d → Arena.normalize q d = .ok m e →
        e.FitsFrame (.compound r) := by
  intro hclaim
  let x : Term := .var ⟨⟨0⟩, 0⟩
  let y : Term := .var ⟨⟨0⟩, 1⟩
  have hrun : (match Arena.normalize Term.overlapped Copy.overlapping.arena with
      | .ok n d =>
        match Arena.normalize Term.overlapping d with
        | .ok _ e => n == Term.overlapped && e.argsOrNone Term.overlapped == [x, y] &&
            decide (e.index x = .ok (.assigned 0)) && decide (e.index y = .ok (.assigned 0))
        | .error _ _ => false
      | .error _ _ => false) = true := by decide +kernel
  split at hrun
  · next n d hok =>
    split at hrun
    · next m e hok' =>
      simp only [Bool.and_eq_true, beq_iff_eq, decide_eq_true_eq] at hrun
      obtain ⟨⟨⟨rfl, hargs⟩, hx⟩, hy⟩ := hrun
      have hfits := hclaim _ reachable_overlapping _ (List.mem_singleton_self _)
        Term.overlapped Term.overlapping (by decide +kernel) (by decide +kernel) _ d m e hok hok'
      have hunder : ∀ v ∈ [x, y], e.Under Term.overlapped v :=
        fun v hv => .arg (hargs ▸ hv) (.refl e v)
      have heq := hfits.apart x y 0 (hunder x (by decide)) (hunder y (by decide)) rfl rfl hx hy
      exact absurd heq (by decide)
    · cases hrun
  · cases hrun

end TermGraph
