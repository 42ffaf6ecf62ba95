import TermGraph.Proofs.Normalization

/-!
# Equalities — where the two comparisons are one

The two equalities differ on variables only. Equality in shape asks for
ONE variable; equality in value asks for one name and one index. So two
variables of one name and one index are equal in value and not in shape,
and terms over them inherit that.

Where one name is one variable there are no two such variables, and the
comparisons agree. Everything else they treat alike: zeros, values that
are not numbers, payloads, and control constants that stand opposite
compound nodes.

Normalization brings a term there. Its numbering changes indexes, and
agreement does not depend on them: a variable has the index that it has.

## What is proved

`WellFormed.valueEqual_eq_structurallyEqual` — the comparisons agree under a term in
which one name is one variable. `Session.Reachable.equalities_agree` — so
they do under the normal form of any term a host can reach.
-/

namespace TermGraph

namespace Arena

variable {V : Type} [Payload V] {a : Arena V} {r s t x y : Term}

/-! ## One level -/

/-- Variables that are one if they have one name are compared alike. -/
theorem valueStep_of_isVar {recur recur' : Term → Term → Bool} {v v' : Reference}
    (hname : a.SameName (.var v) (.var v') → Term.var v = .var v') :
    a.valueStep recur (.var v) (.var v') = a.structuralStep recur' (.var v) (.var v') := by
  have hshape : a.structuralStep recur' (.var v) (.var v') = (Term.var v).same (.var v') :=
    Bool.or_false _
  have hcontained : ∀ name type name' type', a.namedVar? (.var v) = some (name, type) →
      a.namedVar? (.var v') = some (name', type') → (name == name') = true →
      (Term.var v).same (.var v') = true := by
    intro name type name' type' hs ht heq
    obtain rfl := beq_iff_eq.mp heq
    rw [hname ⟨name, type, type', hs, ht⟩, Term.same_self]
  rw [hshape, valueStep]
  split
  · next name type name' type' hs ht =>
    exact Bool.or_eq_left_iff_imp.mpr fun h =>
      hcontained name type name' type' hs ht (Bool.and_eq_true_iff.mp h).1
  · exact Bool.or_false _

/-- Compound terms are compared by their shapes, in value and in shape. -/
theorem valueStep_of_isCompound {recur : Term → Term → Bool}
    (h : (s.isCompound && t.isCompound) = true) :
    a.valueStep recur s t = a.structuralStep recur s t := by
  unfold valueStep structuralStep
  congr 1
  split
  · cases h
  · rw [if_pos h]
    split
    · cases h
    · cases h
    · rw [h, Bool.true_and]

/-- Equality in value asks equality in shape about all other pairs. -/
theorem valueStep_of_other {recur : Term → Term → Bool}
    (hvar : ∀ v v', s = .var v → t ≠ .var v') (h : (s.isCompound && t.isCompound) = false) :
    a.valueStep recur s t = a.structurallyEqual s t := by
  unfold valueStep
  split
  · exact absurd rfl (hvar _ _ rfl)
  · rw [if_neg (Bool.eq_false_iff.mp h)]
    exact Bool.or_eq_right_iff_imp.mpr fun h => a.structurallyEqual_of_twin (.inl h)

/-- What arguments are asked matters to shapes only. -/
theorem structuralStep_congr {recur recur' : Term → Term → Bool}
    (h : ∀ x ∈ a.argsOrNone s, ∀ y ∈ a.argsOrNone t, recur x y = recur' x y) :
    a.structuralStep recur s t = a.structuralStep recur' s t := by
  unfold structuralStep
  rw [sameShape_congr h]

/-! ## All levels -/

/-- WHERE ONE NAME IS ONE VARIABLE, under a term, the comparisons agree. By
induction on the first of the two terms: the arguments of both are under
the term. -/
theorem WellFormed.valueEqual_eq_structurallyEqual (wf : a.WellFormed .documented)
    (hr : a.Holds .documented r)
    (hunique : ∀ x y, a.Under r x → a.Under r y → a.SameName x y → x = y) (hx : a.Under r x)
    (hy : a.Under r y) : a.valueEqual x y = a.structurallyEqual x y := by
  refine wf.inductionUnder (P := fun x => ∀ y, a.Under r x → a.Under r y →
    a.valueEqual x y = a.structurallyEqual x y) ?_ (wf.holds_under hr hx) y hx hy
  intro x _ ih y hx hy
  rw [valueEqual_eq]
  by_cases hcompound : (x.isCompound && y.isCompound) = true
  · rw [valueStep_of_isCompound hcompound, structurallyEqual_eq]
    refine structuralStep_congr fun arg harg arg' harg' => ?_
    rw [if_pos (wf.argsOrNone_sound arg harg).2, if_pos (wf.argsOrNone_sound arg harg).2]
    exact ih arg harg arg' (hx.trans (.arg harg (.refl a arg)))
      (hy.trans (.arg harg' (.refl a arg')))
  · by_cases hvar : ∃ v v', x = .var v ∧ y = .var v'
    · obtain ⟨v, v', rfl, rfl⟩ := hvar
      rw [structurallyEqual_eq]
      exact valueStep_of_isVar (hunique _ _ hx hy)
    · exact valueStep_of_other (fun v v' hv hv' => hvar ⟨v, v', hv, hv'⟩)
        (Bool.eq_false_iff.mpr hcompound)

/-- So they agree under a normal form. -/
theorem Normalized.valueEqual_eq_structurallyEqual {b d : Arena V} {n : Term}
    (h : Normalized a t n b d) (hx : d.Under n x) (hy : d.Under n y) :
    d.valueEqual x y = d.structurallyEqual x y := by
  refine h.numbered.wf.valueEqual_eq_structurallyEqual h.held (fun x y hx hy hxy => ?_) hx hy
  rw [h.numbered.marks.tables] at hxy
  exact h.factorized.name_unique x y (h.under_iff.mp hx) (h.under_iff.mp hy) hxy

end Arena

/-- THE EQUALITIES AGREE ON A NORMAL FORM. Normalization succeeds on every
term of every copy that a host can reach; right after it, any two terms
under the normal form are equal in value if and only if they are equal in
shape, whatever reals, payloads and repeated names the term contains. -/
theorem Session.Reachable.equalities_agree {V : Type} [Payload V] {s : Session V}
    (hs : s.Reachable .documented) {c : Copy V} (hc : c ∈ s.copies) {t : Term} (ht : c.Owns t) :
    ∃ n d, Arena.normalize t c.arena = .ok n d ∧
      ∀ x y, d.Under n x → d.Under n y → d.valueEqual x y = d.structurallyEqual x y := by
  obtain ⟨n, d, hok, b, h⟩ :=
    (Arena.normalize_ok (hs.inOrder c hc).1 ((hs.inOrder c hc).holds ht)).exists_ok
  exact ⟨n, d, hok, fun x y hx hy => h.valueEqual_eq_structurallyEqual hx hy⟩

/-- A term in which two variables have one name, so that the equalities
disagree on it before. -/
theorem Session.equalities_agree_sample :
    ∃ n d, Arena.normalize Term.sample Copy.sample.arena = .ok n d ∧
      ∀ x y, d.Under n x → d.Under n y → d.valueEqual x y = d.structurallyEqual x y :=
  Session.Reachable.equalities_agree reachable_sample (List.mem_singleton_self _)
    Copy.sample_owns

end TermGraph
