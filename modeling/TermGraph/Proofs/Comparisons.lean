import TermGraph.Proofs.Confinement
import TermGraph.Proofs.Equalities

/-!
# Comparisons — both equalities are equivalences

The two equalities decide some pairs AT ONCE: handles that are twins,
payloads whose values are the same, and, for equality in value, variables
of one name and one index. All other pairs are compared BY SHAPE, compound
terms by their functors and then, in pairs, by their arguments.

What is decided at once is an equivalence, and it relates a compound term
to nothing but itself. That is all it takes: `ComparesShapes` says it of
any relation, and the three laws follow by induction along arguments. So
no case of one kind against another has to be looked at twice, and zeros,
values that are not numbers and handles that do not resolve need no case
of their own: they are twins of themselves or of one another, or of
nothing.

Reflexivity asks nothing of payloads, because a handle is a twin of itself
whatever value it carries. Symmetry and transitivity are inherited from
the values.

## What is proved

`ComparesShapes.equivalence` — a relation that compares shapes is an
equivalence, in every well-formed arena. `ComparesShapes.frozen` — its
answer on handles that resolve is the same in every extension.
`Session.Reachable.equalities_equivalence` — so it is for both equalities,
in every arena a host can reach, and no operation changes what equality in
shape says of two handles that resolve.
-/

namespace TermGraph

variable {V : Type} {u : Use}

namespace Arena

variable {a b : Arena V} {atOnce atOnce' rel rel' linked : Term → Term → Prop} {s t x : Term}

/-! ## Comparing by shape -/

/-- The relation compares by shape what is not related at once. -/
structure ComparesShapes (a : Arena V) (atOnce rel : Term → Term → Prop) : Prop where
  iff : ∀ s t, rel s t ↔ atOnce s t ∨ ∃ f ss ts, a.shell? s = some (f, ss) ∧
    a.shell? t = some (f, ts) ∧ List.Forall₂ rel ss ts
  equivalence_atOnce : Equivalence atOnce
  /-- A compound term is related at once to itself alone. -/
  alone : ∀ s t shell, atOnce s t → a.shell? s = some shell → s = t

namespace ComparesShapes

theorem refl (h : a.ComparesShapes atOnce rel) (t : Term) : rel t t :=
  (h.iff t t).mpr (.inl (h.equivalence_atOnce.refl t))

/-- What holds of the arguments of a shell in pairs holds of lower terms. -/
theorem lower {shell : String × List Term} (wf : a.WellFormed u)
    (hs : a.shell? s = some shell) : ∀ x ∈ shell.2, x.height < s.height :=
  fun x hx => (wf.args_sound (args_of_shell? hs) x hx).2

theorem symm (wf : a.WellFormed u) (h : a.ComparesShapes atOnce rel) (hst : rel s t) :
    rel t s := by
  induction s using Term.byHeight generalizing t with
  | step s ih =>
    rcases (h.iff s t).mp hst with hat | ⟨f, ss, ts, hs, ht, hall⟩
    · exact (h.iff t s).mpr (.inl (h.equivalence_atOnce.symm hat))
    · refine (h.iff t s).mpr (.inr ⟨f, ts, ss, ht, hs, List.Forall₂.flip ?_⟩)
      exact forall₂_imp_of_mem hall fun x y hx _ hxy => ih x (lower wf hs x hx) hxy

theorem trans (wf : a.WellFormed u) (h : a.ComparesShapes atOnce rel) (hst : rel s t)
    (htx : rel t x) : rel s x := by
  induction s using Term.byHeight generalizing t x with
  | step s ih =>
    rcases (h.iff s t).mp hst with hat | ⟨f, ss, ts, hs, ht, hall⟩
    · rcases (h.iff t x).mp htx with hat' | ⟨f, ts, xs, ht, hx, hall⟩
      · exact (h.iff s x).mpr (.inl (h.equivalence_atOnce.trans hat hat'))
      · obtain rfl := h.alone t s _ (h.equivalence_atOnce.symm hat) ht
        exact htx
    · rcases (h.iff t x).mp htx with hat | ⟨g, ts', xs, ht', hx, hall'⟩
      · obtain rfl := h.alone t x _ hat ht
        exact hst
      · rw [ht] at ht'
        cases ht'
        have hpairs : List.Forall₂ (fun p q => ∀ r, rel q r → rel p r) ss ts :=
          forall₂_imp_of_mem hall fun p q hp _ hpq r => ih p (lower wf hs p hp) hpq
        exact (h.iff s x).mpr (.inr ⟨f, ss, xs, hs, hx,
          forall₂_comp hpairs hall' fun p q r hpq => hpq r⟩)

/-- A RELATION THAT COMPARES SHAPES IS AN EQUIVALENCE. -/
theorem equivalence (wf : a.WellFormed u) (h : a.ComparesShapes atOnce rel) : Equivalence rel :=
  ⟨h.refl, h.symm wf, h.trans wf⟩

/-- Two terms with shells are related if and only if their shells are. -/
theorem shells (h : a.ComparesShapes atOnce rel) {f g : String} {ss ts : List Term}
    (hs : a.shell? s = some (f, ss)) (ht : a.shell? t = some (g, ts)) :
    rel s t ↔ f = g ∧ List.Forall₂ rel ss ts := by
  constructor
  · intro hst
    rcases (h.iff s t).mp hst with hat | ⟨f', ss', ts', hs', ht', hall⟩
    · obtain rfl := h.alone s t _ hat hs
      rw [hs] at ht
      cases ht
      exact ⟨rfl, List.forall₂_same.mpr fun p _ => h.refl p⟩
    · rw [hs] at hs'
      rw [ht] at ht'
      cases hs'
      cases ht'
      exact ⟨rfl, hall⟩
  · rintro ⟨rfl, hall⟩
    exact (h.iff s t).mpr (.inr ⟨f, ss, ts, hs, ht, hall⟩)

/-- What relates more at once relates more. -/
theorem imp (wf : a.WellFormed u) (h : a.ComparesShapes atOnce rel)
    (k : a.ComparesShapes atOnce' rel') (hat : ∀ s t, atOnce s t → atOnce' s t)
    (hst : rel s t) : rel' s t := by
  induction s using Term.byHeight generalizing t with
  | step s ih =>
    rcases (h.iff s t).mp hst with honce | ⟨f, ss, ts, hs, ht, hall⟩
    · exact (k.iff s t).mpr (.inl (hat s t honce))
    · refine (k.iff s t).mpr (.inr ⟨f, ss, ts, hs, ht, ?_⟩)
      exact forall₂_imp_of_mem hall fun x y hx _ hxy => ih x (lower wf hs x hx) hxy

/-- In an extension, handles that are held are compared as before, if what
is decided at once is. -/
theorem frozen (wf : a.WellFormed u) (hab : a.Extends b) (h : a.ComparesShapes atOnce rel)
    (k : b.ComparesShapes atOnce' rel')
    (hat : ∀ s t, a.Holds u s → a.Holds u t → (atOnce' s t ↔ atOnce s t))
    (hs : a.Holds u s) (ht : a.Holds u t) : rel' s t ↔ rel s t := by
  induction s using Term.byHeight generalizing t with
  | step s ih =>
    have hargs {f : String} {ss ts : List Term} (hss : a.shell? s = some (f, ss))
        (hts : a.shell? t = some (f, ts)) (x y : Term) (hx : x ∈ ss) (hy : y ∈ ts) :
        rel' x y ↔ rel x y := by
      obtain ⟨hxheld, hlt⟩ := wf.args_sound (args_of_shell? hss) x hx
      exact ih x hlt hxheld (wf.args_sound (args_of_shell? hts) y hy).1
    rw [h.iff, k.iff, hat s t hs ht, hab.shell?_frozen wf hs, hab.shell?_frozen wf ht]
    refine or_congr_right ⟨?_, ?_⟩
    · rintro ⟨f, ss, ts, hss, hts, hall⟩
      refine ⟨f, ss, ts, hss, hts, forall₂_imp_of_mem hall fun x y hx hy hxy => ?_⟩
      exact (hargs hss hts x y hx hy).mp hxy
    · rintro ⟨f, ss, ts, hss, hts, hall⟩
      refine ⟨f, ss, ts, hss, hts, forall₂_imp_of_mem hall fun x y hx hy hxy => ?_⟩
      exact (hargs hss hts x y hx hy).mpr hxy

end ComparesShapes

/-- Twins, and nodes that are linked, are related at once by an
equivalence, if links can be turned around and put together. -/
theorem equivalence_twin_or (symm : ∀ {s t}, linked s t → linked t s)
    (trans : ∀ {s t x}, linked s t → linked t x → linked s x)
    (node : ∀ {s t}, linked s t → ∃ r, s.ref? = some r) :
    Equivalence fun s t => s.Twin t ∨ linked s t where
  refl _ := .inl (.inr rfl)
  symm h := h.imp Term.Twin.symm symm
  trans {s t x} hst htx := by
    rcases hst with htwin | hlink
    · rcases htx with htwin' | hlink
      · exact .inl (htwin.trans htwin')
      · obtain ⟨r, hr⟩ := node hlink
        rw [← htwin.symm.eq_of_ref hr]
        exact .inr hlink
    · rcases htx with htwin | hlink'
      · obtain ⟨r, hr⟩ := node (symm hlink)
        rw [← htwin.eq_of_ref hr]
        exact .inr hlink
      · exact .inr (trans hlink hlink')

/-- A twin of a term with a shell is the term. -/
theorem eq_of_twin_of_shell? {shell : String × List Term} (h : s.Twin t)
    (hs : a.shell? s = some shell) : s = t := by
  rcases h.cases with heq | ⟨p, q, rfl, rfl, -⟩
  · exact heq
  · cases hs

/-! ## What the equalities decide at once -/

/-- Two variables of one name and one index. -/
def SameVariable (a : Arena V) (s t : Term) : Prop :=
  a.SameName s t ∧ (a.index s).toOption = (a.index t).toOption

theorem SameVariable.symm (h : a.SameVariable s t) : a.SameVariable t s := ⟨h.1.symm, h.2.symm⟩

theorem SameVariable.trans (h : a.SameVariable s t) (k : a.SameVariable t x) :
    a.SameVariable s x :=
  ⟨h.1.trans k.1, h.2.trans k.2⟩

theorem SameName.exists_var (h : a.SameName s t) : ∃ r, s = .var r := by
  obtain ⟨name, type, type', hs, -⟩ := h
  cases s with
  | var r => exact ⟨r, rfl⟩
  | _ => cases hs

theorem exists_payload {v : V} (h : a.payloadValue? s = some v) : ∃ r, s = .payload r := by
  cases s with
  | payload r => exact ⟨r, rfl⟩
  | _ => cases h

/-- A term with a shell is compound. -/
theorem isCompound_of_shell? {shell : String × List Term} (h : a.shell? s = some shell) :
    s.isCompound = true := by
  cases s with
  | compound _ | control _ => rfl
  | _ => cases h

/-- A shape is shared if and only if both terms have shells, with one
functor and related arguments. -/
theorem sameShape_iff {related : Term → Term → Bool} :
    a.sameShape related s t = true ↔ ∃ f ss ts, a.shell? s = some (f, ss) ∧
      a.shell? t = some (f, ts) ∧ List.Forall₂ (fun x y => related x y = true) ss ts := by
  unfold sameShape
  split
  · next f ss g ts hs ht =>
    rw [hs, ht, Bool.and_eq_true, beq_iff_eq, pairwiseAll_iff]
    constructor
    · rintro ⟨rfl, hall⟩
      exact ⟨f, ss, ts, rfl, rfl, hall⟩
    · rintro ⟨f', ss', ts', hs', ht', hall⟩
      cases hs'
      cases ht'
      exact ⟨rfl, hall⟩
  · next hnone =>
    constructor
    · intro h
      cases h
    · rintro ⟨f, ss, ts, hs, ht, -⟩
      exact (hnone f ss f ts hs ht).elim

theorem isCompound_of_sameShape {related : Term → Term → Bool}
    (h : a.sameShape related s t = true) : s.isCompound = true ∧ t.isCompound = true := by
  obtain ⟨f, ss, ts, hs, ht, -⟩ := sameShape_iff.mp h
  exact ⟨isCompound_of_shell? hs, isCompound_of_shell? ht⟩

section AtOnce

variable [Payload V] {recur recur' : Term → Term → Bool}

/-- Two payloads whose values are the same. -/
def SamePayload (a : Arena V) (s t : Term) : Prop :=
  ∃ v w, a.payloadValue? s = some v ∧ a.payloadValue? t = some w ∧ Payload.same v w = true

/-- One level of equality in shape: twins, payloads, and shapes. -/
theorem structuralStep_iff :
    a.structuralStep recur s t = true ↔
      (s.Twin t ∨ a.SamePayload s t) ∨ a.sameShape recur s t = true := by
  unfold structuralStep
  rw [Bool.or_eq_true]
  constructor
  · rintro (hsame | h)
    · exact .inl (.inl (.inl hsame))
    · split at h
      · split at h
        · next v w hv hw => exact .inl (.inr ⟨v, w, hv, hw, h⟩)
        · cases h
      · exact .inl (.inl (.inr (congrArg Term.real (of_decide_eq_true h))))
      · exact .inr (Bool.and_eq_true_iff.mp h).2
  · rintro ((htwin | ⟨v, w, hv, hw, hsame⟩) | hshape)
    · rcases htwin with hsame | rfl
      · exact .inl hsame
      · cases s with
        | real p => exact .inr (decide_eq_true rfl)
        | _ => exact .inl (Term.same_self _)
    · obtain ⟨r, rfl⟩ := exists_payload hv
      obtain ⟨r', rfl⟩ := exists_payload hw
      right
      simp only [hv, hw, hsame]
    · obtain ⟨hs, ht⟩ := isCompound_of_sameShape hshape
      right
      split
      · cases hs
      · cases hs
      · rw [hs, ht, hshape]
        rfl

/-- What arguments are asked matters to shapes only. -/
theorem valueStep_congr
    (h : ∀ x ∈ a.argsOrNone s, ∀ y ∈ a.argsOrNone t, recur x y = recur' x y) :
    a.valueStep recur s t = a.valueStep recur' s t := by
  unfold valueStep
  rw [sameShape_congr h]

/-- In a well-formed arena the arguments are lower, so the comparison asks
itself about them. -/
theorem WellFormed.structurallyEqual_step (wf : a.WellFormed u) (s t : Term) :
    a.structurallyEqual s t = a.structuralStep a.structurallyEqual s t := by
  rw [structurallyEqual_eq]
  exact structuralStep_congr fun x hx _ _ => by rw [if_pos (wf.argsOrNone_sound x hx).2]

theorem WellFormed.valueEqual_step (wf : a.WellFormed u) (s t : Term) :
    a.valueEqual s t = a.valueStep a.valueEqual s t := by
  rw [valueEqual_eq]
  exact valueStep_congr fun x hx _ _ => by rw [if_pos (wf.argsOrNone_sound x hx).2]

/-- Variables are equal in value if they are one, or of one name and one
index. -/
theorem valueStep_vars_iff {v v' : Reference} :
    a.valueStep recur (.var v) (.var v') = true ↔
      (Term.var v).Twin (.var v') ∨ a.SameVariable (.var v) (.var v') := by
  unfold valueStep
  dsimp only
  rw [Bool.or_eq_true]
  constructor
  · rintro (hsame | h)
    · exact .inl (.inl hsame)
    · split at h
      · next x type y type' hx hy =>
        obtain ⟨hxy, hindex⟩ := Bool.and_eq_true_iff.mp h
        obtain rfl := beq_iff_eq.mp hxy
        exact .inr ⟨⟨x, type, type', hx, hy⟩, of_decide_eq_true hindex⟩
      · cases h
  · rintro (htwin | ⟨⟨x, type, type', hx, hy⟩, hindex⟩)
    · rw [htwin.eq_of_ref rfl]
      exact .inl (Term.same_self _)
    · right
      simp only [hx, hy, hindex, BEq.rfl, decide_true, Bool.and_self]

/-- One level of equality in value: the same as in shape, and variables of
one name and one index. -/
theorem WellFormed.valueStep_iff (wf : a.WellFormed u) :
    a.valueStep recur s t = true ↔
      (s.Twin t ∨ a.SamePayload s t ∨ a.SameVariable s t) ∨ a.sameShape recur s t = true := by
  by_cases hcompound : (s.isCompound && t.isCompound) = true
  · have hnot : ¬a.SameVariable s t := by
      rintro ⟨hname, -⟩
      obtain ⟨r, rfl⟩ := hname.exists_var
      cases hcompound
    rw [valueStep_of_isCompound hcompound, structuralStep_iff, or_iff_left hnot]
  have hshape (f : Term → Term → Bool) : ¬a.sameShape f s t = true := by
    intro h
    obtain ⟨hs, ht⟩ := isCompound_of_sameShape h
    rw [hs, ht] at hcompound
    exact hcompound rfl
  rw [or_iff_left (hshape recur)]
  by_cases hvars : ∃ v v', s = .var v ∧ t = .var v'
  · obtain ⟨v, v', rfl, rfl⟩ := hvars
    have hnot : ¬a.SamePayload (.var v) (.var v') := by
      rintro ⟨_, _, hv, -⟩
      cases hv
    rw [valueStep_vars_iff, or_iff_right hnot]
  · have hnot : ¬a.SameVariable s t := by
      rintro ⟨hname, -⟩
      obtain ⟨v, hv⟩ := hname.exists_var
      obtain ⟨v', hv'⟩ := hname.symm.exists_var
      exact hvars ⟨v, v', hv, hv'⟩
    rw [valueStep_of_other (fun v v' hv hv' => hvars ⟨v, v', hv, hv'⟩)
      (Bool.eq_false_iff.mpr hcompound), wf.structurallyEqual_step, structuralStep_iff,
      or_iff_left (hshape _), or_iff_left hnot]

/-! ## The equalities compare shapes -/

/-- The values that are compared are compared by a partial equivalence:
nothing is asked about a value and itself. -/
structure PartialEquivalence (V : Type) [Payload V] : Prop where
  symm : ∀ v w : V, Payload.same v w = true → Payload.same w v = true
  trans : ∀ v w z : V, Payload.same v w = true → Payload.same w z = true →
    Payload.same v z = true

theorem SamePayload.symm (hV : PartialEquivalence V) (h : a.SamePayload s t) :
    a.SamePayload t s := by
  obtain ⟨v, w, hv, hw, hsame⟩ := h
  exact ⟨w, v, hw, hv, hV.symm v w hsame⟩

theorem SamePayload.trans (hV : PartialEquivalence V) (h : a.SamePayload s t)
    (k : a.SamePayload t x) : a.SamePayload s x := by
  obtain ⟨v, w, hv, hw, hsame⟩ := h
  obtain ⟨w', z, hw', hz, hsame'⟩ := k
  rw [hw] at hw'
  cases hw'
  exact ⟨v, z, hv, hz, hV.trans v w z hsame hsame'⟩

/-- Equality in shape decides twins and payloads at once. -/
theorem WellFormed.structurallyEqual_comparesShapes (wf : a.WellFormed u)
    (hV : PartialEquivalence V) :
    a.ComparesShapes (fun s t => s.Twin t ∨ a.SamePayload s t)
      (fun s t => a.structurallyEqual s t = true) where
  iff s t := by rw [wf.structurallyEqual_step, structuralStep_iff, sameShape_iff]
  equivalence_atOnce := by
    refine equivalence_twin_or (.symm hV) (.trans hV) ?_
    rintro s t ⟨v, w, hv, -⟩
    obtain ⟨r, rfl⟩ := exists_payload hv
    exact ⟨r, rfl⟩
  alone s t shell h hs := by
    rcases h with htwin | ⟨v, w, hv, -⟩
    · exact eq_of_twin_of_shell? htwin hs
    · obtain ⟨r, rfl⟩ := exists_payload hv
      cases hs

/-- Equality in value decides variables too. -/
theorem WellFormed.valueEqual_comparesShapes (wf : a.WellFormed u)
    (hV : PartialEquivalence V) :
    a.ComparesShapes (fun s t => s.Twin t ∨ a.SamePayload s t ∨ a.SameVariable s t)
      (fun s t => a.valueEqual s t = true) where
  iff s t := by rw [wf.valueEqual_step, wf.valueStep_iff, sameShape_iff]
  equivalence_atOnce := by
    apply equivalence_twin_or
    · rintro s t (h | h)
      · exact .inl (h.symm hV)
      · exact .inr h.symm
    · -- A handle is a payload's or a variable's, and not both.
      rintro s t x (h | h) (k | k)
      · exact .inl (h.trans hV k)
      · obtain ⟨-, w, -, hw, -⟩ := h
        obtain ⟨r, rfl⟩ := k.1.exists_var
        cases hw
      · obtain ⟨v, -, hv, -⟩ := k
        obtain ⟨r, rfl⟩ := h.1.symm.exists_var
        cases hv
      · exact .inr (h.trans k)
    · rintro s t (⟨v, w, hv, -⟩ | h)
      · obtain ⟨r, rfl⟩ := exists_payload hv
        exact ⟨r, rfl⟩
      · obtain ⟨r, rfl⟩ := h.1.exists_var
        exact ⟨r, rfl⟩
  alone s t shell h hs := by
    rcases h with htwin | ⟨v, w, hv, -⟩ | h
    · exact eq_of_twin_of_shell? htwin hs
    · obtain ⟨r, rfl⟩ := exists_payload hv
      cases hs
    · obtain ⟨r, rfl⟩ := h.1.exists_var
      cases hs

/-- EQUALITY IN SHAPE NEVER CHANGES between handles that are held. -/
theorem Extends.structurallyEqual_frozen (wf : a.WellFormed u) (wf' : b.WellFormed u)
    (hab : a.Extends b) (hV : PartialEquivalence V) (hs : a.Holds u s) (ht : a.Holds u t) :
    b.structurallyEqual s t = a.structurallyEqual s t := by
  refine Bool.eq_iff_iff.mpr ((wf.structurallyEqual_comparesShapes hV).frozen wf hab
    (wf'.structurallyEqual_comparesShapes hV) (fun s t hs ht => ?_) hs ht)
  rw [SamePayload, hab.payloadValue?_frozen hs, hab.payloadValue?_frozen ht, SamePayload]

/-- The laws of the two equalities on all handles. -/
structure LawfulEqualities (a : Arena V) : Prop where
  structural : Equivalence fun s t => a.structurallyEqual s t = true
  value : Equivalence fun s t => a.valueEqual s t = true
  /-- Equality in shape is the finer one. -/
  value_of_structural : ∀ s t, a.structurallyEqual s t = true → a.valueEqual s t = true
  /-- Compound terms are equal in shape if their functors are the same and
  their arguments are equal in shape, in pairs. -/
  shells : ∀ s t f g ss ts, a.shell? s = some (f, ss) → a.shell? t = some (g, ts) →
    (a.structurallyEqual s t = true ↔ f = g ∧ ss.length = ts.length ∧
      ∀ (i : Nat) (x y : Term), ss[i]? = some x → ts[i]? = some y →
        a.structurallyEqual x y = true)

/-- The equalities of a well-formed arena are lawful. -/
theorem WellFormed.lawfulEqualities (wf : a.WellFormed u) (hV : PartialEquivalence V) :
    a.LawfulEqualities where
  structural := (wf.structurallyEqual_comparesShapes hV).equivalence wf
  value := (wf.valueEqual_comparesShapes hV).equivalence wf
  value_of_structural _ _ := (wf.structurallyEqual_comparesShapes hV).imp wf
    (wf.valueEqual_comparesShapes hV) fun _ _ h => h.imp_right .inl
  shells s t f g ss ts hs ht := by
    rw [← forall₂_iff_getElem?]
    exact (wf.structurallyEqual_comparesShapes hV).shells hs ht

/-- Handles that resolve in the first arena are compared in shape by the
second one as by the first. -/
def KeepsShapes (a b : Arena V) : Prop :=
  ∀ s t, a.resolves s = true → a.resolves t = true →
    b.structurallyEqual s t = a.structurallyEqual s t

/-- An extension keeps the shapes of all handles that resolve, of whatever
kind they are. -/
theorem Extends.keepsShapes (wf : a.WellFormed u) (wf' : b.WellFormed u) (hab : a.Extends b)
    (hV : PartialEquivalence V) : a.KeepsShapes b := by
  intro s t hs ht
  have hheld {r : Term} (hr : a.resolves r = true) : a.Holds .free r :=
    Permits.holds (fun hu => by cases hu) hr
  exact hab.structurallyEqual_frozen wf.free wf'.free hV (hheld hs) (hheld ht)

end AtOnce

end Arena

/-- BOTH EQUALITIES ARE EQUIVALENCES. If the values that payloads carry are
compared by a symmetric and transitive relation, then in every arena that a
host can reach:

- equality in shape and equality in value are equivalences on all handles,
  the first is the finer one, and it compares compound terms by functor,
  number of arguments, and arguments;
- no number of moves changes what equality in shape says of two handles
  that resolve, in the copy or in copies taken of it;
- nor does a mapping or a compound term over closures, whatever the
  closures run, also where it fails. -/
theorem Session.Reachable.equalities_equivalence {V : Type} [Payload V]
    (hV : Arena.PartialEquivalence V) {u : Use} {s : Session V} (hs : s.Reachable u) {c : Copy V}
    (hc : c ∈ s.copies) :
    c.arena.LawfulEqualities ∧
    (∀ s' d, Session.Heir u s c s' d → c.arena.KeepsShapes d.arena) ∧
    (∀ (σ : Type) (supply : σ → NameSupply) (mapper : Term → WorkM V σ Term) (t : Term) (x : σ),
      c.Admits u t →
      (∀ q, UsesMoves u supply c [q] (mapper q)) →
      Ensures (Arena.mapCompounds mapper t) ⟨c.arena, x⟩
        (fun _ w => c.arena.KeepsShapes w.arena) (fun w => c.arena.KeepsShapes w.arena)) ∧
    (∀ (σ : Type) (supply : σ → NameSupply) (f : String) (closures : List (WorkM V σ Term)) (x : σ),
      (∀ m ∈ closures, UsesMoves u supply c [] m) →
      Ensures (Arena.compoundFrom f closures) ⟨c.arena, x⟩
        (fun _ w => c.arena.KeepsShapes w.arena) (fun w => c.arena.KeepsShapes w.arena)) := by
  have horder := hs.inOrder c hc
  have wf := horder.1
  refine ⟨wf.lawfulEqualities hV, fun s' d hd => ?_, fun σ supply mapper t x ht hmapper => ?_,
    fun σ supply f closures x hclosures => ?_⟩
  · obtain ⟨hext, hd⟩ := hd.extends horder
    exact hext.keepsShapes wf hd.1 hV
  · have hrun := UsesMoves.mapCompounds hmapper t c x (.refl horder)
      (List.forall_mem_singleton.mpr ht)
    exact (hrun.ensures_extends horder).mono
      (fun _ _ hw => hw.2.keepsShapes wf hw.1 hV) fun _ hw => hw.2.keepsShapes wf hw.1 hV
  · have hrun := UsesMoves.compoundFrom f hclosures c x (.refl horder) (List.forall_mem_nil _)
    exact (hrun.ensures_extends horder).mono
      (fun _ _ hw => hw.2.keepsShapes wf hw.1 hV) fun _ hw => hw.2.keepsShapes wf hw.1 hV

/-- Scalars are compared by a partial equivalence, although a real among
them need not be the same as itself. -/
theorem Scalar.partialEquivalence : Arena.PartialEquivalence Scalar where
  symm v w h := by
    cases v with
    | double x =>
      cases w with
      | double y => exact (Binary64.numEq_comm y x).trans h
      | _ => cases h
    | _ => cases of_decide_eq_true h; exact decide_eq_true rfl
  trans v w z h k := by
    cases v with
    | double x =>
      cases w with
      | double y =>
        cases z with
        | double z => exact Binary64.numEq_trans h k
        | _ => cases k
      | _ => cases h
    | _ => cases of_decide_eq_true h; exact k

/-- A session with two variables of one name and both zeros. -/
theorem Session.equalities_equivalence_sample :
    Arena.PartialEquivalence Scalar ∧ Copy.sample.arena.LawfulEqualities :=
  ⟨Scalar.partialEquivalence, (Session.Reachable.equalities_equivalence
    Scalar.partialEquivalence reachable_sample (List.mem_singleton_self _)).1⟩

end TermGraph
