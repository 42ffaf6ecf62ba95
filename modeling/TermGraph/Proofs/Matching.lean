import TermGraph.Proofs.Sameness

/-!
# Matching — comparing two trees position by position

Many statements about two terms have one form: the trees have the same
positions, compound terms stand opposite compound terms with the same
functor, and what stands opposite variables and leaves is related in a
certain way. `Matches` is that form. The two relations are parameters, and
the statements differ in nothing else:

- `ReadsAs` — variables by name, leaves by handle: the two terms are
  written alike;
- `ReadsLike` — the same, but leaves by identity: signs of zeros do not
  count, and there is no value that is not a number;
- `Tracks` — every variable is the one picked for its name, and leaves are
  twins: what factorization makes of a term.

## What is proved

`Matches.positions` — matching terms have the same positions, and what
stands there matches. `Matches.valueEqual` — terms that match by name,
index and twins are equal in value.
-/

namespace TermGraph

namespace Arena

variable {V : Type} {a b : Arena V} {vars vars' leaf leaf' : Term → Term → Prop} {s t q x : Term}

/-- The trees have the same shape, and their variables and leaves are
related. -/
inductive Matches (a : Arena V) (vars leaf : Term → Term → Prop) : Term → Term → Prop
  | var {r r' : Reference} (h : vars (.var r) (.var r')) : Matches a vars leaf (.var r) (.var r')
  | leaf {s q : Term} (hs : s.isLeaf = true) (hq : q.isLeaf = true) (h : leaf s q) :
    Matches a vars leaf s q
  | node {r r' : Reference} {f : String} {ss qs : List Term}
    (hs : a.shell? (.compound r) = some (f, ss)) (hq : a.shell? (.compound r') = some (f, qs))
    (length_eq : ss.length = qs.length)
    (args : ∀ (i : Nat) (s q : Term), ss[i]? = some s → qs[i]? = some q →
      Matches a vars leaf s q) : Matches a vars leaf (.compound r) (.compound r')

namespace Matches

theorem ofArgs {r r' : Reference} {f : String} {ss qs : List Term}
    (hs : a.shell? (.compound r) = some (f, ss)) (hq : a.shell? (.compound r') = some (f, qs))
    (args : List.Forall₂ (a.Matches vars leaf) ss qs) :
    a.Matches vars leaf (.compound r) (.compound r') := by
  obtain ⟨hlen, hall⟩ := forall₂_iff_getElem?.mp args
  exact .node hs hq hlen hall

/-- Induction on matching trees. -/
@[elab_as_elim]
theorem byArgs {P : Term → Term → Prop} (h : a.Matches vars leaf s q)
    (hvar : ∀ r r', vars (.var r) (.var r') → P (.var r) (.var r'))
    (hleaf : ∀ s q, s.isLeaf = true → q.isLeaf = true → leaf s q → P s q)
    (hnode : ∀ r r' f ss qs, a.shell? (.compound r) = some (f, ss) →
      a.shell? (.compound r') = some (f, qs) → List.Forall₂ (a.Matches vars leaf) ss qs →
      List.Forall₂ P ss qs → P (.compound r) (.compound r')) : P s q := by
  induction h with
  | var h => exact hvar _ _ h
  | leaf hs hq h => exact hleaf _ _ hs hq h
  | node hs hq hlen hall ih =>
    exact hnode _ _ _ _ _ hs hq (forall₂_iff_getElem?.mpr ⟨hlen, hall⟩)
      (forall₂_iff_getElem?.mpr ⟨hlen, ih⟩)

/-- What stands opposite a compound node. -/
theorem ofNode {r : Reference} {f : String} {ss : List Term}
    (h : a.Matches vars leaf (.compound r) q) (hs : a.shell? (.compound r) = some (f, ss)) :
    ∃ r' qs, q = .compound r' ∧ a.shell? q = some (f, qs) ∧
      List.Forall₂ (a.Matches vars leaf) ss qs := by
  cases h with
  | leaf hs _ _ => cases hs
  | node hs' hq hlen hall =>
    rw [hs] at hs'
    cases hs'
    exact ⟨_, _, rfl, hq, forall₂_iff_getElem?.mpr ⟨hlen, hall⟩⟩

/-- What stands opposite a variable. -/
theorem ofVar {r : Reference} (h : a.Matches vars leaf (.var r) q) :
    ∃ r', q = .var r' ∧ vars (.var r) q := by
  cases h with
  | var h => exact ⟨_, rfl, h⟩
  | leaf hs _ _ => cases hs

/-- What stands opposite a leaf. -/
theorem ofLeaf (h : a.Matches vars leaf s q) (hs : s.isLeaf = true) :
    q.isLeaf = true ∧ leaf s q := by
  cases h with
  | leaf _ hq h => exact ⟨hq, h⟩
  | var _ => cases hs
  | node _ _ _ _ => cases hs

/-! ## Laws -/

/-- Looser relations in a later arena. -/
theorem imp (h : a.Matches vars leaf s q) (hab : a.Extends b)
    (hvars : ∀ r r', vars (.var r) (.var r') → vars' (.var r) (.var r'))
    (hleaf : ∀ s q, leaf s q → leaf' s q) : b.Matches vars' leaf' s q := by
  refine h.byArgs (fun r r' h => .var (hvars r r' h))
    (fun s q hs hq h => .leaf hs hq (hleaf s q h)) fun r r' f ss qs hs hq _ ih => ?_
  exact ofArgs (hab.shell?_eq hs) (hab.shell?_eq hq) ih

theorem symm (h : a.Matches vars leaf s q)
    (hvars : ∀ r r', vars (.var r) (.var r') → vars' (.var r') (.var r))
    (hleaf : ∀ s q, leaf s q → leaf' q s) : a.Matches vars' leaf' q s := by
  refine h.byArgs (fun r r' h => .var (hvars r r' h))
    (fun s q hs hq h => .leaf hq hs (hleaf s q h)) fun r r' f ss qs hs hq _ ih => ?_
  exact ofArgs hq hs ih.flip

/-- One comparison after another. -/
theorem comp {vars₂ leaf₂ : Term → Term → Prop} (h : a.Matches vars leaf s x)
    (k : a.Matches vars' leaf' x q)
    (hvars : ∀ x y z, vars x y → vars' y z → vars₂ x z)
    (hleaf : ∀ x y z, leaf x y → leaf' y z → leaf₂ x z) : a.Matches vars₂ leaf₂ s q := by
  revert k
  refine h.byArgs (P := fun s x => ∀ q, a.Matches vars' leaf' x q → a.Matches vars₂ leaf₂ s q)
    ?_ ?_ ?_ q
  · intro r r' h q k
    obtain ⟨r'', rfl, hk⟩ := k.ofVar
    exact .var (hvars _ _ _ h hk)
  · intro s x hs hx h q k
    obtain ⟨hq, hk⟩ := k.ofLeaf hx
    exact .leaf hs hq (hleaf _ _ _ h hk)
  · intro r r' f ss xs hs hx _ ih q k
    obtain ⟨r'', qs, rfl, hq, hall⟩ := k.ofNode hx
    exact ofArgs hs hq (forall₂_comp ih hall fun _ _ q h hk => h q hk)

/-- What matches a term matches its twins. -/
theorem twin (h : a.Matches vars Term.Twin s x) (hx : x.Twin q) : a.Matches vars Term.Twin s q := by
  rcases hx.cases with rfl | ⟨y, z, rfl, rfl, -⟩
  · exact h
  · cases h with
    | leaf hs _ h => exact .leaf hs rfl (h.trans hx)

/-! ## Positions -/

theorem args (h : a.Matches vars leaf s q) :
    List.Forall₂ (a.Matches vars leaf) (a.argsOrNone s) (a.argsOrNone q) := by
  refine h.byArgs (fun _ _ _ => .nil) ?_ ?_
  · intro s q hs hq _
    rw [argsOrNone_of_isLeaf hs, argsOrNone_of_isLeaf hq]
    exact .nil
  · intro r r' f ss qs hs hq hall _
    rw [argsOrNone_of_shell? hs, argsOrNone_of_shell? hq]
    exact hall

/-- Matching terms have the same positions, and what stands there
matches. -/
theorem positions (h : a.Matches vars leaf s q) (path : List Nat) :
    Option.Rel (a.Matches vars leaf) (a.at? s path) (a.at? q path) := by
  induction path generalizing s q with
  | nil => exact .some h
  | cons i path ih =>
    obtain ⟨hlen, hall⟩ := List.forall₂_iff_get.mp h.args
    rw [at?, at?]
    rcases Nat.lt_or_ge i (a.argsOrNone s).length with hi | hi
    · have hi' : i < (a.argsOrNone q).length := by omega
      rw [List.getElem?_eq_getElem hi, List.getElem?_eq_getElem hi']
      exact ih (hall i hi hi')
    · rw [List.getElem?_eq_none hi, List.getElem?_eq_none (by omega)]
      exact .none

/-- What stands under one of two matching terms has a match under the
other, at the same position. -/
theorem exists_under (h : a.Matches vars leaf s q) (hx : a.Under s x) :
    ∃ y, a.Under q y ∧ a.Matches vars leaf x y := by
  obtain ⟨path, hpath⟩ := hx
  have hrel := h.positions path
  rw [hpath] at hrel
  cases hy : a.at? q path with
  | none =>
    rw [hy] at hrel
    cases hrel
  | some y =>
    rw [hy] at hrel
    cases hrel with
    | some hxy => exact ⟨y, ⟨path, hy⟩, hxy⟩

theorem exists_under_right (h : a.Matches vars leaf s q) {y : Term} (hy : a.Under q y) :
    ∃ x, a.Under s x ∧ a.Matches vars leaf x y := by
  have hflip : a.Matches (flip vars) (flip leaf) q s := h.symm (fun _ _ h => h) fun _ _ h => h
  obtain ⟨x, hx, hyx⟩ := hflip.exists_under hy
  exact ⟨x, hx, hyx.symm (fun _ _ h => h) fun _ _ h => h⟩

end Matches

/-! ## Reading -/

/-- The two variables have one name. -/
def SameName (a : Arena V) (s q : Term) : Prop :=
  ∃ name type type', a.namedVar? s = some (name, type) ∧ a.namedVar? q = some (name, type')

/-- The two terms are written alike, with variables read by name. -/
def ReadsAs (a : Arena V) : Term → Term → Prop := a.Matches a.SameName (· = ·)

/-- The two terms are written alike up to the signs of zeros. -/
def ReadsLike (a : Arena V) : Term → Term → Prop := a.Matches a.SameName (·.same · = true)

/-- The second variable is the one picked for the name of the first, and
both are sources. -/
def Picked (a : Arena V) (src : Term → Prop) (pick : String → Option Term) (s q : Term) : Prop :=
  src s ∧ src q ∧ ∃ name type type', a.namedVar? s = some (name, type) ∧
    a.namedVar? q = some (name, type') ∧ pick name = some q

/-- The second term is the first one with the variables that were picked
for their names, and twins for leaves. -/
def Tracks (a : Arena V) (src : Term → Prop) (pick : String → Option Term) :
    Term → Term → Prop :=
  a.Matches (a.Picked src pick) Term.Twin

theorem Picked.sameName {src : Term → Prop} {pick : String → Option Term}
    (h : a.Picked src pick s q) : a.SameName s q := by
  obtain ⟨-, -, name, type, type', hs, hq, -⟩ := h
  exact ⟨name, type, type', hs, hq⟩

theorem SameName.symm (h : a.SameName s q) : a.SameName q s := by
  obtain ⟨name, type, type', hs, hq⟩ := h
  exact ⟨name, type', type, hq, hs⟩

theorem SameName.trans (h : a.SameName s x) (k : a.SameName x q) : a.SameName s q := by
  obtain ⟨name, type, type', hs, hx⟩ := h
  obtain ⟨name', type'', type₂, hx', hq⟩ := k
  rw [hx] at hx'
  cases hx'
  exact ⟨name, type, type₂, hs, hq⟩

theorem SameName.extends (hab : a.Extends b) (h : a.SameName s q) : b.SameName s q := by
  obtain ⟨name, type, type', hs, hq⟩ := h
  exact ⟨name, type, type', hab.namedVar?_eq hs, hab.namedVar?_eq hq⟩

theorem ReadsAs.symm (h : a.ReadsAs s q) : a.ReadsAs q s :=
  Matches.symm h (fun _ _ hv => SameName.symm hv) fun _ _ hl => hl.symm

theorem ReadsAs.trans (h : a.ReadsAs s x) (k : a.ReadsAs x q) : a.ReadsAs s q :=
  Matches.comp h k (fun _ _ _ h k => SameName.trans h k) fun _ _ _ h k => h.trans k

/-! ## One handle for one term -/

/-- Among the terms with a property, one name is one variable and one shell
is one handle. -/
structure SharedAmong (a : Arena V) (P : Term → Prop) : Prop where
  name : ∀ x y, P x → P y → a.SameName x y → x = y
  shell : ∀ x y f xs ys, P x → P y → a.shell? x = some (f, xs) → a.shell? y = some (f, ys) →
    Term.sameAll xs ys = true → x = y

theorem SharedAmong.of_imp {P Q : Term → Prop} (h : a.SharedAmong P) (hQP : ∀ x, Q x → P x) :
    a.SharedAmong Q :=
  ⟨fun x y hx hy => h.name x y (hQP x hx) (hQP y hy),
    fun x y f xs ys hx hy => h.shell x y f xs ys (hQP x hx) (hQP y hy)⟩

/-- Among terms that are shared, and whose arguments are, what is written
alike up to signs is one term. -/
theorem SharedAmong.same_of_readsLike {P : Term → Prop} (h : a.SharedAmong P)
    (hargs : ∀ x, P x → ∀ arg ∈ a.argsOrNone x, P arg) (hsq : a.ReadsLike s q) (hs : P s)
    (hq : P q) : s.same q = true := by
  revert hs hq
  refine Matches.byArgs (P := fun s q => P s → P q → s.same q = true) hsq ?_ ?_ ?_
  · intro r r' hname hs hq
    rw [h.name _ _ hs hq hname]
    exact Term.same_self _
  · intro s q _ _ hsame _ _
    exact hsame
  · intro r r' f ss qs hss hqs _ ih hs hq
    have hbelow : ∀ x, P x → ∀ xs, a.shell? x = some (f, xs) → ∀ arg ∈ xs, P arg := by
      intro x hx xs hxs arg harg
      apply hargs x hx
      rwa [argsOrNone_of_shell? hxs]
    have hsame : Term.sameAll ss qs = true :=
      Term.sameAll_iff.mpr (forall₂_imp_of_mem ih fun x y hx hy hxy =>
        hxy (hbelow _ hs ss hss x hx) (hbelow _ hq qs hqs y hy))
    rw [h.shell _ _ f ss qs hs hq hss hqs hsame]
    exact Term.same_self _

/-! ## Reading in an extension -/

/-- What matches in an extension matched before, if it was there. -/
theorem Matches.frozen (wf : a.WellFormed .documented) (hab : a.Extends b)
    (h : b.Matches vars leaf s q) (hs : a.Holds .documented s) (hq : a.Holds .documented q)
    (hvars : ∀ r r', a.Holds .documented (.var r) → a.Holds .documented (.var r') →
      vars (.var r) (.var r') → vars' (.var r) (.var r')) : a.Matches vars' leaf s q := by
  revert hs hq
  refine h.byArgs (P := fun s q => a.Holds .documented s → a.Holds .documented q →
    a.Matches vars' leaf s q) ?_ ?_ ?_
  · intro r r' h hs hq
    exact .var (hvars r r' hs hq h)
  · intro s q hs hq h _ _
    exact .leaf hs hq h
  · intro r r' f ss qs hss hqs _ ih hs hq
    rw [hab.shell?_frozen wf hs] at hss
    rw [hab.shell?_frozen wf hq] at hqs
    refine ofArgs hss hqs (forall₂_imp_of_mem ih fun x y hx hy hxy => hxy ?_ ?_)
    · exact (wf.args_sound (args_of_shell? hss) x hx).1
    · exact (wf.args_sound (args_of_shell? hqs) y hy).1

theorem Extends.sameName_frozen (hab : a.Extends b) (hs : a.Holds .documented s)
    (hq : a.Holds .documented q) :
    b.SameName s q ↔ a.SameName s q := by
  rw [SameName, hab.namedVar?_frozen hs, hab.namedVar?_frozen hq, SameName]

/-- Reading two terms of an arena is the same in every extension. -/
theorem Extends.readsAs_frozen (wf : a.WellFormed .documented) (hab : a.Extends b)
    (hs : a.Holds .documented s) (hq : a.Holds .documented q) :
    b.ReadsAs s q ↔ a.ReadsAs s q :=
  ⟨fun h => Matches.frozen wf hab h hs hq fun _ _ hr hr' => (hab.sameName_frozen hr hr').mp,
    fun h => Matches.imp h hab (fun _ _ => SameName.extends hab) fun _ _ h => h⟩

theorem Extends.readsLike_frozen (wf : a.WellFormed .documented) (hab : a.Extends b)
    (hs : a.Holds .documented s) (hq : a.Holds .documented q) :
    b.ReadsLike s q ↔ a.ReadsLike s q :=
  ⟨fun h => Matches.frozen wf hab h hs hq fun _ _ hr hr' => (hab.sameName_frozen hr hr').mp,
    fun h => Matches.imp h hab (fun _ _ => SameName.extends hab) fun _ _ h => h⟩

/-! ## Equality in value -/

variable [Payload V]

/-- Twins are equal in shape. -/
theorem structurallyEqual_of_twin (a : Arena V) (h : s.Twin q) :
    a.structurallyEqual s q = true := by
  rw [structurallyEqual_eq]
  unfold structuralStep
  rcases h with h | rfl
  · rw [h, Bool.true_or]
  · cases s with
    | real p => simp only [decide_true, Bool.or_true]
    | _ => rw [Term.same_self, Bool.true_or]

/-- Terms that match by name, index and twins are equal in value. -/
theorem Matches.valueEqual (wf : a.WellFormed .documented)
    (h : a.Matches (fun s q => a.SameName s q ∧ a.index s = a.index q) Term.Twin s q) :
    a.valueEqual s q = true := by
  refine h.byArgs ?_ ?_ ?_
  · intro r r' hend
    obtain ⟨⟨name, type, type', hs, hq⟩, hindex⟩ := hend
    rw [valueEqual_eq]
    unfold valueStep
    simp [hs, hq, hindex]
  · intro s q hs hq h
    rw [valueEqual_eq]
    unfold valueStep
    rcases h.cases with rfl | ⟨x, y, rfl, rfl, hxy⟩
    · cases s with
      | var _ | compound _ => cases hs
      | real x => simp [Term.isCompound, Term.kind, a.structurallyEqual_of_twin (.inr rfl)]
      | _ => simp [Term.same_self]
    · simp [Term.same, hxy]
  · intro r r' f ss qs hs hq _ ih
    have hlow := wf.args_sound (args_of_shell? hs)
    have hshape : pairwiseAll (fun arg => if arg.height < (Term.compound r).height
        then a.valueEqual arg else fun _ => false) ss qs = true := by
      refine pairwiseAll_iff.mpr (forall₂_imp_of_mem ih fun x y hx _ hxy => ?_)
      rw [if_pos (hlow x hx).2]
      exact hxy
    rw [valueEqual_eq]
    unfold valueStep
    simp [Term.isCompound, Term.kind, sameShape, hs, hq, hshape]

end Arena

end TermGraph
