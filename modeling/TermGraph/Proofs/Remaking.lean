import TermGraph.Proofs.Collecting
import TermGraph.Proofs.Matching

/-!
# Remaking — what factorization makes of a term

`Made` says what one handle may become. A leaf stays. A variable becomes
the one that is picked for its name. A compound term is COPIED, over what
its arguments became; or it is SHARED: another compound term stands in its
place, with the same functor and with arguments that are the same as what
its own became.

A term is only ever shared with a SOURCE, one of the terms that
factorization began with, or with something a source was made into. This
is what contents and signs of zeros depend on, and it is part of the
relation.

A term with a value under it that is not a number is never shared: the
value is not the same as itself, so a term over it is copied whenever it
is met, and every term over the copy in turn. `Quiet` is the opposite
condition, and a shared term is quiet.

## What is proved

`Made.tracks` — what was made matches what it was made of.
`Made.unindexed` — nothing that was made has an index, if no source has
one. `Made.readsAs` — where sources that differ in the signs of zeros only
do not occur, what was made is written like what it was made of.
-/

namespace TermGraph

namespace Arena

variable {V : Type} {a b : Arena V} {src : Term → Prop} {pick : String → Option Term}
  {s t q x : Term}

/-- Everything under the term is the same as itself. -/
def Quiet (a : Arena V) (t : Term) : Prop := ∀ x, a.Under t x → x.same x = true

/-- What factorization makes of a term. -/
inductive Made (a : Arena V) (src : Term → Prop) (pick : String → Option Term) :
    Term → Term → Prop
  | leaf {s : Term} (hs : s.isLeaf = true) : Made a src pick s s
  | var {r r' : Reference} {name : String} {type type' : VarType}
    (hs : a.namedVar? (.var r) = some (name, type))
    (hq : a.namedVar? (.var r') = some (name, type')) (picked : pick name = some (.var r'))
    (hsrc : src (.var r)) (hsrc' : src (.var r')) : Made a src pick (.var r) (.var r')
  /-- A new node over what the arguments became. -/
  | copied {r r' : Reference} {f : String} {ss qs : List Term} (hsrc : src (.compound r))
    (hs : a.shell? (.compound r) = some (f, ss)) (hq : a.shell? (.compound r') = some (f, qs))
    (length_eq : ss.length = qs.length)
    (args : ∀ (i : Nat) (s q : Term), ss[i]? = some s → qs[i]? = some q → Made a src pick s q)
    (index : a.index (.compound r') = .ok .unassigned)
    (content : a.content? (.compound r') = a.content? (.compound r)) :
    Made a src pick (.compound r) (.compound r')
  /-- A node that is there already, and comes from `x`. -/
  | shared {r r' : Reference} {f : String} {ss cs qs : List Term} {x : Term}
    (hsrc : src (.compound r)) (hs : a.shell? (.compound r) = some (f, ss))
    (hq : a.shell? (.compound r') = some (f, qs)) (length_eq : ss.length = cs.length)
    (args : ∀ (i : Nat) (s c : Term), ss[i]? = some s → cs[i]? = some c → Made a src pick s c)
    (same : Term.sameAll cs qs = true) (quiet : a.Quiet (.compound r')) (hx : src x)
    (origin : x ≠ .compound r' → Made a src pick x (.compound r')) :
    Made a src pick (.compound r) (.compound r')

/-! ## Quiet terms -/

theorem Quiet.arg (h : a.Quiet t) {s : Term} (hs : s ∈ a.argsOrNone t) : a.Quiet s :=
  fun x hx => h x (hx.arg hs)

/-- A term is quiet if it is the same as itself and its arguments are
quiet. -/
theorem Quiet.ofArgs (hself : t.same t = true) (h : ∀ s ∈ a.argsOrNone t, a.Quiet s) :
    a.Quiet t := by
  intro x hx
  rcases hx.cases with rfl | ⟨arg, harg, hx⟩
  · exact hself
  · exact h arg harg x hx

theorem Quiet.ofLeaf (hself : t.same t = true) (hl : t.isLeaf = true) : a.Quiet t :=
  .ofArgs hself fun s hs => by rw [argsOrNone_of_isLeaf hl] at hs; cases hs

/-- A term is quiet if every value under it that is a real is a number. -/
theorem Quiet.ofNumbers (h : ∀ x, a.Under t x → ∀ p, x = .real p → p.isNaN = false) :
    a.Quiet t := by
  intro x hx
  rw [Term.same_self]
  split
  · next p => rw [h _ hx p rfl, Bool.not_false]
  · rfl

theorem Quiet.frozen (wf : a.WellFormed .documented) (hab : a.Extends b)
    (ht : a.Holds .documented t) : b.Quiet t ↔ a.Quiet t := by
  simp only [Quiet, hab.under_frozen wf ht]

/-! ## Growth -/

/-- Growth leaves indexes and contents of the nodes that were there. -/
theorem Grows.index_eq (h : a.Grows b) (ht : a.Holds u t) : b.index t = a.index t := by
  cases t with
  | var r | compound r | payload r =>
    obtain ⟨n, hok, -⟩ := ht.node rfl
    simp only [index, bind, Except.bind, hok, h.node_eq hok,
      h.indexes r.id (ht.place_lt rfl).2]
  | _ => rfl

theorem Grows.content?_eq (h : a.Grows b) (ht : a.Holds u t) : b.content? t = a.content? t := by
  cases t with
  | compound r => simp only [content?, h.id, h.contents r.id (ht.place_lt rfl).2]
  | _ => rfl

namespace Made

/-- Induction on what was made, argument by argument. -/
@[elab_as_elim]
theorem byArgs {P : Term → Term → Prop} (h : a.Made src pick s q)
    (hleaf : ∀ s, s.isLeaf = true → P s s)
    (hvar : ∀ r r' name type type', a.namedVar? (.var r) = some (name, type) →
      a.namedVar? (.var r') = some (name, type') → pick name = some (.var r') →
      src (.var r) → src (.var r') → P (.var r) (.var r'))
    (hcopied : ∀ r r' f ss qs, src (.compound r) → a.shell? (.compound r) = some (f, ss) →
      a.shell? (.compound r') = some (f, qs) → List.Forall₂ P ss qs →
      a.index (.compound r') = .ok .unassigned →
      a.content? (.compound r') = a.content? (.compound r) → P (.compound r) (.compound r'))
    (hshared : ∀ r r' f ss cs qs x, src (.compound r) →
      a.shell? (.compound r) = some (f, ss) → a.shell? (.compound r') = some (f, qs) →
      List.Forall₂ P ss cs → Term.sameAll cs qs = true → a.Quiet (.compound r') → src x →
      (x ≠ .compound r' → P x (.compound r')) → P (.compound r) (.compound r')) : P s q := by
  induction h with
  | leaf hs => exact hleaf _ hs
  | var hs hq hpick hsrc hsrc' => exact hvar _ _ _ _ _ hs hq hpick hsrc hsrc'
  | copied hsrc hs hq hlen _ hindex hcontent ih =>
    exact hcopied _ _ _ _ _ hsrc hs hq (forall₂_iff_getElem?.mpr ⟨hlen, ih⟩) hindex hcontent
  | shared hsrc hs hq hlen _ hsame hquiet hx _ ih ihorigin =>
    exact hshared _ _ _ _ _ _ _ hsrc hs hq (forall₂_iff_getElem?.mpr ⟨hlen, ih⟩) hsame hquiet
      hx ihorigin

theorem ofCopied {r r' : Reference} {f : String} {ss qs : List Term} (hsrc : src (.compound r))
    (hs : a.shell? (.compound r) = some (f, ss)) (hq : a.shell? (.compound r') = some (f, qs))
    (args : List.Forall₂ (a.Made src pick) ss qs)
    (index : a.index (.compound r') = .ok .unassigned)
    (content : a.content? (.compound r') = a.content? (.compound r)) :
    a.Made src pick (.compound r) (.compound r') := by
  obtain ⟨hlen, hall⟩ := forall₂_iff_getElem?.mp args
  exact .copied hsrc hs hq hlen hall index content

theorem ofShared {r r' : Reference} {f : String} {ss cs qs : List Term}
    (hsrc : src (.compound r)) (hs : a.shell? (.compound r) = some (f, ss))
    (hq : a.shell? (.compound r') = some (f, qs)) (args : List.Forall₂ (a.Made src pick) ss cs)
    (same : Term.sameAll cs qs = true) (quiet : a.Quiet (.compound r')) (hx : src x)
    (origin : x ≠ .compound r' → a.Made src pick x (.compound r')) :
    a.Made src pick (.compound r) (.compound r') := by
  obtain ⟨hlen, hall⟩ := forall₂_iff_getElem?.mp args
  exact .shared hsrc hs hq hlen hall same quiet hx origin

/-- What was made stays made while the arena grows. -/
theorem grows (wf : a.WellFormed .documented) (hab : a.Grows b) (h : a.Made src pick s q) :
    b.Made src pick s q := by
  have hext := hab.toExtends
  refine h.byArgs (fun s hs => .leaf hs) ?_ ?_ ?_
  · intro r r' name type type' hs hq hpick hsrc hsrc'
    exact .var (hext.namedVar?_eq hs) (hext.namedVar?_eq hq) hpick hsrc hsrc'
  · intro r r' f ss qs hsrc hs hq ih hindex hcontent
    have hheld := holds_of_shell? hq
    refine ofCopied hsrc (hext.shell?_eq hs) (hext.shell?_eq hq) ih ?_ ?_
    · rw [hab.index_eq hheld, hindex]
    · rw [hab.content?_eq hheld, hcontent, hab.content?_eq (holds_of_shell? hs)]
  · intro r r' f ss cs qs x hsrc hs hq ih hsame hquiet hx ihorigin
    refine ofShared hsrc (hext.shell?_eq hs) (hext.shell?_eq hq) ih hsame ?_ hx ihorigin
    exact (Quiet.frozen wf hext (holds_of_shell? hq)).mpr hquiet

/-! ## The tree that was made -/

/-- What was made matches what it was made of. -/
theorem tracks (h : a.Made src pick s q) : a.Tracks src pick s q := by
  refine h.byArgs (fun s hs => .leaf hs hs (.inr rfl)) ?_ ?_ ?_
  · intro r r' name type type' hs hq hpick hsrc hsrc'
    exact .var ⟨hsrc, hsrc', name, type, type', hs, hq, hpick⟩
  · intro r r' f ss qs _ hs hq ih _ _
    exact Matches.ofArgs hs hq ih
  · intro r r' f ss cs qs x _ hs hq ih hsame _ _ _
    exact Matches.ofArgs hs hq (forall₂_comp ih (Term.sameAll_iff.mp hsame)
      fun _ _ _ h hcq => Matches.twin h (.inl hcq))

/-- Nothing that was made has an index, if no source has one. -/
theorem unindexed (hclosed : ∀ s, src s → ∀ arg ∈ a.argsOrNone s, src arg)
    (hsrc : ∀ s, src s → s.hasSlot = true → a.index s = .ok .unassigned)
    (h : a.Made src pick s q) :
    ∀ x, a.Under q x → x.hasSlot = true → a.index x = .ok .unassigned := by
  refine h.byArgs (P := fun _ q => ∀ x, a.Under q x → x.hasSlot = true →
    a.index x = .ok .unassigned) ?_ ?_ ?_ ?_
  · intro s hs x hx hslot
    obtain rfl := hx.eq_of_argsOrNone (argsOrNone_of_isLeaf hs)
    cases x <;> cases hs <;> cases hslot
  · intro r r' name type type' _ _ _ _ hr' x hx hslot
    obtain rfl := hx.eq_of_argsOrNone argsOrNone_var
    exact hsrc _ hr' hslot
  · intro r r' f ss qs _ _ hq ih hindex _ x hx hslot
    rcases hx.cases with rfl | ⟨arg, harg, hx⟩
    · exact hindex
    · rw [argsOrNone_of_shell? hq] at harg
      obtain ⟨s, -, harg⟩ := exists_of_forall₂ ih harg
      exact harg x hx hslot
  · intro r r' f ss cs qs y _ _ _ _ _ _ hy ihorigin x hx hslot
    by_cases heq : y = .compound r'
    · exact hsrc x (hx.inherit hclosed (heq ▸ hy)) hslot
    · exact ihorigin heq x hx hslot

end Made

/-! ## Signs of zeros -/

/-- Quiet terms that are written alike are written alike with identity for
leaves. -/
theorem ReadsAs.like (h : a.ReadsAs s q) (hq : a.Quiet q) : a.ReadsLike s q := by
  revert hq
  refine Matches.byArgs (P := fun s q => a.Quiet q → a.ReadsLike s q) h ?_ ?_ ?_
  · intro r r' h _
    exact .var h
  · rintro s q hs hq rfl hquiet
    exact .leaf hs hq (hquiet s (.refl a s))
  · intro r r' f ss qs hs hq _ ih hquiet
    refine Matches.ofArgs hs hq (forall₂_imp_of_mem ih fun x y _ hy hxy => hxy ?_)
    apply hquiet.arg
    rw [argsOrNone_of_shell? hq]
    exact hy

/-- Where the sources that are written alike up to the signs of zeros are
written alike, what was made is written like what it was made of. -/
theorem Made.readsAs (hsigns : ∀ r r', src (.compound r) → src (.compound r') →
      a.ReadsLike (.compound r) (.compound r') → a.ReadsAs (.compound r) (.compound r'))
    (h : a.Made src pick s q) : a.ReadsAs s q := by
  refine h.byArgs (fun s hs => .leaf hs hs rfl) ?_ ?_ ?_
  · intro r r' name type type' hs hq _ _ _
    exact .var ⟨name, type, type', hs, hq⟩
  · intro r r' f ss qs _ hs hq ih _ _
    exact Matches.ofArgs hs hq ih
  · intro r r' f ss cs qs x hsrc hs hq ih hsame hquiet hx ihorigin
    have hlike : a.ReadsLike (.compound r) (.compound r') := by
      refine Matches.ofArgs hs hq (forall₂_imp_of_mem (forall₂_comp
        (T := fun s q => a.Quiet q → a.ReadsLike s q) ih (Term.sameAll_iff.mp hsame) ?_)
        fun s q _ hq' hsq => hsq ?_)
      · intro s c q hsc hcq hquiet
        rcases Term.same_cases hcq with rfl | ⟨y, z, rfl, rfl, hyz⟩
        · exact hsc.like hquiet
        · cases hsc with
          | leaf hs _ heq =>
            subst heq
            exact .leaf rfl rfl hyz
      · apply hquiet.arg
        rw [argsOrNone_of_shell? hq]
        exact hq'
    by_cases heq : x = .compound r'
    · exact hsigns r r' hsrc (heq ▸ hx) hlike
    · have hxq := ihorigin heq
      obtain ⟨r'', -, rfl, -⟩ := Matches.ofNode hxq.symm hq
      have hsx : a.ReadsLike (.compound r) (.compound r'') :=
        Matches.comp hlike hxq.symm (fun _ _ _ h k => SameName.trans h k)
          fun _ _ _ h k => k ▸ h
      exact (hsigns r r'' hsrc hx hsx).trans hxq

end Arena

end TermGraph
