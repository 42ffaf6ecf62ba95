import Mathlib.Data.List.Basic
import TermGraph.Arena.Equality
import TermGraph.Arena.NormalForm
import TermGraph.Arena.Occurrence
import TermGraph.Proofs.WellFormed

/-!
# Sub-terms — a term graph read as a tree

What a handle stands for is a tree: its name, and the trees of its
arguments. A POSITION of the tree is a path of argument numbers, and
`Arena.at?` follows it. A handle that occurs at several positions is one
node, and several sub-trees.

`Arena.listing` is the tree in POST-ORDER: every argument before the term
it is an argument of, from left to right, one entry for each position.

## What is proved

`WellFormed.under_iff` — what stands at a position is what is listed.
`WellFormed.inductionUnder` — what holds of a term as soon as it holds of
its arguments holds of every term the arena holds. And the tree of a
handle that resolves never changes: that is `Extends.args_frozen` and the
lemmas beside it.
-/

namespace TermGraph

/-- A term without name and arguments to look up: neither a named variable
nor a node of the compound kind. -/
def Term.isLeaf : Term → Bool
  | var _ | compound _ => false
  | _ => true

namespace Arena

variable {V : Type} {u : Use} {a b : Arena V} {t s : Term}

/-! ## Readers that never change their answer -/

section Frozen

variable (hab : a.Extends b) (ht : a.Holds u t)
include hab ht

/-- A reference that resolves keeps its node. -/
theorem Extends.node?_frozen {r : Reference} (hr : t.ref? = some r) : b.node? r = a.node? r := by
  obtain ⟨n, hn, -⟩ := ht r hr
  rw [hn, hab.node?_eq hn]

theorem Extends.node_frozen {r : Reference} (hr : t.ref? = some r) : b.node t r = a.node t r := by
  rw [node, hab.node?_frozen ht hr, node]

theorem Extends.name_frozen : b.name t = a.name t := by
  cases t with
  | var r | compound r => simp only [name, hab.node_frozen ht rfl]
  | _ => rfl

theorem Extends.functor_frozen : b.functor t = a.functor t := by
  cases t with
  | compound r => simp only [functor, hab.node_frozen ht rfl]
  | _ => rfl

theorem Extends.signature_frozen : b.signature t = a.signature t := by
  cases t with
  | compound r => simp only [signature, hab.node_frozen ht rfl]
  | _ => rfl

theorem Extends.namedVar?_frozen : b.namedVar? t = a.namedVar? t := by
  cases t with
  | var r => simp only [namedVar?, hab.node?_frozen ht rfl]
  | _ => rfl

theorem Extends.varType_frozen : b.varType t = a.varType t := by
  cases t with
  | anon | whole => rfl
  | _ =>
    simp only [varType, notVariable, hab.namedVar?_frozen ht, ht.verify, (ht.extends hab).verify]

theorem Extends.varName_frozen : b.varName t = a.varName t := by
  cases t with
  | anon | whole => rfl
  | _ =>
    simp only [varName, notVariable, hab.namedVar?_frozen ht, ht.verify, (ht.extends hab).verify]

theorem Extends.payloadValue?_frozen : b.payloadValue? t = a.payloadValue? t := by
  cases t with
  | payload r => simp only [payloadValue?, hab.node?_frozen ht rfl]
  | _ => rfl

theorem Extends.isVarNamed_frozen (name : String) : b.isVarNamed name t = a.isVarNamed name t := by
  rw [isVarNamed, hab.namedVar?_frozen ht, isVarNamed]

end Frozen

section FrozenArguments

variable (wf : a.WellFormed u) (hab : a.Extends b) (ht : a.Holds u t)
include wf hab ht

theorem Extends.args_frozen : b.args t = a.args t := by
  cases t with
  | compound r =>
    obtain ⟨n, hok, hn, -⟩ := ht.node rfl
    simp only [args, bind, Except.bind, hok, hab.node_eq hok]
    cases n with
    | compound name signature span =>
      rw [node?, if_pos (ht.place_lt rfl).1] at hn
      obtain ⟨ts, hts, -⟩ := wf.sound r.id _ hn
      simp only [operandsOf, hts, hab.operands _ _ hts]
    | var _ _ => rfl
    | payload _ => rfl
  | _ => rfl

theorem Extends.argsOrNone_frozen : b.argsOrNone t = a.argsOrNone t := by
  rw [argsOrNone, hab.args_frozen wf ht, argsOrNone]

theorem Extends.shell?_frozen : b.shell? t = a.shell? t := by
  rw [shell?, hab.functor_frozen ht, hab.args_frozen wf ht, shell?]

theorem Extends.isAtom_frozen : b.isAtom t = a.isAtom t := by
  cases t with
  | compound r => simp only [isAtom, hab.args_frozen wf ht]
  | _ => rfl

theorem Extends.hasShell_frozen (f : String) (ts : List Term) :
    b.hasShell f ts t = a.hasShell f ts t := by
  rw [hasShell, hab.functor_frozen ht, hab.args_frozen wf ht, hasShell]

end FrozenArguments

/-! ## Arguments -/

theorem argsOrNone_eq {ts : List Term} (h : a.args t = .ok ts) : a.argsOrNone t = ts := by
  rw [argsOrNone, h]

theorem args_of_shell? {f : String} {ts : List Term} (h : a.shell? t = some (f, ts)) :
    a.args t = .ok ts := by
  unfold shell? at h
  split at h
  · next g us _ hus =>
    cases h
    exact hus
  · cases h

theorem argsOrNone_of_shell? {f : String} {ts : List Term} (h : a.shell? t = some (f, ts)) :
    a.argsOrNone t = ts :=
  argsOrNone_eq (args_of_shell? h)

/-- A compound handle that can be opened is held. -/
theorem holds_of_shell? {r : Reference} {f : String} {ts : List Term}
    (h : a.shell? (.compound r) = some (f, ts)) : a.Holds .documented (.compound r) := by
  obtain ⟨name, signature, span, hn, -⟩ := WellFormed.exists_span (args_of_shell? h)
  intro r' hr
  cases hr
  exact ⟨_, hn, fun _ => rfl⟩

/-- A leaf has no arguments. -/
theorem argsOrNone_of_isLeaf (h : t.isLeaf = true) : a.argsOrNone t = [] := by
  cases t with
  | var _ | compound _ => cases h
  | _ => rfl

theorem argsOrNone_var {r : Reference} : a.argsOrNone (.var r) = [] := rfl

/-- What is not compound has no arguments. -/
theorem argsOrNone_of_not_compound (h : t.isCompound = false) : a.argsOrNone t = [] := by
  cases t with
  | compound _ | control _ => cases h
  | _ => rfl

/-- Arguments are held, and lower than the term. -/
theorem WellFormed.argsOrNone_sound (wf : a.WellFormed u) :
    ∀ s ∈ a.argsOrNone t, a.Holds u s ∧ s.height < t.height := by
  intro s hs
  unfold argsOrNone at hs
  split at hs
  · next ts hts => exact wf.args_sound hts s hs
  · cases hs

/-- What a handle under documented use can be: a named variable, a compound
node, or a leaf. -/
theorem WellFormed.cases_holds (wf : a.WellFormed .documented) (ht : a.Holds .documented t) :
    (∃ r name type, t = .var r ∧ a.namedVar? t = some (name, type)) ∨
      (∃ r f ts, t = .compound r ∧ a.shell? t = some (f, ts)) ∨ t.isLeaf = true := by
  cases t with
  | var r =>
    obtain ⟨name, type, hname, -⟩ := wf.named ht
    exact .inl ⟨r, name, type, rfl, hname⟩
  | compound r =>
    obtain ⟨f, ts, signature, hf, hts, -⟩ := wf.shell ht
    exact .inr (.inl ⟨r, f, ts, rfl, by rw [shell?, hf, hts]⟩)
  | _ => exact .inr (.inr rfl)

/-- A held compound term has a functor and arguments. -/
theorem WellFormed.exists_shell? (wf : a.WellFormed .documented) (ht : a.Holds .documented t)
    (h : t.isCompound = true) : ∃ f ts, a.shell? t = some (f, ts) := by
  cases t with
  | compound r =>
    obtain ⟨f, ts, signature, hf, hts, -⟩ := wf.shell ht
    exact ⟨f, ts, by rw [shell?, hf, hts]⟩
  | control c => exact ⟨c.name, [], rfl⟩
  | _ => cases h

/-- Induction along arguments, over the terms that the arena holds. -/
theorem WellFormed.inductionUnder {P : Term → Prop} (wf : a.WellFormed u)
    (step : ∀ t, a.Holds u t → (∀ s ∈ a.argsOrNone t, P s) → P t) (ht : a.Holds u t) : P t := by
  induction t using Term.byHeight with
  | step t ih =>
    apply step t ht
    intro s hs
    obtain ⟨hheld, hlt⟩ := wf.argsOrNone_sound s hs
    exact ih s hlt hheld

/-! ## Positions -/

/-- The sub-term at a position. -/
def at? (a : Arena V) : Term → List Nat → Option Term
  | t, [] => some t
  | t, i :: path => (a.argsOrNone t)[i]?.bind fun arg => a.at? arg path

/-- The term `s` stands at a position of `t`. -/
def Under (a : Arena V) (t s : Term) : Prop := ∃ path, a.at? t path = some s

theorem Under.refl (a : Arena V) (t : Term) : a.Under t t := ⟨[], rfl⟩

theorem Under.arg {arg : Term} (harg : arg ∈ a.argsOrNone t) (h : a.Under arg s) :
    a.Under t s := by
  obtain ⟨path, hpath⟩ := h
  obtain ⟨i, hi⟩ := List.mem_iff_getElem?.mp harg
  exact ⟨i :: path, by rw [at?, hi]; exact hpath⟩

/-- What is in the shell of a term is under the term. -/
theorem Under.ofShell {f : String} {ts : List Term} (h : a.shell? t = some (f, ts))
    (hs : s ∈ ts) : a.Under t s :=
  .arg (by rwa [argsOrNone_of_shell? h]) (.refl a s)

/-- The term itself, or something under an argument. -/
theorem Under.cases (h : a.Under t s) : s = t ∨ ∃ arg ∈ a.argsOrNone t, a.Under arg s := by
  obtain ⟨path, hpath⟩ := h
  cases path with
  | nil => exact .inl (Option.some.inj hpath).symm
  | cons i path =>
    obtain ⟨arg, harg, hrest⟩ := Option.bind_eq_some_iff.mp hpath
    exact .inr ⟨arg, List.mem_of_getElem? harg, path, hrest⟩

/-- Under a term without arguments there is nothing else. -/
theorem Under.eq_of_argsOrNone (h : a.Under t s) (hargs : a.argsOrNone t = []) : s = t := by
  rcases h.cases with heq | ⟨arg, harg, -⟩
  · exact heq
  · rw [hargs] at harg
    cases harg

theorem at?_append (a : Arena V) (t : Term) (p q : List Nat) :
    a.at? t (p ++ q) = (a.at? t p).bind (a.at? · q) := by
  induction p generalizing t with
  | nil => rfl
  | cons i p ih =>
    simp only [List.cons_append, at?, Option.bind_assoc]
    exact congrArg _ (funext ih)

theorem Under.trans {x : Term} (h : a.Under t s) (k : a.Under s x) : a.Under t x := by
  obtain ⟨p, hp⟩ := h
  obtain ⟨q, hq⟩ := k
  exact ⟨p ++ q, by rw [at?_append, hp]; exact hq⟩

/-- What passes from terms to their arguments holds of everything under a
term. -/
theorem Under.inherit {P : Term → Prop} (h : a.Under t s)
    (hargs : ∀ x, P x → ∀ arg ∈ a.argsOrNone x, P arg) (ht : P t) : P s := by
  obtain ⟨path, hpath⟩ := h
  induction path generalizing t with
  | nil =>
    cases hpath
    exact ht
  | cons i path ih =>
    obtain ⟨arg, harg, hrest⟩ := Option.bind_eq_some_iff.mp hpath
    exact ih (hargs t ht arg (List.mem_of_getElem? harg)) hrest

/-- What stands under a held term is held, and not higher. -/
theorem WellFormed.under_sound (wf : a.WellFormed u) (ht : a.Holds u t) (h : a.Under t s) :
    a.Holds u s ∧ s.height ≤ t.height := by
  refine h.inherit (P := fun x => a.Holds u x ∧ x.height ≤ t.height) ?_ ⟨ht, Nat.le_refl _⟩
  intro x hx arg harg
  obtain ⟨hheld, hlt⟩ := wf.argsOrNone_sound arg harg
  exact ⟨hheld, Nat.le_trans (Nat.le_of_lt hlt) hx.2⟩

theorem WellFormed.holds_under (wf : a.WellFormed u) (ht : a.Holds u t) (h : a.Under t s) :
    a.Holds u s :=
  (wf.under_sound ht h).1

/-- The trees of held terms are the same in every extension. -/
theorem Extends.at?_frozen (wf : a.WellFormed u) (hab : a.Extends b) (ht : a.Holds u t)
    (path : List Nat) : b.at? t path = a.at? t path := by
  induction path generalizing t with
  | nil => rfl
  | cons i path ih =>
    rw [at?, at?, hab.argsOrNone_frozen wf ht]
    apply Option.bind_congr
    intro arg harg
    exact ih (wf.argsOrNone_sound arg (List.mem_of_getElem? harg)).1

theorem Extends.under_frozen (wf : a.WellFormed u) (hab : a.Extends b) (ht : a.Holds u t) :
    b.Under t s ↔ a.Under t s := by
  simp only [Under, hab.at?_frozen wf ht]

/-- The tree of a term has nothing to do with indexes. -/
theorem at?_reindexed (ix : Array Index) (t : Term) (path : List Nat) :
    (a.reindexed ix).at? t path = a.at? t path := by
  induction path generalizing t with
  | nil => rfl
  | cons i path ih =>
    simp only [at?, ih]
    rfl

theorem under_reindexed {ix : Array Index} : (a.reindexed ix).Under t s ↔ a.Under t s := by
  simp only [Under, at?_reindexed]

/-! ## Listings -/

/-- Every position of a term, arguments before the term. -/
def listing (a : Arena V) (t : Term) : List Term :=
  walk (fun _ => []) (fun recur t => (a.argsOrNone t).flatMap recur ++ [t]) t

/-- A term is listed after its arguments are. -/
theorem WellFormed.listing_eq (wf : a.WellFormed u) (t : Term) :
    a.listing t = (a.argsOrNone t).flatMap a.listing ++ [t] := by
  have h := @walk_eq _ (fun _ => []) (fun recur t =>
    (a.argsOrNone t).flatMap recur ++ [t]) t
  rw [listing, h]
  congr 1
  apply List.flatMap_congr
  intro s hs
  rw [if_pos (wf.argsOrNone_sound s hs).2, listing]

/-- What stands at a position is what is listed. -/
theorem WellFormed.under_iff (wf : a.WellFormed u) (ht : a.Holds u t) :
    a.Under t s ↔ s ∈ a.listing t := by
  refine wf.inductionUnder (P := fun t => a.Under t s ↔ s ∈ a.listing t) ?_ ht
  intro t _ ih
  rw [wf.listing_eq, List.mem_append, List.mem_flatMap, List.mem_singleton]
  constructor
  · intro h
    rcases h.cases with rfl | ⟨arg, harg, h⟩
    · exact .inr rfl
    · exact .inl ⟨arg, harg, (ih arg harg).mp h⟩
  · rintro (⟨arg, harg, h⟩ | rfl)
    · exact ((ih arg harg).mpr h).arg harg
    · exact .refl a s

/-- The listings of held terms are the same in every extension. -/
theorem Extends.listing_frozen (wf : a.WellFormed u) (wf' : b.WellFormed u)
    (hab : a.Extends b) (ht : a.Holds u t) : b.listing t = a.listing t := by
  refine wf.inductionUnder (P := fun t => b.listing t = a.listing t) ?_ ht
  intro t ht ih
  rw [wf'.listing_eq, wf.listing_eq, hab.argsOrNone_frozen wf ht]
  congr 1
  exact List.flatMap_congr ih

end Arena

end TermGraph
