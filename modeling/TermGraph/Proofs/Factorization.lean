import TermGraph.Proofs.Session
import TermGraph.Proofs.Sharing
import TermGraph.Proofs.Variables

/-!
# Factorization — the same term, shared as far as it can be

Factorization collects a term and then shares it against what was
collected. The collected terms are the sources: everything under the term.
The variable picked for a name is the first one listed.

`Factorized` says all that other proofs need: what the result is made of,
that no index is left on either term, that sharing is maximal, and that a
result which was there before is quiet. The two main results read this off
for a session of the host:

- the result is the term, position by position;
- under the result, one name is one variable and one shell is one handle.

The two are independent. The first does not say that anything is shared,
and the second holds of any term that is shared already.
-/

namespace TermGraph

namespace Arena

variable {V : Type} {a b c : Arena V} {t r s x y : Term}

/-! ## The whole of factorization -/

/-- The first variable of a name in the listing of a term. -/
def firstListed (a : Arena V) (t : Term) (name : String) : Option Term :=
  (a.listing t).find? (a.isVarNamed name)

/-- A pool of sources alone is stocked, if it holds the arguments of every
source and its first variable of each name is the one picked. -/
theorem Stocked.ofSources {src : Term → Prop} {pick : String → Option Term}
    {mark : Term → Option Index} {pool : Pool} (wfb : b.WellFormed .documented)
    (h : a.Marks mark b) (sources : ∀ s, src s → a.Holds .documented s)
    (below : ∀ s, src s → ∀ arg ∈ a.argsOrNone s, src arg ∧ arg ∈ pool)
    (picked : ∀ r name, src (.var r) → a.isVarNamed name (.var r) = true →
      pick name = some ((pool.find? (a.isVarNamed name)).getD (.var r)))
    (hpool : ∀ p ∈ pool, src p) : Stocked src pick ⟨b, pool⟩ := by
  have hnamed : ∀ name s, b.isVarNamed name s = a.isVarNamed name s := by
    intro name s
    rw [h.tables]
    rfl
  refine ⟨wfb, fun s hs => h.holds_iff.mpr (sources s hs), fun s hs arg harg => ?_,
    fun r name type hr hname => ?_, fun p hp => h.holds_iff.mpr (sources p (hpool p hp)),
    fun p hp => .inl (hpool p hp)⟩
  · rw [h.argsOrNone_eq] at harg
    exact below s hs arg harg
  · have hself : a.isVarNamed name (.var r) = true := by
      rw [← hnamed, isVarNamed, hname]
      exact beq_self_eq_true name
    rw [picked r name hr hself, show b.isVarNamed name = a.isVarNamed name from
      funext (hnamed name)]

/-- What was collected from a term is a stocked pool for it. -/
theorem stocked_collected (wf : a.WellFormed .documented) (ht : a.Holds .documented t)
    (wfb : b.WellFormed .documented) (h : a.Marks (unmark (a.listing t)) b) :
    Stocked (a.Under t) (a.firstListed t) ⟨b, ((a.argsOrNone t).flatMap a.listing).toArray⟩ := by
  have hbelow : ∀ s, s ∈ (a.argsOrNone t).flatMap a.listing ↔
      ∃ arg ∈ a.argsOrNone t, a.Under arg s := by
    intro s
    rw [List.mem_flatMap]
    refine exists_congr fun arg => and_congr_right fun harg => ?_
    exact (wf.under_iff (wf.argsOrNone_sound arg harg).1).symm
  refine .ofSources wfb h (fun s hs => wf.holds_under ht hs) (fun s hs arg harg => ?_)
    (fun r name hr hself => ?_) fun p hp => ?_
  · refine ⟨hs.trans (.arg harg (.refl a arg)), List.mem_toArray.mpr ((hbelow arg).mpr ?_)⟩
    rcases hs.cases with rfl | ⟨first, hfirst, hs⟩
    · exact ⟨arg, harg, .refl a arg⟩
    · exact ⟨first, hfirst, hs.trans (.arg harg (.refl a arg))⟩
  · rw [firstListed, wf.listing_eq, List.find?_append, List.find?_toArray]
    cases hfind : ((a.argsOrNone t).flatMap a.listing).find? (a.isVarNamed name) with
    | some p => rfl
    | none =>
      -- The variable is not under an argument, so it is the term itself.
      rcases hr.cases with heq | ⟨arg, harg, hr⟩
      · rw [← heq, List.find?_singleton, if_pos hself]
        rfl
      · have hnot := List.find?_eq_none.mp hfind _ ((hbelow _).mpr ⟨arg, harg, hr⟩)
        exact absurd hself hnot
  · obtain ⟨arg, harg, hp⟩ := (hbelow p).mp (List.mem_toArray.mp hp)
    exact hp.arg harg

/-- What factorization of `t` in `a` leaves: the result `r` and the arena
`c`. -/
structure Factorized (a : Arena V) (t r : Term) (c : Arena V) : Prop where
  wf : c.WellFormed .documented
  ext : a.Extends c
  held : c.Holds .documented r
  made : c.Made (a.Under t) (a.firstListed t) t r
  sources : ∀ s, a.Under t s → s.hasSlot = true → c.index s = .ok .unassigned
  fresh : ∀ x, c.Under r x → x.hasSlot = true → c.index x = .ok .unassigned
  name_unique : ∀ x y, c.Under r x → c.Under r y → c.SameName x y → x = y
  shell_unique : ∀ x y f xs ys, c.Under r x → c.Under r y → c.shell? x = some (f, xs) →
    c.shell? y = some (f, ys) → Term.sameAll xs ys = true → x = y
  old_quiet : ∀ v, r = .compound v → v.id < a.nodes.size → c.Quiet r

/-- Below a factored term one name is one variable. -/
theorem Factored.name_unique {src : Term → Prop} {pick : String → Option Term}
    {w w' : Workspace V Pool} (h : Factored src pick w s r w') (hx : w'.arena.Under r x)
    (hy : w'.arena.Under r y) (hxy : w'.arena.SameName x y) : x = y := by
  obtain ⟨name, type, type', hnx, hny⟩ := hxy
  have hpick : ∀ z type, w'.arena.Under r z → w'.arena.namedVar? z = some (name, type) →
      pick name = some z := by
    intro z type hz hname
    rcases hz.cases with rfl | ⟨arg, harg, hz⟩
    · rcases h.first with hat | ⟨rfl, -, ⟨v, rfl⟩, -⟩
      · exact hat.1 name type hname
      · cases hname
    · exact (h.below arg harg z hz).1 name type hname
  have heq := hpick x type hx hnx
  rw [hpick y type' hy hny] at heq
  exact (Option.some.inj heq).symm

/-- Control constants are told apart by their names. -/
theorem control_eq_of_name {c d : Control} (h : c.name = d.name) : c = d := by
  have hc := Control.ofName?_name c
  rw [h, Control.ofName?_name] at hc
  exact (Option.some.inj hc).symm

/-- Two terms with one shell are one term, if they are whenever both are
nodes: a control constant shares its shell with nothing else. -/
theorem WellFormed.eq_of_shell? (wf : a.WellFormed .documented) {f : String} {xs ys : List Term}
    (hxs : a.shell? x = some (f, xs)) (hys : a.shell? y = some (f, ys))
    (hsame : Term.sameAll xs ys = true)
    (h : ∀ v v', x = .compound v → y = .compound v' → x = y) : x = y := by
  rcases shell?_cases hxs with ⟨v, rfl⟩ | ⟨d, rfl, hd, rfl⟩ <;>
    rcases shell?_cases hys with ⟨v', rfl⟩ | ⟨d', rfl, hd', rfl⟩
  · exact h v v' rfl rfl
  · cases Term.sameAll_iff.mp hsame
    exact absurd hd' (wf.control_ne hxs)
  · cases Term.sameAll_iff.mp hsame
    exact absurd hd (wf.control_ne hys)
  · rw [control_eq_of_name (hd.trans hd'.symm)]

/-- Below a factored term one shell is one handle. -/
theorem Factored.shell_unique {src : Term → Prop} {pick : String → Option Term}
    {w w' : Workspace V Pool} (h : Factored src pick w s r w') {f : String} {xs ys : List Term}
    (hx : w'.arena.Under r x) (hy : w'.arena.Under r y) (hxs : w'.arena.shell? x = some (f, xs))
    (hys : w'.arena.shell? y = some (f, ys)) (hsame : Term.sameAll xs ys = true) : x = y := by
  -- A node below is the first candidate of its shell; the root may have none.
  have hfirst : ∀ v zs, w'.arena.Under r (.compound v) →
      w'.arena.shell? (.compound v) = some (f, zs) → Term.sameAll zs zs = true →
      w'.carried.find? (w'.arena.hasShell f zs) = some (.compound v) ∨
        .compound v = r ∧ w'.carried.find? (w'.arena.hasShell f zs) = none := by
    intro v zs hv hzs hself
    rcases hv.cases with heq | ⟨arg, harg, hv⟩
    · rcases h.first with hat | ⟨-, -, -, hnone⟩
      · exact .inl (heq ▸ hat.2 v f zs heq.symm (heq ▸ hzs) hself)
      · exact .inr ⟨heq, hnone f zs (heq ▸ hzs) hself⟩
    · exact .inl ((h.below arg harg _ hv).2 v f zs rfl hzs hself)
  apply h.stocked.wf.eq_of_shell? hxs hys hsame
  rintro v v' rfl rfl
  have hfx := hfirst v xs hx hxs (Term.sameAll_self_of_sameAll hsame)
  have hfy := hfirst v' ys hy hys (Term.sameAll_self_of_sameAll (Term.sameAll_symm hsame))
  rw [← hasShell_congr w'.arena f hsame] at hfy
  rcases hfx with hfx | ⟨hxr, hfx⟩ <;> rcases hfy with hfy | ⟨hyr, hfy⟩
  · exact Option.some.inj (hfx.symm.trans hfy)
  · rw [hfx] at hfy
    cases hfy
  · rw [hfx] at hfy
    cases hfy
  · exact hxr.trans hyr.symm

/-- THE EFFECT OF FACTORIZATION on a term that the arena holds. -/
theorem factorize_ok (wf : a.WellFormed .documented) (ht : a.Holds .documented t) :
    Ensures (factorize t) a (fun r c => Factorized a t r c) (fun _ => False) := by
  apply Ensures.bind (collect_ok wf ht)
  intro pool b hend
  obtain ⟨wfb, hb, rfl⟩ := hend
  have hstocked := stocked_collected wf ht wfb hb
  refine Ensures.bind (Ensures.beside (P := fun x c => Factorized a t x.1 c)
    ((factorizeAgainst_ok t hstocked (.refl a t)).mono ?_ fun _ h => h)) ?_
  · intro r w h
    have hgrows : b.Grows w.arena := h.furthers.grows
    have hext : a.Extends w.arena := hb.toExtends.trans hgrows.toExtends
    have hsources : ∀ s, a.Under t s → s.hasSlot = true → w.arena.index s = .ok .unassigned := by
      intro s hs hslot
      have hheld := wf.holds_under ht hs
      rw [hgrows.index_eq (hb.holds_iff.mpr hheld)]
      exact hb.index_unmark hheld ((wf.under_iff ht).mp hs) hslot
    refine ⟨h.stocked.wf, hext, h.result.held, h.result.made, hsources, ?_,
      fun _ _ hx hy hxy => h.name_unique hx hy hxy,
      fun _ _ _ _ _ hx hy hxs hys hsame => h.shell_unique hx hy hxs hys hsame, ?_⟩
    · show ∀ x, w.arena.Under r x → x.hasSlot = true → w.arena.index x = .ok .unassigned
      refine h.result.made.unindexed (fun s hs arg harg => ?_) hsources
      rw [hext.argsOrNone_frozen wf (wf.holds_under ht hs)] at harg
      exact hs.trans (.arg harg (.refl a arg))
    · -- What is not quiet was made in this run.
      intro v hv hlt
      by_contra hnot
      have hle := h.result.recent v hv hnot
      rw [hb.tables] at hle
      exact Nat.lt_irrefl _ (Nat.lt_of_lt_of_le hlt hle)
  · rintro ⟨r, pool⟩ c h
    exact Ensures.answer h

/-! ## The term is preserved -/

/-- The first variables of a term are the same in every extension. -/
theorem firstListed_frozen (wf : a.WellFormed .documented) (wfc : c.WellFormed .documented)
    (hac : a.Extends c) (ht : a.Holds .documented t) (name : String) :
    c.firstListed t name = a.firstListed t name := by
  rw [firstListed, hac.listing_frozen wf wfc ht, firstListed]
  refine List.find?_congr fun p hp => ?_
  exact hac.isVarNamed_frozen (wf.holds_under ht ((wf.under_iff ht).mpr hp)) name

/-- What may stand in the place of `x`. A compound term keeps functor and
arity, a variable is the one picked for the name, and any other leaf is
equal in shape. -/
structure StandsAs [Payload V] (a : Arena V) (pick : String → Option Term) (x y : Term) :
    Prop where
  functor : y.isCompound = true → x.isCompound = true ∧ ∃ f n, a.functor x = .ok f ∧
    a.functor y = .ok f ∧ a.arity x = .ok n ∧ a.arity y = .ok n
  name : y.isNamedVar = true → x.isNamedVar = true ∧ ∃ name, a.varName x = .ok name ∧
    pick name = some y
  leaf : y.isCompound = false → y.isNamedVar = false → a.structurallyEqual y x = true

/-- What stands in a factorized term, in the place of `x` in the term `t`
itself: a variable is the first one of its name in `t`. -/
def StandsFor [Payload V] (a : Arena V) (t x y : Term) : Prop :=
  a.StandsAs (a.varNamed? t) x y

theorem functor_of_shell? {f : String} {ts : List Term} (h : a.shell? t = some (f, ts)) :
    a.functor t = .ok f := by
  unfold shell? at h
  split at h
  · next g us hg _ =>
    cases h
    exact hg
  · cases h

theorem arity_of_shell? {f : String} {ts : List Term} (h : a.shell? t = some (f, ts)) :
    a.arity t = .ok ts.length := by
  rw [arity, args_of_shell? h]
  rfl

theorem varName_of_namedVar? {name : String} {type : VarType}
    (h : a.namedVar? t = some (name, type)) : a.varName t = .ok name := by
  cases t with
  | var v => simp only [varName, h]
  | _ => cases h

/-- The name of a held variable is the name of its node. -/
theorem WellFormed.namedVar?_of_varName (wf : a.WellFormed .documented)
    (ht : a.Holds .documented t) (hvar : t.isNamedVar = true) {name : String}
    (h : a.varName t = .ok name) : ∃ type, a.namedVar? t = some (name, type) := by
  cases t with
  | var v =>
    obtain ⟨found, type, hfound, -⟩ := wf.named ht
    rw [varName_of_namedVar? hfound] at h
    cases h
    exact ⟨type, hfound⟩
  | _ => cases hvar

/-- What was made of a term stands in its place. -/
theorem Tracks.standsAs [Payload V] {src : Term → Prop} {pick : String → Option Term}
    (h : a.Tracks src pick x y) : a.StandsAs pick x y := by
  cases h with
  | var hpicked =>
    obtain ⟨-, -, name, type, type', hx, hy, hpick⟩ := hpicked
    exact ⟨fun hc => (by cases hc), fun _ => ⟨rfl, name, varName_of_namedVar? hx, hpick⟩,
      fun _ hv => (by cases hv)⟩
  | node hx hy hlen _ =>
    refine ⟨fun _ => ⟨rfl, _, _, functor_of_shell? hx, functor_of_shell? hy, arity_of_shell? hx,
      ?_⟩, fun hv => (by cases hv), fun hc => (by cases hc)⟩
    rw [hlen]
    exact arity_of_shell? hy
  | leaf hx hy htwin =>
    refine ⟨fun hc => ?_, fun hv => ?_, fun _ _ => a.structurallyEqual_of_twin htwin.symm⟩
    · rcases htwin.cases with rfl | ⟨p, q, rfl, rfl, -⟩
      · cases x with
        | control d => exact ⟨rfl, d.name, 0, rfl, rfl, rfl, rfl⟩
        | compound _ => cases hx
        | _ => cases hc
      · cases hc
    · cases y with
      | var _ => cases hy
      | _ => cases hv

/-- The same at every position. -/
theorem Tracks.positions [Payload V] {src : Term → Prop} {pick : String → Option Term}
    (h : a.Tracks src pick t r) (path : List Nat) :
    Option.Rel (a.StandsAs pick) (a.at? t path) (a.at? r path) := by
  have hrel := Matches.positions h path
  generalize a.at? t path = x at hrel ⊢
  generalize a.at? r path = y at hrel ⊢
  cases hrel with
  | none => exact .none
  | some hxy => exact .some (Tracks.standsAs hxy)

/-- The variable picked is the first one of the term. -/
theorem Factorized.standsFor [Payload V] (h : Factorized a t r c) (wf : a.WellFormed .documented)
    (ht : a.Holds .documented t) (hx : a.Under t x) (hxy : c.StandsAs (a.firstListed t) x y) :
    c.StandsFor t x y := by
  refine ⟨hxy.functor, fun hy => ?_, hxy.leaf⟩
  obtain ⟨hxvar, name, hxname, hpick⟩ := hxy.name hy
  refine ⟨hxvar, name, hxname, ?_⟩
  have hheld := (wf.holds_under ht hx).extends h.ext
  obtain ⟨type, hnamed⟩ := h.wf.namedVar?_of_varName hheld hxvar hxname
  cases x with
  | var v =>
    obtain ⟨_, _, hfound, hanon, hwhole⟩ := h.wf.named hheld
    rw [hnamed] at hfound
    cases hfound
    rw [h.wf.varNamed?_eq (ht.extends h.ext) hanon hwhole]
    exact (firstListed_frozen wf h.wf h.ext ht name).trans hpick
  | _ => cases hxvar

/-- What was made of a term is equal in value to it, as long as no source
has an index. -/
theorem Made.valueEqual [Payload V] {src : Term → Prop} {pick : String → Option Term}
    (wf : a.WellFormed .documented) (h : a.Made src pick t r)
    (hsrc : ∀ s, src s → s.hasSlot = true → a.index s = .ok .unassigned) :
    a.valueEqual t r = true := by
  have htracks := h.tracks
  refine Matches.valueEqual wf (Matches.imp htracks (.refl a) (fun v v' hpicked => ?_)
    fun _ _ hl => hl)
  have hname := hpicked.sameName
  obtain ⟨hv, hv', -⟩ := hpicked
  exact ⟨hname, (hsrc _ hv rfl).trans (hsrc _ hv' rfl).symm⟩

end Arena

/-- FACTORIZATION PRESERVES THE TERM. On every term of every copy that a
host can reach, it succeeds; the result is equal in value; and the two
trees have the same positions, with the same functors and arities, the
first variable of each name, and equal leaves. -/
theorem Session.Reachable.factorize_preserves {V : Type} [Payload V] {s : Session V}
    (hs : s.Reachable .documented) {c : Copy V} (hc : c ∈ s.copies) {t : Term} (ht : c.Owns t) :
    ∃ r b, Arena.factorize t c.arena = .ok r b ∧ b.valueEqual t r = true ∧
      ∀ path, Option.Rel (b.StandsFor t) (b.at? t path) (b.at? r path) := by
  have wf := (hs.inOrder c hc).1
  have hheld := (hs.inOrder c hc).holds ht
  obtain ⟨r, b, hok, h⟩ := (Arena.factorize_ok wf hheld).exists_ok
  refine ⟨r, b, hok, h.made.valueEqual h.wf h.sources, fun path => ?_⟩
  have hrel := Arena.Tracks.positions h.made.tracks path
  have hunder : ∀ x, b.at? t path = some x → c.arena.Under t x := fun x hx =>
    (h.ext.under_frozen wf hheld).mp ⟨path, hx⟩
  generalize b.at? t path = x at hrel hunder ⊢
  generalize b.at? r path = y at hrel ⊢
  cases hrel with
  | none => exact .none
  | some hxy => exact .some (h.standsFor wf hheld (hunder _ rfl) hxy)

/-- A term in which two variables have one name. -/
theorem Session.factorize_preserves_sample :
    ∃ r b, Arena.factorize Term.sample Copy.sample.arena = .ok r b ∧
      b.valueEqual Term.sample r = true ∧
      ∀ path, Option.Rel (b.StandsFor Term.sample) (b.at? Term.sample path) (b.at? r path) :=
  Session.Reachable.factorize_preserves reachable_sample (List.mem_singleton_self _)
    Copy.sample_owns

/-! ## Sharing is maximal -/

namespace Arena

variable {V : Type} {a b c : Arena V} {t r s x y : Term}

/-- A leaf under the result is a twin of a leaf under the term. -/
theorem Factorized.exists_twin (h : Factorized a t r c) (wf : a.WellFormed .documented)
    (ht : a.Holds .documented t) (hx : c.Under r x) (hl : x.isLeaf = true) :
    ∃ s, a.Under t s ∧ s.Twin x := by
  obtain ⟨s, hs, hsx⟩ := Matches.exists_under_right h.made.tracks hx
  refine ⟨s, (h.ext.under_frozen wf ht).mp hs, ?_⟩
  cases hsx with
  | leaf _ _ htwin => exact htwin
  | var _ => cases hl
  | node _ _ _ _ => cases hl

/-- Where one shell is one handle, equality in shape is identity: of terms
without payloads, and without values that are not numbers. -/
theorem structurallyEqual_iff_same [Payload V] (wf : a.WellFormed .documented)
    (hr : a.Holds .documented r)
    (hunique : ∀ x y f xs ys, a.Under r x → a.Under r y → a.shell? x = some (f, xs) →
      a.shell? y = some (f, ys) → Term.sameAll xs ys = true → x = y)
    (hplain : ∀ x, a.Under r x → x.isPayload = false ∧ x.same x = true) (hx : a.Under r x)
    (hy : a.Under r y) : a.structurallyEqual x y = true ↔ x.same y = true := by
  refine ⟨?_, fun h => a.structurallyEqual_of_twin (.inl h)⟩
  refine wf.inductionUnder (P := fun x => ∀ y, a.Under r x → a.Under r y →
    a.structurallyEqual x y = true → x.same y = true) ?_ (wf.holds_under hr hx) y hx hy
  intro x _ ih y hx hy h
  have hself := (hplain x hx).2
  rw [structurallyEqual_eq] at h
  unfold structuralStep at h
  rcases Bool.or_eq_true_iff.mp h with h | h
  · exact h
  split at h
  · exact absurd (hplain _ hx).1 (by simp [Term.isPayload, Term.kind])
  · next p q =>
    rw [← of_decide_eq_true h]
    exact hself
  · obtain ⟨-, hshape⟩ := Bool.and_eq_true_iff.mp h
    unfold sameShape at hshape
    split at hshape
    · next f xs g ys hxs hys =>
      obtain ⟨hfg, hall⟩ := Bool.and_eq_true_iff.mp hshape
      obtain rfl := beq_iff_eq.mp hfg
      have hargs := argsOrNone_of_shell? hxs
      have hlow := wf.argsOrNone_sound (t := x)
      rw [hargs] at ih hlow
      have hsame : Term.sameAll xs ys = true := by
        refine Term.sameAll_iff.mpr (forall₂_imp_of_mem (pairwiseAll_iff.mp hall) ?_)
        intro v v' hv hv' heq
        rw [if_pos (hlow v hv).2] at heq
        exact ih v hv v' (hx.trans (.ofShell hxs hv)) (hy.trans (.ofShell hys hv')) heq
      rw [← hunique x y f xs ys hx hy hxs hys hsame]
      exact hself
    · cases hshape

end Arena

/-- FACTORIZATION SHARES MAXIMALLY. On every term of every copy that a host
can reach it succeeds, and under the result variables of one name are one
handle, and compound terms with one functor and the same arguments are one
handle. So equality in shape is identity there, unless the term contains
payloads or values that are not numbers. -/
theorem Session.Reachable.factorize_shares {V : Type} [Payload V] {s : Session V}
    (hs : s.Reachable .documented) {c : Copy V} (hc : c ∈ s.copies) {t : Term} (ht : c.Owns t) :
    ∃ r b, Arena.factorize t c.arena = .ok r b ∧
      (∀ x y name, b.Under r x → b.Under r y → x.isNamedVar = true → y.isNamedVar = true →
        b.varName x = .ok name → b.varName y = .ok name → x = y) ∧
      (∀ x y f xs ys, b.Under r x → b.Under r y → x.isCompound = true → y.isCompound = true →
        b.functor x = .ok f → b.functor y = .ok f → b.args x = .ok xs → b.args y = .ok ys →
        Term.sameAll xs ys = true → x = y) ∧
      ((∀ v, c.arena.Under t v → v.isPayload = false ∧ ∀ p, v = .real p → p.isNaN = false) →
        ∀ x y, b.Under r x → b.Under r y →
          (b.structurallyEqual x y = true ↔ x.same y = true)) := by
  have wf := (hs.inOrder c hc).1
  have hheld := (hs.inOrder c hc).holds ht
  obtain ⟨r, b, hok, h⟩ := (Arena.factorize_ok wf hheld).exists_ok
  refine ⟨r, b, hok, ?_, ?_, fun hplain x y hx hy => ?_⟩
  · intro x y name hx hy hxv hyv hxn hyn
    obtain ⟨type, hxname⟩ := h.wf.namedVar?_of_varName (h.wf.holds_under h.held hx) hxv hxn
    obtain ⟨type', hyname⟩ := h.wf.namedVar?_of_varName (h.wf.holds_under h.held hy) hyv hyn
    exact h.name_unique x y hx hy ⟨name, type, type', hxname, hyname⟩
  · intro x y f xs ys hx hy _ _ hxf hyf hxs hys hsame
    exact h.shell_unique x y f xs ys hx hy (by rw [Arena.shell?, hxf, hxs])
      (by rw [Arena.shell?, hyf, hys]) hsame
  · refine Arena.structurallyEqual_iff_same h.wf h.held h.shell_unique (fun v hv => ?_) hx hy
    cases v with
    | payload v =>
      obtain ⟨u, hu, htwin⟩ := h.exists_twin wf hheld hv rfl
      obtain rfl := htwin.symm.eq_of_ref rfl
      exact absurd (hplain _ hu).1 (by simp [Term.isPayload, Term.kind])
    | real p =>
      obtain ⟨u, hu, htwin⟩ := h.exists_twin wf hheld hv rfl
      refine ⟨rfl, ?_⟩
      rcases htwin with hsame | rfl
      · exact Term.same_self_of_same (Term.same_symm hsame)
      · simp only [Term.same_self, (hplain _ hu).2 p rfl, Bool.not_false]
    | _ => exact ⟨rfl, Term.same_self _⟩

/-- A term with two compound terms that become one. It contains neither
payloads nor values that are not numbers. -/
theorem Session.factorize_shares_sample :
    ∃ r b, Arena.factorize Term.sample Copy.sample.arena = .ok r b ∧
      ∀ x y, b.Under r x → b.Under r y → (b.structurallyEqual x y = true ↔ x.same y = true) := by
  obtain ⟨r, b, hok, -, -, h⟩ :=
    Session.Reachable.factorize_shares reachable_sample (List.mem_singleton_self _)
      Copy.sample_owns
  have hlisted : ∀ v ∈ Copy.sample.arena.listing Term.sample,
      v.isPayload = false ∧ v.same v = true := by decide +kernel
  have horder := reachable_sample.inOrder _ (List.mem_singleton_self _)
  refine ⟨r, b, hok, h fun v hv => ?_⟩
  obtain ⟨hpayload, hself⟩ :=
    hlisted v ((horder.1.under_iff (horder.holds Copy.sample_owns)).mp hv)
  refine ⟨hpayload, ?_⟩
  rintro p rfl
  simpa [Term.same_self] using hself

end TermGraph
