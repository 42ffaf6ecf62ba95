import TermGraph.Proofs.Collecting
import TermGraph.Proofs.Session

/-!
# Effects — what an operation may change, and where

Nodes and arguments never change, so all that an operation can do to a
handle that was there before is to change its index or its content.
`Touches` says where: at which places an index may be another one, and at
which places a content. Growth touches nothing.

Two walks set indexes. Collection takes them away from everything under a
term, and numbering gives them to everything under a term; neither touches
anything else, whether it comes to its end or fails on the way, because
both keep to one discipline, `reindexing`.
Normalization numbers another term than it was given, the factorized one.
`DrawnFrom` closes this gap: whatever stands under that term and was there
before stands under the given term too.

None of this asks for documented use. Under free use two handles of
different kinds may refer to one node; so what is touched is a place, and
not a handle. Under documented use the two are one, and `Marks`, which
speaks of handles, says what happens at the places too.

## What is proved

`Operation.run_touches` — every operation touches only what it may.
-/

namespace TermGraph

namespace Arena

variable {V α : Type} {u : Use} {a b c o : Arena V} {t s q : Term}
  {ix ix' cs cs' : Nat → Prop}

/-! ## Touching -/

/-- The second arena extends the first one. Of the nodes that were there,
those at the places `ix` may have another index, and those at the places
`cs` another content. -/
structure Touches (ix cs : Nat → Prop) (a b : Arena V) : Prop extends a.Extends b where
  indexes : ∀ place : Nat, place < a.nodes.size → ¬ix place →
    b.indexes[place]? = a.indexes[place]?
  contents : ∀ place : Nat, place < a.nodes.size → ¬cs place →
    b.contents.get? place = a.contents.get? place

/-- No place. -/
def nowhere (_ : Nat) : Prop := False

/-- Growth touches nothing. -/
theorem Grows.touches (h : a.Grows b) : Touches ix cs a b :=
  ⟨h.toExtends, fun place hlt _ => h.indexes place hlt, fun place hlt _ => h.contents place hlt⟩

namespace Touches

theorem refl (a : Arena V) : Touches ix cs a a := (Grows.refl a).touches

/-- One step after another. Of the places that the second one touches only
those count that were there before the first one. -/
theorem andThen (h : Touches ix cs a b) (k : Touches ix' cs' b c)
    (hix : ∀ place, place < a.nodes.size → ix' place → ix place)
    (hcs : ∀ place, place < a.nodes.size → cs' place → cs place) : Touches ix cs a c := by
  have hle := h.size_le
  refine ⟨h.toExtends.trans k.toExtends, fun place hlt hnot => ?_, fun place hlt hnot => ?_⟩
  · rw [k.indexes place (by omega) fun hp => hnot (hix place hlt hp), h.indexes place hlt hnot]
  · rw [k.contents place (by omega) fun hp => hnot (hcs place hlt hp), h.contents place hlt hnot]

theorem trans (h : Touches ix cs a b) (k : Touches ix cs b c) : Touches ix cs a c :=
  h.andThen k (fun _ _ hp => hp) fun _ _ hp => hp

/-- A handle whose place is not touched keeps its index. -/
theorem index_eq (h : Touches ix cs a b) (ht : a.Holds u t)
    (hnot : ∀ r, t.ref? = some r → ¬ix r.id) : b.index t = a.index t := by
  cases t with
  | var r | compound r | payload r =>
    simp only [index, h.node_frozen ht rfl, h.indexes r.id (ht.place_lt rfl).2 (hnot r rfl)]
  | _ => rfl

/-- A handle whose place is not touched keeps its content. -/
theorem content?_eq (h : Touches ix cs a b) (ht : a.Holds u t)
    (hnot : ∀ r, t = .compound r → ¬cs r.id) : b.content? t = a.content? t := by
  cases t with
  | compound r =>
    simp only [content?, h.id, h.contents r.id (ht.place_lt rfl).2 (hnot r rfl)]
  | _ => rfl

end Touches

/-! ## Reindexing under a term -/

/-- The place of a variable or a compound term of the arena that stands
under the term. -/
def SlotUnder (a : Arena V) (t : Term) (place : Nat) : Prop :=
  ∃ x, a.Under t x ∧ x.hasSlot = true ∧ x.ref? = some ⟨a.id, place⟩

/-- The second arena is the first one with other indexes at the places
`ix`. -/
structure ReindexedAt (ix : Nat → Prop) (a b : Arena V) : Prop where
  tables : b = a.reindexed b.indexes
  elsewhere : ∀ place : Nat, ¬ix place → b.indexes[place]? = a.indexes[place]?

namespace ReindexedAt

theorem refl (a : Arena V) : ReindexedAt ix a a := ⟨rfl, fun _ _ => rfl⟩

theorem trans (h : ReindexedAt ix a b) (k : ReindexedAt ix b c) : ReindexedAt ix a c := by
  refine ⟨?_, fun place hnot => (k.elsewhere place hnot).trans (h.elsewhere place hnot)⟩
  rw [k.tables, h.tables]
  rfl

theorem toExtends (h : ReindexedAt ix a b) : a.Extends b := by
  rw [h.tables]
  exact extends_reindexed a _

theorem touches (h : ReindexedAt ix a b) : Touches ix cs a b := by
  refine ⟨h.toExtends, fun place _ hnot => h.elsewhere place hnot, fun place _ _ => ?_⟩
  rw [h.tables, reindexed_contents]

theorem args_eq (h : ReindexedAt ix a b) : b.args t = a.args t := by
  rw [h.tables]
  rfl

theorem under_iff (h : ReindexedAt ix a b) : b.Under t s ↔ a.Under t s := by
  rw [h.tables]
  exact under_reindexed

/-- Setting the index of a term reindexes it. -/
theorem setIndex (a : Arena V) (t : Term) (i : Index) :
    ReindexedAt (a.SlotUnder t) a (a.reindexed (a.indexesWith t i)) := by
  refine ⟨rfl, fun place hnot => ?_⟩
  have hother (r : Reference) (hr : t.ref? = some r) (hslot : t.hasSlot = true) :
      (if r.arena = a.id then a.indexes.setIfInBounds r.id i else a.indexes)[place]? =
        a.indexes[place]? := by
    split
    · next hid =>
      refine Array.getElem?_setIfInBounds_ne fun heq => hnot ⟨t, .refl a t, hslot, ?_⟩
      rw [hr, ← hid, ← heq]
    · rfl
  cases t with
  | var r | compound r => exact hother r rfl rfl
  | _ => rfl

/-- Setting the index of a term under it, after others. -/
theorem thenSet (h : ReindexedAt (a.SlotUnder t) a b) (hs : a.Under t s) (i : Index) :
    ReindexedAt (a.SlotUnder t) a (b.reindexed (b.indexesWith s i)) := by
  refine h.trans ⟨rfl, fun place hnot => (setIndex b s i).elsewhere place ?_⟩
  rintro ⟨x, hx, hslot, hr⟩
  refine hnot ⟨x, hs.trans (h.under_iff.mp hx), hslot, ?_⟩
  rw [hr, h.toExtends.id]

end ReindexedAt

/-! ## Marks and places of the table -/

/-- A handle of a node reads the index of the node. -/
theorem index_of_node {r : Reference} {n : Node V} (hr : t.ref? = some r)
    (hn : a.node? r = some n) : a.index t = .ok ((a.indexes[r.id]?).getD .unassigned) := by
  have hok : a.node t r = .ok n := by rw [node, hn]
  cases t with
  | var _ | compound _ | payload _ =>
    cases hr
    simp only [index, bind, Except.bind, hok, pure, Except.pure]
  | _ => cases hr

/-- The index that a handle reads stands in the table. -/
theorem WellFormed.index_eq_ok_iff (wf : a.WellFormed u) (ht : a.Holds u t) {r : Reference}
    (hr : t.ref? = some r) {i : Index} : a.index t = .ok i ↔ a.indexes[r.id]? = some i := by
  obtain ⟨n, hn, -⟩ := ht r hr
  have hlt : r.id < a.indexes.size := by
    rw [wf.indexes_size]
    exact (ht.place_lt hr).2
  rw [index_of_node hr hn, Array.getElem?_eq_getElem hlt, Option.getD_some, Except.ok.injEq,
    Option.some.injEq]

/-- Every node has a handle that it fits. -/
theorem exists_holds {place : Nat} {n : Node V} (hn : a.nodes[place]? = some n) :
    ∃ t : Term, t.ref? = some ⟨a.id, place⟩ ∧ a.Holds .documented t := by
  have hnode : a.node? ⟨a.id, place⟩ = some n := by rw [node?, if_pos rfl, hn]
  have hheld {t : Term} (hr : t.ref? = some ⟨a.id, place⟩) (hkind : t.kind = n.kind) :
      a.Holds .documented t := by
    intro r hr'
    rw [hr] at hr'
    cases hr'
    exact ⟨n, hnode, fun _ => hkind⟩
  cases n with
  | var _ _ => exact ⟨.var ⟨a.id, place⟩, rfl, hheld rfl rfl⟩
  | compound _ _ _ => exact ⟨.compound ⟨a.id, place⟩, rfl, hheld rfl rfl⟩
  | payload _ => exact ⟨.payload ⟨a.id, place⟩, rfl, hheld rfl rfl⟩

/-- A marking changes the table at the places of what it marks, and nowhere
else. -/
theorem Marks.reindexedAt {mark : Term → Option Index} (h : a.Marks mark b)
    (wf : a.WellFormed .documented) (wf' : b.WellFormed .documented)
    (hmark : ∀ x place, x.ref? = some ⟨a.id, place⟩ → ¬ix place → mark x = none) :
    ReindexedAt ix a b := by
  refine ⟨h.tables, fun place hnot => ?_⟩
  have hnodes : b.nodes = a.nodes := by rw [h.tables, reindexed_nodes]
  by_cases hlt : place < a.nodes.size
  · obtain ⟨x, hr, hheld⟩ := exists_holds (Array.getElem?_eq_getElem hlt)
    have hsame := h.index x hheld
    rw [hmark x place hr hnot] at hsame
    obtain ⟨i, hi⟩ := hheld.index
    rw [(wf.index_eq_ok_iff hheld hr).mp hi]
    exact (wf'.index_eq_ok_iff (h.holds_iff.mpr hheld) hr).mp (hsame.trans hi)
  · have hge : a.nodes.size ≤ place := Nat.not_lt.mp hlt
    rw [Array.getElem?_eq_none (by rwa [wf'.indexes_size, hnodes]),
      Array.getElem?_eq_none (by rwa [wf.indexes_size])]

/-! ## Collecting and numbering -/

theorem mem_argsOrNone {ts : List Term} (h : a.args t = .ok ts) (hs : s ∈ ts) :
    s ∈ a.argsOrNone t := by
  rwa [argsOrNone_eq h]

/-- Reindexing under a term of the arena. What stands under it is known. -/
def reindexing (a : Arena V) (t : Term) : Discipline (Arena V) where
  inOrder := ReindexedAt (a.SlotUnder t) a
  known _ := a.Under t
  follows _ _ := True
  refl _ := trivial
  trans _ _ := trivial
  later _ _ hs := hs

theorem reindexing_reindexes (a : Arena V) (t : Term) : (reindexing a t).Reindexes where
  args hb hs hargs x hx := by
    rw [hb.args_eq] at hargs
    exact Under.trans hs (.arg (mem_argsOrNone hargs hx) (.refl a x))
  setIndex hb hs i := ⟨hb.thenSet hs i, trivial⟩

/-- COLLECTION REINDEXES ONLY UNDER THE TERM, whatever the pool holds. -/
theorem collectInto_reindexes (t : Term) (w : Workspace V Pool) :
    Ensures (collectInto t) w
      (fun _ w' => ReindexedAt (w.arena.SlotUnder t) w.arena w'.arena)
      (fun w' => ReindexedAt (w.arena.SlotUnder t) w.arena w'.arena) := by
  have hany : (reindexing w.arena t).Lists fun _ _ => True :=
    { later := fun _ _ h => h, push := fun h _ => h }
  have hrun := Discipline.collectInto_obeys (reindexing_reindexes w.arena t) hany t (w := w)
    ⟨.refl _, trivial⟩ (.refl _ t)
  exact Ensures.mono hrun (fun _ _ h => h.1.1) fun _ h => h.1.1

/-- What was collected resolves. -/
theorem collect_resolves (t : Term) (a : Arena V) :
    Ensures (collect t) a (fun _ _ => a.resolves t = true) (fun _ => True) := by
  cases hrun : collect t a with
  | error e b => exact .of_error hrun trivial
  | ok pool b =>
    refine .of_ok hrun ?_
    by_contra hnot
    have hverify : a.verify t = .error (.foreignTerm t) := by rw [verify, if_neg hnot]
    have hrefused : (collectInto t).beside #[] a = .error (.foreignTerm t) a := by
      rw [WorkM.beside, collectInto_eq, collectStep, bind_of_error (WorkM.look_of_error hverify)]
    rw [collect, bind_of_error hrefused] at hrun
    cases hrun

/-- The same beside a pool of its own, in which it lists only what stands
under the term. -/
theorem collect_reindexes (t : Term) (a : Arena V) :
    Ensures (collect t) a
      (fun pool b => ReindexedAt (a.SlotUnder t) a b ∧ a.resolves t = true ∧
        ∀ p ∈ pool, a.Under t p)
      (ReindexedAt (a.SlotUnder t) a) := by
  have hrun := Discipline.collect_obeys (reindexing_reindexes a t) t (.refl a) (.refl a t)
  refine (Ensures.and hrun (collect_resolves t a)).mono ?_ fun _ h => h.1.1
  rintro pool b ⟨⟨hre, -, hpool⟩, hres⟩
  exact ⟨hre, hres, fun p hp => hpool p (Array.mem_toList_iff.mpr hp)⟩

/-- NUMBERING REINDEXES ONLY UNDER THE TERM. -/
theorem number_reindexes (t : Term) (start : Nat) (a : Arena V) :
    Ensures (number t start) a
      (fun _ b => ReindexedAt (a.SlotUnder t) a b) (ReindexedAt (a.SlotUnder t) a) := by
  have hrun := Discipline.number_obeys (reindexing_reindexes a t) t start (.refl a) (.refl a t)
  exact Ensures.mono hrun (fun _ _ h => h.1) fun _ h => h.1

/-! ## Factorizing and normalizing -/

/-- The term is held, and what stands under it and was there in the arena
`o` stands under `t` there. -/
structure DrawnFrom (u : Use) (o : Arena V) (t : Term) (a : Arena V) (q : Term) : Prop where
  size_le : o.nodes.size ≤ a.nodes.size
  held : a.Holds u q
  origin : ∀ x r, a.Under q x → x.ref? = some r → r.id < o.nodes.size → o.Under t x

theorem passedOn_drawnFrom (o : Arena V) (t : Term) :
    PassedOn u (fun a q => DrawnFrom u o t a q) where
  permits h := h.held.permits
  later {a b q} wf hext h := by
    refine ⟨Nat.le_trans h.size_le hext.size_le, h.held.extends hext, fun x r hx hr hlt => ?_⟩
    exact h.origin x r ((hext.under_frozen wf h.held).mp hx) hr hlt
  arg wf h hts s hs := by
    refine ⟨h.size_le, (wf.args_sound hts s hs).1, fun x r hx hr hlt => ?_⟩
    exact h.origin x r (hx.arg (mem_argsOrNone hts hs)) hr hlt
  copy {a b t' c ts} wf hgrows ht hts hc hargs hplace := by
    refine ⟨Nat.le_trans ht.size_le hgrows.size_le, hc, fun x r hx hr hlt => ?_⟩
    rcases hx.cases with rfl | ⟨arg, harg, hx⟩
    · -- The copy itself was not there.
      have hle := hplace r hr
      have hsize := ht.size_le
      omega
    · rw [argsOrNone_eq hargs] at harg
      have harg' := hts arg harg
      exact harg'.origin x r ((hgrows.toExtends.under_frozen wf harg'.held).mp hx) hr hlt

/-- Factorization touches only indexes under the term, and what it answers
is drawn from the term. -/
theorem factorize_touches (wf : a.WellFormed u) (ht : a.Permits u t) :
    Ensures (factorize t) a
      (fun q b => Touches (a.SlotUnder t) nowhere a b ∧ DrawnFrom u a t b q)
      (Touches (a.SlotUnder t) nowhere a) := by
  have hcollect := (collect_safe wf ht).and (collect_reindexes t a)
  refine Ensures.bind (hcollect.mono (fun _ _ h => h) fun _ h => h.2.touches) ?_
  rintro pool b ⟨⟨wfb, -, -⟩, hre, hres, hpool⟩
  have hdrawn : ∀ p, a.Under t p → DrawnFrom u a t b p := by
    intro p hp
    refine ⟨hre.toExtends.size_le, ?_, fun x r hx _ _ => hp.trans (hre.under_iff.mp hx)⟩
    exact (wf.holds_under (ht.holds hres) hp).extends hre.toExtends
  have hfilled : ((growing (passedOn_drawnFrom (u := u) a t)).beside
      (growing (passedOn_drawnFrom a t)).Filled).inOrder ⟨b, pool⟩ :=
    ⟨wfb, fun p hp => hdrawn p (hpool p hp)⟩
  have hfactorize := Discipline.factorizeAgainst_obeys (growing_copies (passedOn_drawnFrom a t)) t
    hfilled (hdrawn t (.refl a t))
  refine Ensures.bind (Ensures.beside (P := fun x c => Touches (a.SlotUnder t) nowhere a c ∧
    DrawnFrom u a t c x.1) (Ensures.mono hfactorize ?_ ?_)) ?_
  · rintro q w ⟨-, hgrows, hq⟩
    exact ⟨hre.touches.trans hgrows.touches, hq q List.mem_cons_self⟩
  · rintro w ⟨-, hgrows⟩
    exact hre.touches.trans hgrows.touches
  · intro _ c h
    exact Ensures.answer h

/-- NORMALIZATION TOUCHES ONLY INDEXES UNDER THE TERM, although it numbers
another one. -/
theorem normalize_touches (wf : a.WellFormed u) (ht : a.Permits u t) :
    Ensures (normalize t) a (fun _ b => Touches (a.SlotUnder t) nowhere a b)
      (Touches (a.SlotUnder t) nowhere a) := by
  apply Ensures.bind (factorize_touches wf ht)
  rintro q b ⟨htouch, hdrawn⟩
  have hafter {c : Arena V} (h : ReindexedAt (b.SlotUnder q) b c) :
      Touches (a.SlotUnder t) nowhere a c := by
    refine htouch.andThen h.touches (fun place hlt hp => ?_) fun _ _ hp => hp
    obtain ⟨x, hx, hslot, hr⟩ := hp
    exact ⟨x, hdrawn.origin x _ hx hr hlt, hslot, by rw [hr, htouch.id]⟩
  apply Ensures.bind ((number_reindexes q 0 b).mono (fun _ _ h => hafter h) fun _ h => hafter h)
  intro _ c h
  exact Ensures.answer h

/-! ## Contents and copies of variables -/

/-- Attaching a value touches one content. -/
theorem attach_touches (t : Term) (v : V) :
    Ensures (attach t v) a
      (fun _ b => Touches nowhere (fun place => t = .compound ⟨a.id, place⟩) a b)
      (Touches nowhere (fun place => t = .compound ⟨a.id, place⟩) a) := by
  have hsame (cs : Nat → Prop) : Touches nowhere cs a a := .refl a
  cases t with
  | compound r =>
    refine Ensures.bind (P := fun n b => b = a ∧ a.node (.compound r) r = .ok n)
      (Ensures.look (fun _ h => ⟨rfl, h⟩) (hsame _)) ?_
    rintro n b ⟨rfl, hn⟩
    have hid : r.arena = b.id := by
      by_contra hne
      rw [Arena.node, node?, if_neg hne] at hn
      cases hn
    refine ⟨⟨rfl, fun _ _ h => h, fun _ _ h => h⟩, fun _ _ _ => rfl, fun place _ hnot => ?_⟩
    refine ContentTable.get?_insert_of_ne _ _ fun heq => hnot ?_
    rw [← hid, heq]
  | _ => exact Ensures.refusal (hsame _)

/-- Copying a variable gives an index to the copy and touches nothing. -/
theorem duplicateVar_touches (wf : a.WellFormed u) (t : Term) :
    Ensures (duplicateVar t) a (fun _ b => Touches nowhere nowhere a b)
      (Touches nowhere nowhere a) := by
  have hsame : Touches nowhere nowhere a a := .refl a
  unfold duplicateVar
  split
  · exact Ensures.refusal hsame
  · exact Ensures.refusal hsame
  · refine Ensures.bind_ok (y := a) (x := a) rfl ?_
    split
    · exact Ensures.bind_ok (y := a) (x := a) rfl (Ensures.refusal hsame)
    · next name type _ =>
      refine Ensures.bind (P := fun _ b => b = a) (Ensures.look (fun _ _ => rfl) hsame) ?_
      rintro i b rfl
      have hgrows : b.Grows (b.withNode (.var name type)) := grows_withNode wf _
      refine Ensures.bind_ok (x := .var ⟨b.id, b.nodes.size⟩) (y := b.withNode (.var name type))
        rfl (Ensures.bind_ok (setIndex_eq _ i) (Ensures.answer ?_))
      have hset := ReindexedAt.setIndex (b.withNode (.var name type)) (.var ⟨b.id, b.nodes.size⟩) i
      refine hgrows.touches.andThen hset.touches (fun place hlt hp => ?_) fun _ _ hp => hp
      obtain ⟨x, hx, -, hr⟩ := hp
      cases hx.eq_of_argsOrNone argsOrNone_var
      cases hr
      exact Nat.lt_irrefl _ hlt

end Arena

/-! ## Operations -/

namespace Operation

open Arena

variable {V α : Type} {u : Use} {a : Arena V} {ix cs : Nat → Prop}

/-- The term whose indexes the operation takes away or gives. -/
def reindexed? : Operation V → Option Term
  | collect t | collectInto t _ | factorize t | number t _ | normalize t => some t
  | _ => none

/-- The places at which the operation may change an index. -/
def Reindexes (a : Arena V) (op : Operation V) (place : Nat) : Prop :=
  ∃ t, op.reindexed? = some t ∧ a.SlotUnder t place

/-- The places at which the operation may change a content. -/
def Refills (a : Arena V) (op : Operation V) (place : Nat) : Prop :=
  ∃ v, op = .attach (.compound ⟨a.id, place⟩) v

theorem touches_handOut {m : BuildM V α} {handles : α → List Term}
    (h : Ensures m a (fun _ b => Touches ix cs a b) (Touches ix cs a)) :
    Touches ix cs a (handOut m handles a).1 := by
  unfold handOut
  split
  · next heq => exact h.of_answer heq
  · next heq => exact h.of_failure heq

theorem touches_handOutPool {m : PoolM V α} {pool : Pool} {handles : α → List Term}
    (h : Ensures m ⟨a, pool⟩ (fun _ w => Touches ix cs a w.arena)
      (fun w => Touches ix cs a w.arena)) :
    Touches ix cs a (handOutPool m pool handles a).1 := by
  unfold handOutPool
  split
  · next heq => exact h.of_answer heq
  · next heq => exact h.of_failure heq

/-- What only grows touches nothing. -/
theorem touches_of_grows {m : BuildM V α} {T : α → List Term} {handles : α → List Term}
    (h : Safe u Grows m T a) : Touches ix cs a (handOut m handles a).1 :=
  touches_handOut (Ensures.mono h (fun _ _ hx => hx.2.1.touches) fun _ hx => hx.2.touches)

/-- EVERY OPERATION TOUCHES ONLY WHAT IT MAY: an index under the term that
it collects or numbers, or the content that it attaches. -/
theorem run_touches (wf : a.WellFormed u) (supply : NameSupply) (op : Operation V)
    (h : ∀ t ∈ op.given, a.Permits u t) :
    Touches (op.Reindexes a) (op.Refills a) a (op.run supply a).1 := by
  have hunder {t : Term} {b : Arena V} (hop : op.reindexed? = some t)
      (hb : Touches (a.SlotUnder t) nowhere a b) : Touches (op.Reindexes a) (op.Refills a) a b :=
    (Touches.refl a).andThen hb (fun place _ hp => ⟨t, hop, hp⟩) fun _ _ hp => hp.elim
  have hreindexed {t : Term} {b : Arena V} (hop : op.reindexed? = some t)
      (hb : ReindexedAt (a.SlotUnder t) a b) : Touches (op.Reindexes a) (op.Refills a) a b :=
    hunder hop hb.touches
  cases op with
  | coerce value => exact touches_of_grows (HostValue.toTerm_safe value wf h)
  | compound f args => exact touches_of_grows (compound_safe wf f h)
  | compoundOf f args => exact touches_of_grows (compoundOf_safe wf f h)
  | withArguments t args =>
    exact touches_of_grows (withArguments_safe wf t fun s hs => h s (List.mem_cons_of_mem t hs))
  | attach t value =>
    refine touches_handOut ((attach_touches t value).mono (fun _ b hb => ?_) fun b hb => ?_) <;>
    · refine (Touches.refl a).andThen hb (fun _ _ hp => hp.elim) fun place _ hp => ?_
      exact ⟨value, by rw [hp]⟩
  | declareVar name type => exact touches_of_grows (declareVar_safe wf name type)
  | typedVar α name =>
    exact touches_of_grows (new_safe wf name)
  | freshVar α => exact touches_of_grows (fresh_safe wf supply)
  | duplicateVar t =>
    refine touches_handOut ((duplicateVar_touches wf t).mono (fun _ b hb => ?_) fun b hb => ?_) <;>
    exact (Touches.refl a).andThen hb (fun _ _ hp => hp.elim) fun _ _ hp => hp.elim
  | arguments t => exact touches_handOut (Ensures.look (fun _ _ => .refl a) (.refl a))
  | collect t =>
    exact touches_handOut ((collect_reindexes t a).mono (fun _ _ hb => hreindexed rfl hb.1)
      fun _ hb => hreindexed rfl hb)
  | collectInto t pool =>
    exact touches_handOutPool ((collectInto_reindexes t ⟨a, pool⟩).mono
      (fun _ _ hb => hreindexed rfl hb) fun _ hb => hreindexed rfl hb)
  | factorize t =>
    exact touches_handOut ((factorize_touches wf (h t List.mem_cons_self)).mono
      (fun _ _ hb => hunder rfl hb.1) fun _ hb => hunder rfl hb)
  | factorizeAgainst t pool =>
    have hpooled : Pooled u (⟨a, pool⟩ : Workspace V Pool) :=
      ⟨wf, fun p hp => h p (List.mem_cons_of_mem t (Array.mem_toList_iff.mpr hp))⟩
    exact touches_handOutPool ((factorizeAgainst_safe t hpooled (h t List.mem_cons_self)).mono
      (fun _ _ hb => hb.2.1.touches) fun _ hb => hb.2.touches)
  | number t start =>
    exact touches_handOut ((number_reindexes t start a).mono (fun _ _ hb => hreindexed rfl hb)
      fun _ hb => hreindexed rfl hb)
  | normalize t =>
    exact touches_handOut ((normalize_touches wf (h t List.mem_cons_self)).mono
      (fun _ _ hb => hunder rfl hb) fun _ hb => hunder rfl hb)
  | substitute t frame =>
    exact touches_of_grows (substitute_safe frame t wf (h t List.mem_cons_self) fun s hs =>
      h s (List.mem_cons_of_mem t hs))

end Operation

end TermGraph
