import Mathlib.Logic.Relation
import TermGraph.Arena.View
import TermGraph.Proofs.Closures
import TermGraph.Proofs.Effects

/-!
# Confinement — a handle keeps what it says

What a handle says of its node — name, type, arguments, signature, value —
is the same after every operation, in the arena itself and in every copy
that was taken while the node was there. Its index and its content may
change, and `Operation.run_touches` says when; here this is read off for
one handle, and for a whole history of the host.

Where an operation is given a closure, the closure may run operations of
its own. What the rest of the work does is growth: `Interleaved` is a run
in which arenas grow and closures are called, one after another. If the
index of a handle differs in the end, there was a call that changed it.

## What is proved

`Session.Reachable.effects_confined` — all of this, for every handle that
resolves in a copy a host can reach, under documented use and under free
use.
-/

namespace TermGraph

namespace Arena

variable {V : Type} {u : Use} {a b : Arena V} {t : Term}

/-! ## What a handle says -/

/-- The handle says the same in both arenas, index and content apart. -/
structure SameReadings (a b : Arena V) (t : Term) : Prop where
  node : ∀ r, t.ref? = some r → b.node? r = a.node? r
  name : b.name t = a.name t
  varType : b.varType t = a.varType t
  arity : b.arity t = a.arity t
  args : b.args t = a.args t
  signature : b.signature t = a.signature t
  value : b.payloadValue? t = a.payloadValue? t
  view : b.view t = a.view t

/-- The view follows the node, also where the handle is of another kind. -/
theorem Extends.view_frozen (wf : a.WellFormed u) (hab : a.Extends b) (ht : a.Holds u t) :
    b.view t = a.view t := by
  cases t with
  | var r | compound r | payload r =>
    obtain ⟨n, hok, hn, -⟩ := ht.node rfl
    simp only [view, bind, Except.bind, hok, hab.node_eq hok]
    cases n with
    | compound name signature span =>
      rw [node?, if_pos (ht.place_lt rfl).1] at hn
      obtain ⟨ts, hts, -⟩ := wf.sound r.id _ hn
      simp only [operandsOf, hts, hab.operands _ _ hts]
    | var _ _ => rfl
    | payload _ => rfl
  | _ => rfl

/-- A HANDLE SAYS THE SAME IN EVERY EXTENSION. -/
theorem Extends.sameReadings (wf : a.WellFormed u) (hab : a.Extends b) (ht : a.Holds u t) :
    a.SameReadings b t where
  node _ hr := hab.node?_frozen ht hr
  name := hab.name_frozen ht
  varType := hab.varType_frozen ht
  arity := by rw [arity, hab.args_frozen wf ht, arity]
  args := hab.args_frozen wf ht
  signature := hab.signature_frozen ht
  value := hab.payloadValue?_frozen ht
  view := hab.view_frozen wf ht

/-- What stands under a term that may be passed on, and resolves, is
held. -/
theorem Permits.holds_under (wf : a.WellFormed u) (ht : a.Permits u t) {x : Term}
    (h : a.Under t x) (hx : a.resolves x = true) : a.Holds u x := by
  rcases h.cases with rfl | ⟨arg, harg, h⟩
  · exact ht.holds hx
  · exact wf.holds_under (wf.argsOrNone_sound arg harg).1 h

end Arena

/-! ## One operation -/

namespace Operation

open Arena

variable {V : Type} {u : Use} {a b : Arena V} {h : Term}

/-- What an operation that takes the arena `a` to `b` does to a handle. -/
structure Confined (u : Use) (op : Operation V) (h : Term) (a b : Arena V) : Prop where
  readings : a.SameReadings b h
  size_le : a.nodes.size ≤ b.nodes.size
  /-- The operation collects or numbers a term from which the handle is
  reached; under free use, the node of the handle. -/
  index : b.index h ≠ a.index h → ∃ t x, op.reindexed? = some t ∧ a.Under t x ∧
    x.ref? = h.ref? ∧ (u = .documented → x = h)
  /-- The operation attaches a value to the very handle. -/
  content : b.content? h ≠ a.content? h → ∃ v, op = .attach h v

/-- What an operation collects or numbers was given to it. -/
theorem mem_given_of_reindexed? {op : Operation V} {t : Term} (h : op.reindexed? = some t) :
    t ∈ op.given := by
  cases op <;> cases h <;> exact List.mem_cons_self

/-- EVERY OPERATION IS CONFINED, also one that fails. -/
theorem run_confined (wf : a.WellFormed u) (supply : NameSupply) (op : Operation V)
    (hgiven : ∀ t ∈ op.given, a.Permits u t) (hh : a.Holds u h) :
    op.Confined u h a (op.run supply a).1 := by
  have htouch := op.run_touches wf supply hgiven
  refine ⟨htouch.sameReadings wf hh, htouch.size_le, fun hne => ?_, fun hne => ?_⟩
  · by_contra hnot
    refine hne (htouch.index_eq hh fun r hr hplace => hnot ?_)
    obtain ⟨t, hop, x, hx, hslot, hxr⟩ := hplace
    have hid := (hh.place_lt hr).1
    rw [← hid] at hxr
    refine ⟨t, x, hop, hx, hxr.trans hr.symm, fun hu => ?_⟩
    subst hu
    have hres : a.resolves x = true := by
      obtain ⟨n, hn, -⟩ := hh r hr
      simp only [resolves, hxr, hn, Option.isSome_some]
    have hxheld := (hgiven t (mem_given_of_reindexed? hop)).holds_under wf hx hres
    exact (eq_of_slot hh hxheld hslot hr hxr).symm
  · by_contra hnot
    refine hne (htouch.content?_eq hh fun r hr hplace => hnot ?_)
    subst hr
    obtain ⟨v, hop⟩ := hplace
    rw [← (hh.place_lt (t := .compound r) rfl).1] at hop
    exact ⟨v, hop⟩

end Operation

/-! ## Copies -/

namespace Session

open Arena

variable {V : Type} {u : Use} {s s' : Session V} {c d : Copy V}

/-- In the session `s'`, the copy `d` is what became of the copy `c` of `s`,
or of a copy that was taken of it since. -/
inductive Heir (u : Use) (s : Session V) (c : Copy V) : Session V → Copy V → Prop
  | self (h : c ∈ s.copies) : Heir u s c s c
  /-- A move that leaves the copy as it is, or takes a copy of it. -/
  | kept {s' s'' : Session V} {d : Copy V} (h : Heir u s c s' d) (move : Step u s' s'')
    (hd : d ∈ s''.copies) : Heir u s c s'' d
  /-- An operation on the copy. -/
  | operated {before after : List (Copy V)} {d : Copy V} {supply : NameSupply} (op : Operation V)
    (h : Heir u s c ⟨before ++ d :: after, supply⟩ d) (hgiven : ∀ t ∈ op.given, d.Admits u t) :
    Heir u s c ⟨before ++ d.after supply op :: after, op.supplyAfter supply⟩ (d.after supply op)

/-- An heir extends what it comes from. -/
theorem Heir.extends (h : Heir u s c s' d) (hc : c.InOrder u) :
    c.arena.Extends d.arena ∧ d.InOrder u := by
  induction h with
  | self _ => exact ⟨.refl _, hc⟩
  | kept _ _ _ ih => exact ih
  | @operated _ _ _ supply op _ hgiven ih =>
    obtain ⟨hext, hd⟩ := ih
    have hrun := op.run_sound hd.1 supply fun t ht => hd.permits (hgiven t ht)
    exact ⟨hext.trans hrun.2.1, hd.after _ op hgiven⟩

end Session

/-! ## Closures -/

section Closures

open Arena

variable {V σ α β : Type} {u : Use} {call : Arena V → Arena V → Prop} {a b c : Arena V}
  {w : Workspace V σ} {h t : Term}

/-- The computation, run on the first arena beside some record, leaves the
second one, with an answer or with an error. -/
def WorkM.Leaves (m : WorkM V σ α) (a b : Arena V) : Prop :=
  ∃ x, Ensures m ⟨a, x⟩ (fun _ w => w.arena = b) (fun w => w.arena = b)

theorem WorkM.leaves (m : WorkM V σ α) (w : Workspace V σ) :
    Ensures m w (fun _ w' => m.Leaves w.arena w'.arena) (fun w' => m.Leaves w.arena w'.arena) := by
  unfold Ensures
  split
  · next heq => exact ⟨w.carried, .of_ok heq rfl⟩
  · next heq => exact ⟨w.carried, .of_error heq rfl⟩

/-- The arena grows and calls are made, one after another. -/
def Arena.Interleaved (call : Arena V → Arena V → Prop) : Arena V → Arena V → Prop :=
  Relation.ReflTransGen fun a b => a.Grows b ∨ a.Extends b ∧ call a b

namespace Arena.Interleaved

theorem refl (a : Arena V) : Interleaved call a a := Relation.ReflTransGen.refl

theorem ofGrows (h : a.Grows b) : Interleaved call a b := .single (.inl h)

theorem ofCall (hab : a.Extends b) (h : call a b) : Interleaved call a b := .single (.inr ⟨hab, h⟩)

theorem trans (h : Interleaved call a b) (k : Interleaved call b c) : Interleaved call a c :=
  Relation.ReflTransGen.trans h k

theorem toExtends (h : Interleaved call a b) : a.Extends b := by
  induction h with
  | refl => exact .refl a
  | tail _ step ih =>
    rcases step with hgrows | ⟨hext, -⟩
    · exact ih.trans hgrows.toExtends
    · exact ih.trans hext

/-- What growth leaves alone differs in the end only if a call made it
differ. -/
theorem exists_call {γ : Type} {f : Arena V → γ}
    (hgrows : ∀ b c, a.Extends b → b.Grows c → f c = f b) (h : Interleaved call a b)
    (hne : f b ≠ f a) :
    ∃ a' b', Interleaved call a a' ∧ call a' b' ∧ Interleaved call b' b ∧ f b' ≠ f a' := by
  induction h with
  | refl => exact absurd rfl hne
  | @tail b c hab step ih =>
    by_cases hb : f b = f a
    · rcases step with hbc | ⟨-, hbc⟩
      · exact absurd ((hgrows b c (toExtends hab) hbc).trans hb) hne
      · exact ⟨b, c, hab, hbc, .refl c, fun heq => hne (heq.trans hb)⟩
    · obtain ⟨a', b', ha', hcall, hb', hdiff⟩ := ih hb
      exact ⟨a', b', ha', hcall, hb'.trans (.single step), hdiff⟩

end Arena.Interleaved

/-- What a run that takes the arena `a` to `b` does to a handle, the calls
apart that it makes. -/
structure Arena.ConfinedTo (call : Arena V → Arena V → Prop) (h : Term) (a b : Arena V) : Prop where
  readings : a.SameReadings b h
  size_le : a.nodes.size ≤ b.nodes.size
  index : b.index h ≠ a.index h → ∃ a' b', Interleaved call a a' ∧ call a' b' ∧
    Interleaved call b' b ∧ b'.index h ≠ a'.index h
  content : b.content? h ≠ a.content? h → ∃ a' b', Interleaved call a a' ∧ call a' b' ∧
    Interleaved call b' b ∧ b'.content? h ≠ a'.content? h

theorem Arena.Interleaved.confined (hab : Interleaved call a b) (wf : a.WellFormed u)
    (hh : a.Holds u h) : ConfinedTo call h a b := by
  have hext := hab.toExtends
  have htouch {b c : Arena V} (hbc : b.Grows c) : Touches nowhere nowhere b c := hbc.touches
  refine ⟨hext.sameReadings wf hh, hext.size_le, fun hne => ?_, fun hne => ?_⟩
  · refine hab.exists_call (f := (·.index h)) (fun b c hab hbc => ?_) hne
    exact (htouch hbc).index_eq (hh.extends hab) fun _ _ hp => hp
  · refine hab.exists_call (f := (·.content? h)) (fun b c hab hbc => ?_) hne
    exact (htouch hbc).content?_eq (hh.extends hab) fun _ _ hp => hp

/-- However the computation ends, it does to the handle no more than the
calls that it makes. -/
def ConfinedRun (call : Arena V → Arena V → Prop) (h : Term) (m : WorkM V σ α)
    (w : Workspace V σ) : Prop :=
  Ensures m w (fun _ w' => ConfinedTo call h w.arena w'.arena)
    (fun w' => ConfinedTo call h w.arena w'.arena)

/-- The computation only lets the arena grow and makes calls, however it
ends; and the terms answered may be passed on. -/
def Interleaves (u : Use) (call : Arena V → Arena V → Prop) (m : WorkM V σ α)
    (terms : α → List Term) (w : Workspace V σ) : Prop :=
  Ensures m w
    (fun x w' => w'.arena.WellFormed u ∧ Interleaved call w.arena w'.arena ∧
      ∀ t ∈ terms x, w'.arena.Permits u t)
    (fun w' => w'.arena.WellFormed u ∧ Interleaved call w.arena w'.arena)

/-- Growth and calls from an arena on, as a discipline. A term is known if it
may be passed on. -/
def Arena.calling (u : Use) (call : Arena V → Arena V → Prop) (a : Arena V) :
    Discipline (Arena V) where
  inOrder b := b.WellFormed u ∧ a.Extends b
  known b := b.Permits u
  follows := Interleaved call
  refl := .refl
  trans := .trans
  later _ hbc ht := ht.extends hbc.toExtends

theorem Arena.calling_copies (u : Use) (call : Arena V → Arena V → Prop) (a : Arena V) :
    (calling u call a).Copies where
  args hb _ hts s hs := (hb.1.args_sound hts s hs).1.permits
  withArguments {b t ts} hb _ hts := by
    refine Ensures.mono (withArguments_safe hb.1 t hts) ?_ ?_
    · rintro c d ⟨wf, hgrows, hc⟩
      exact ⟨⟨wf, hb.2.trans hgrows.toExtends⟩, .ofGrows hgrows, hc⟩
    · rintro d ⟨wf, hgrows⟩
      exact ⟨⟨wf, hb.2.trans hgrows.toExtends⟩, .ofGrows hgrows⟩

namespace Interleaves

variable {m : WorkM V σ α} {T : α → List Term}

theorem bind {f : α → WorkM V σ β} {answers : β → List Term} (h : Interleaves u call m T w)
    (hf : ∀ x w', w'.arena.WellFormed u → w.arena.Extends w'.arena →
      (∀ t ∈ T x, w'.arena.Permits u t) → Interleaves u call (f x) answers w') :
    Interleaves u call (m >>= f) answers w := by
  apply Ensures.bind h
  rintro x w' ⟨wf, hab, hterms⟩
  refine (hf x w' wf hab.toExtends hterms).mono ?_ ?_
  · rintro y w'' ⟨wf', hbc, hanswers⟩
    exact ⟨wf', hab.trans hbc, hanswers⟩
  · rintro w'' ⟨wf', hbc⟩
    exact ⟨wf', hab.trans hbc⟩

theorem answer (wf : w.arena.WellFormed u) {x : α} (h : ∀ t ∈ T x, w.arena.Permits u t) :
    Interleaves u call (pure x) T w :=
  Ensures.answer ⟨wf, .refl _, h⟩

theorem confined (hm : Interleaves u call m T w) (wf : w.arena.WellFormed u)
    (hh : w.arena.Holds u h) : ConfinedRun call h m w :=
  Ensures.mono hm (fun _ _ hw => hw.2.1.confined wf hh) fun _ hw => hw.2.confined wf hh

/-- What only lets the arena grow makes no call. -/
theorem ofSafe {m : BuildM V α} (h : Safe u Grows m T w.arena) :
    Interleaves u call (WorkM.onArena m) T w := by
  refine (Ensures.onArena h).mono ?_ ?_
  · rintro x w' ⟨⟨wf, hgrows, hterms⟩, -⟩
    exact ⟨wf, .ofGrows hgrows, hterms⟩
  · rintro w' ⟨⟨wf, hgrows⟩, -⟩
    exact ⟨wf, .ofGrows hgrows⟩

/-- A run of moves is one call. -/
theorem ofRun {supply : σ → NameSupply} {d : Copy V} {x : σ} (hd : d.InOrder u)
    (h : RunsTo u supply d x m T) (hcall : ∀ a b, m.Leaves a b → call a b) :
    Interleaves u call m T ⟨d.arena, x⟩ := by
  refine (Ensures.and h (WorkM.leaves m ⟨d.arena, x⟩)).mono ?_ ?_
  · rintro y ⟨b, z⟩ ⟨⟨e, rfl, hrun, hterms⟩, hleaves⟩
    have he := (hrun.precedes hd).inOrder
    exact ⟨he.1, .ofCall (hrun.extends hd) (hcall _ _ hleaves),
      fun t ht => he.permits (hterms t ht)⟩
  · rintro ⟨b, z⟩ ⟨⟨e, rfl, hrun⟩, hleaves⟩
    exact ⟨(hrun.precedes hd).inOrder.1, .ofCall (hrun.extends hd) (hcall _ _ hleaves)⟩

/-- A run of growth and calls obeys the discipline of them. -/
theorem obeys (hm : Interleaves u call m T w) (hext : a.Extends w.arena) :
    ((calling u call a).beside fun _ _ => True).Obeys m T w := by
  refine Ensures.mono hm ?_ ?_
  · rintro x w' ⟨wf, hab, hterms⟩
    exact ⟨⟨⟨wf, hext.trans hab.toExtends⟩, trivial⟩, hab, hterms⟩
  · rintro w' ⟨wf, hab⟩
    exact ⟨⟨⟨wf, hext.trans hab.toExtends⟩, trivial⟩, hab⟩

/-- A MAPPING IS GROWTH AND CALLS OF THE CLOSURE. -/
theorem mapCompounds {mapper : Term → WorkM V σ Term}
    (hmapper : ∀ q w, a.Extends w.arena → w.arena.WellFormed u → w.arena.Permits u q →
      Interleaves u call (mapper q) ([·]) w) (t : Term) (hext : a.Extends w.arena)
    (wf : w.arena.WellFormed u) (ht : w.arena.Permits u t) :
    Interleaves u call (Arena.mapCompounds mapper t) ([·]) w := by
  have hcalls (q : Term) : ((calling u call a).beside fun _ (_ : σ) => True).Agrees [q]
      (mapper q) (mapper q) ([·]) :=
    .diagonal fun w hw hq =>
      (hmapper q w hw.1.2 hw.1.1 (hq q List.mem_cons_self)).obeys hw.1.2
  have hrun := Discipline.mapCompounds_obeys (calling_copies u call a) ⟨fun _ _ h => h⟩ hcalls t
    (w := w) ⟨⟨wf, hext⟩, trivial⟩ ht
  exact Ensures.mono hrun (fun _ _ h => ⟨h.1.1.1, h.2⟩) fun _ h => ⟨h.1.1.1, h.2⟩

/-- BUILDING OVER CLOSURES IS GROWTH AND CALLS OF THE CLOSURES. -/
theorem compoundFrom {closures : List (WorkM V σ Term)} (f : String)
    (hclosures : ∀ m ∈ closures, ∀ w, a.Extends w.arena → w.arena.WellFormed u →
      Interleaves u call m ([·]) w) (hext : a.Extends w.arena) (wf : w.arena.WellFormed u) :
    Interleaves u call (Arena.compoundFrom f closures) ([·]) w := by
  have hargs : ∀ (index : Nat) (w : Workspace V σ), a.Extends w.arena → w.arena.WellFormed u →
      Interleaves u call (HostValue.argumentsFrom f index closures) id w := by
    induction closures with
    | nil => exact fun _ _ _ wf => answer wf fun _ ht => by cases ht
    | cons m rest ih =>
      intro index w hext wf
      rw [HostValue.argumentsFrom]
      have hhead : Interleaves u call _ ([·]) w :=
        (hclosures m List.mem_cons_self w hext wf).argumentFrom f index
      refine bind hhead fun t w₁ wf₁ hext₁ ht => ?_
      refine bind (ih (fun m' hm' => hclosures m' (List.mem_cons_of_mem m hm')) (index + 1) w₁
        (hext.trans hext₁) wf₁) fun ts w₂ wf₂ hext₂ hts => answer wf₂ fun s hs => ?_
      rcases List.mem_cons.mp hs with rfl | hs
      · exact (ht s List.mem_cons_self).extends hext₂
      · exact hts s hs
  exact bind (hargs 0 w hext wf) fun ts w₁ wf₁ _ hts => ofSafe (compound_safe wf₁ f hts)

end Interleaves

/-- A later arena of a copy, with one more handle, is that of a copy. -/
theorem Copy.InOrder.later {c : Copy V} (hc : c.InOrder u) (hext : c.arena.Extends b)
    (wf : b.WellFormed u) {q : Term} (hq : b.Permits u q) :
    c.Precedes u ⟨b, q :: c.issued⟩ ∧ Copy.Admits u ⟨b, q :: c.issued⟩ q := by
  refine ⟨⟨⟨wf, ?_⟩, fun t ht hu => ?_⟩, fun _ => .inr (.inl List.mem_cons_self)⟩
  · exact List.forall_mem_cons.mpr ⟨hq, fun t ht => (hc.2 t ht).extends hext⟩
  · rcases ht hu with hinline | hissued | ⟨r, hr, hforeign⟩
    · exact .inl hinline
    · exact .inr (.inl (List.mem_cons_of_mem q hissued))
    · exact .inr (.inr ⟨r, hr, by rwa [hext.id]⟩)

end Closures

/-- NODES ARE IMMUTABLE AND SIDE EFFECTS ARE CONFINED. For every handle
that resolves in a copy that a host can reach:

- an operation, failing or not, changes nothing that the handle says of its
  node; it changes the index only by collecting or numbering a term from
  which the handle is reached, and the content only by attaching one to the
  very handle;
- in every copy taken from then on the handle says the same;
- what a mapping, or a compound term over closures, does besides is what a
  call of a closure did. -/
theorem Session.Reachable.effects_confined {V : Type} {u : Use} {s : Session V} (hs : s.Reachable u)
    {c : Copy V} (hc : c ∈ s.copies) {h : Term} (hh : c.Admits u h)
    (hres : c.arena.resolves h = true) :
    (∀ op : Operation V, (∀ t ∈ op.given, c.Admits u t) →
      op.Confined u h c.arena (c.after s.supply op).arena) ∧
    (∀ s' d, Session.Heir u s c s' d → c.arena.SameReadings d.arena h) ∧
    (∀ (σ : Type) (supply : σ → NameSupply) (mapper : Term → WorkM V σ Term) (t : Term) (x : σ),
      c.Admits u t →
      (∀ q, UsesMoves u supply c [q] (mapper q)) →
      ConfinedRun (fun a b => ∃ q, (mapper q).Leaves a b) h (Arena.mapCompounds mapper t)
        ⟨c.arena, x⟩) ∧
    (∀ (σ : Type) (supply : σ → NameSupply) (f : String) (closures : List (WorkM V σ Term)) (x : σ),
      (∀ m ∈ closures, UsesMoves u supply c [] m) →
      ConfinedRun (fun a b => ∃ m ∈ closures, m.Leaves a b) h (Arena.compoundFrom f closures)
        ⟨c.arena, x⟩) := by
  have horder := hs.inOrder c hc
  have wf := horder.1
  have hheld : c.arena.Holds u h := (horder.permits hh).holds hres
  refine ⟨fun op hgiven => ?_, fun s' d hd => ?_, fun σ supply mapper t x ht hmapper => ?_,
    fun σ supply f closures x hclosures => ?_⟩
  · exact op.run_confined wf s.supply (fun t ht => horder.permits (hgiven t ht)) hheld
  · exact (hd.extends horder).1.sameReadings wf hheld
  · refine Interleaves.confined (T := ([·])) ?_ wf hheld
    refine Interleaves.mapCompounds (a := c.arena) (fun q w hext wfw hq => ?_) t (.refl _) wf
      (horder.permits ht)
    obtain ⟨hd, hdq⟩ := horder.later hext wfw hq
    exact .ofRun hd.inOrder (hmapper q _ w.carried hd (List.forall_mem_singleton.mpr hdq))
      fun _ _ hleaves => ⟨q, hleaves⟩
  · refine Interleaves.confined (T := ([·])) ?_ wf hheld
    refine Interleaves.compoundFrom (a := c.arena) f (fun m hm w hext wfw => ?_) (.refl _) wf
    obtain ⟨hd, -⟩ := horder.later hext wfw (hheld.extends hext).permits
    exact .ofRun hd.inOrder (hclosures m hm _ w.carried hd (List.forall_mem_nil _))
      fun _ _ hleaves => ⟨m, hm, hleaves⟩

/-- A variable of the sample, when the term is normalized. -/
theorem Session.effects_confined_sample :
    (Operation.normalize Term.sample).Confined .documented (.var ⟨⟨0⟩, 0⟩) Copy.sample.arena
      (Copy.sample.after {} (.normalize Term.sample)).arena :=
  (Session.Reachable.effects_confined reachable_sample (List.mem_singleton_self _)
    (h := .var ⟨⟨0⟩, 0⟩) (by decide +kernel) (by decide +kernel)).1 _ (by decide +kernel)

end TermGraph
