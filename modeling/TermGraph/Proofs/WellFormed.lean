import TermGraph.Arena.View
import TermGraph.Proofs.Extension

/-!
# Well-formed arenas — tables that agree with each other

An arena is five tables, and its operations rely on what the tables say
about each other. `WellFormed` states all of it in one place: the index
table is as long as the node table, the run of a compound node lies inside
the operand store, its signature is that of its functor and the length of
its run, every argument is a handle that resolves to an OLDER node, and
nothing but a node has a content.

## Two uses

Copies of an arena keep its number. A handle made by one copy after the
two have parted may resolve in the other to an unrelated node, of another
kind than the handle says. How much can be promised depends on whether
that happens:

- under FREE use any handle is passed anywhere, and a resolving handle may
  be of another kind than its node;
- under DOCUMENTED use a handle is only used with the copy that made it,
  or with copies taken later; then the kinds agree, and payloads never
  have an index.

`Use` is a parameter of every statement, so each fact is proved once for
both. The facts that need the kinds to agree ask for documented use.

## What is proved

`WellFormed.shell` — under documented use a compound handle always has a
functor and arguments. `WellFormed.args_sound` — arguments that can be
read are held by the arena, and lower than the term: the reason why every
traversal comes to an end. `WellFormed.view_sound` — so are the arguments
that a view shows, though a view follows the node, and not the kind that
the handle claims.
-/

namespace TermGraph

/-- What holds of a term as soon as it holds of all lower ones holds of every
term. -/
theorem Term.byHeight {P : Term → Prop}
    (step : ∀ t, (∀ s, s.height < t.height → P s) → P t) (t : Term) : P t :=
  (measure Term.height).wf.induction t step

/-- How the handles of an arena and its copies are used. -/
inductive Use
  /-- With the copy that made them, or with copies taken later. -/
  | documented
  /-- With anything. -/
  | free
  deriving DecidableEq

/-- The kind of handle that a node is made with. -/
def Node.kind {V : Type} : Node V → Kind
  | var _ _ => .var
  | compound _ _ _ => .compound
  | payload _ => .payload

/-- Under documented use a handle is of the kind of its node. -/
def Use.Fits {V : Type} (u : Use) (t : Term) (n : Node V) : Prop :=
  u = .documented → t.kind = n.kind

namespace Arena

variable {V : Type} {u : Use} {a b : Arena V} {t : Term}

/-- The handle resolves, to a node that it fits. Inline values are held by
every arena. -/
def Holds (u : Use) (a : Arena V) (t : Term) : Prop :=
  ∀ r, t.ref? = some r → ∃ n, a.node? r = some n ∧ u.Fits t n

/-- The handle belongs to another arena. -/
def IsForeign (a : Arena V) (t : Term) : Prop := ∃ r, t.ref? = some r ∧ r.arena ≠ a.id

instance (a : Arena V) (t : Term) : Decidable (a.IsForeign t) :=
  decidable_of_iff (t.ref?.any (fun r => decide (r.arena ≠ a.id)) = true) (by
    rw [Option.any_eq_true]
    exact exists_congr fun r => and_congr_right fun _ => decide_eq_true_iff)

/-- The handle may be passed to an operation: it is held, or belongs to
another arena altogether. Free use permits everything. -/
def Permits (u : Use) (a : Arena V) (t : Term) : Prop :=
  u = .documented → a.Holds u t ∨ a.IsForeign t

/-- What is true of a compound node with its arguments. -/
structure SoundShell (u : Use) (a : Arena V) (place : Nat) (name signature : String)
    (args : List Term) : Prop where
  signature_eq : signature = Signature.text name args.length
  named : name = "" → args = []
  ordinary : args = [] → Control.ofName? name = none
  held : ∀ arg ∈ args, a.Holds u arg
  older : ∀ arg ∈ args, arg.height < place + 2

/-- What is true of the node at a place. -/
def SoundAt (u : Use) (a : Arena V) (place : Nat) : Node V → Prop
  | .var name _ => name ≠ "_" ∧ name ≠ "."
  | .compound name signature span =>
    ∃ args, a.operandsIn? span = some args ∧ a.SoundShell u place name signature args
  | .payload _ => u = .documented → a.indexes[place]? = some .unassigned

/-- The tables of the arena agree with each other. -/
structure WellFormed (u : Use) (a : Arena V) : Prop where
  indexes_size : a.indexes.size = a.nodes.size
  contents_lt : ∀ place v, a.contents.get? place = some v → place < a.nodes.size
  sound : ∀ (place : Nat) (n : Node V), a.nodes[place]? = some n → a.SoundAt u place n

/-! ## Handles -/

theorem holds_of_inline (h : t.ref? = none) : a.Holds u t := by
  intro r hr
  rw [h] at hr
  cases hr

theorem Holds.resolves (h : a.Holds u t) : a.resolves t = true := by
  unfold Arena.resolves
  split
  · rfl
  · next r hr =>
    obtain ⟨n, hn, _⟩ := h r hr
    rw [hn]
    rfl

theorem Holds.verify (h : a.Holds u t) : a.verify t = .ok () := by
  rw [Arena.verify, if_pos h.resolves]

theorem Holds.permits (h : a.Holds u t) : a.Permits u t := fun _ => .inl h

theorem permits_of_inline (h : t.ref? = none) : a.Permits u t := (holds_of_inline h).permits

/-- What is permitted and resolves is held. -/
theorem Permits.holds (h : a.Permits u t) (hr : a.resolves t = true) : a.Holds u t := by
  intro r ht
  rw [Arena.resolves, ht] at hr
  obtain ⟨n, hn⟩ := Option.isSome_iff_exists.mp hr
  by_cases hu : u = .documented
  · rcases h hu with hheld | ⟨r', ht', hne⟩
    · exact hheld r ht
    · rw [ht] at ht'
      cases ht'
      rw [node?, if_neg hne] at hn
      cases hn
  · exact ⟨n, hn, fun hd => absurd hd hu⟩

/-- Under free use, what resolves is held. -/
theorem holds_free (h : a.resolves t = true) : a.Holds .free t :=
  Permits.holds (fun hu => by cases hu) h

theorem Holds.extends (h : a.Holds u t) (hab : a.Extends b) : b.Holds u t := by
  intro r hr
  obtain ⟨n, hn, hfit⟩ := h r hr
  exact ⟨n, hab.node?_eq hn, hfit⟩

theorem Permits.extends (h : a.Permits u t) (hab : a.Extends b) : b.Permits u t := by
  intro hu
  rcases h hu with hheld | ⟨r, hr, hne⟩
  · exact .inl (hheld.extends hab)
  · exact .inr ⟨r, hr, by rw [hab.id]; exact hne⟩

/-- A handle that is held refers to a node of the arena. -/
theorem Holds.place_lt (h : a.Holds u t) {r : Reference} (hr : t.ref? = some r) :
    r.arena = a.id ∧ r.id < a.nodes.size := by
  obtain ⟨n, hn, _⟩ := h r hr
  rw [node?] at hn
  split at hn
  · next hid => exact ⟨hid, (Array.getElem?_eq_some_iff.mp hn).1⟩
  · cases hn

/-- Everything held is lower than the next node to be added. -/
theorem Holds.height_lt (h : a.Holds u t) : t.height < a.nodes.size + 2 := by
  unfold Term.height
  split
  · next r hr =>
    have := (h.place_lt hr).2
    omega
  · omega

theorem Holds.node (h : a.Holds u t) {r : Reference} (hr : t.ref? = some r) :
    ∃ n, a.node t r = .ok n ∧ a.node? r = some n ∧ u.Fits t n := by
  obtain ⟨n, hn, hfit⟩ := h r hr
  exact ⟨n, by rw [Arena.node, hn], hn, hfit⟩

theorem holds_reindexed {ix : Array Index} : (a.reindexed ix).Holds u t ↔ a.Holds u t := .rfl

/-! ## Nodes -/

theorem SoundShell.extends {place : Nat} {name signature : String} {args : List Term}
    (h : a.SoundShell u place name signature args) (hab : a.Extends b) :
    b.SoundShell u place name signature args :=
  { h with held := fun arg harg => (h.held arg harg).extends hab }

/-- A sound node stays sound, as long as a payload is given no index. -/
theorem SoundAt.extends {place : Nat} {n : Node V} (h : a.SoundAt u place n) (hab : a.Extends b)
    (hix : ∀ v, n = .payload v → u = .documented →
      b.indexes[place]? = a.indexes[place]?) : b.SoundAt u place n := by
  cases n with
  | var name type => exact h
  | compound name signature span =>
    obtain ⟨args, hargs, hshell⟩ := h
    exact ⟨args, hab.operands _ _ hargs, hshell.extends hab⟩
  | payload v =>
    intro hu
    rw [hix v rfl hu]
    exact h hu

namespace WellFormed

theorem empty (id : ArenaId) : (Arena.empty id : Arena V).WellFormed u :=
  ⟨rfl, fun _ _ h => (by cases h), fun _ _ h => by simp [Arena.empty] at h⟩

/-- Growth keeps an arena well-formed if the new nodes are sound and only
nodes have contents. -/
theorem grows (wf : a.WellFormed u) (h : a.Grows b) (hsize : b.indexes.size = b.nodes.size)
    (hcontents : ∀ place v, b.contents.get? place = some v → place < b.nodes.size)
    (hnew : ∀ place n, a.nodes.size ≤ place → b.nodes[place]? = some n → b.SoundAt u place n) :
    b.WellFormed u := by
  refine ⟨hsize, hcontents, fun place n hn => ?_⟩
  rcases Nat.lt_or_ge place a.nodes.size with hlt | hge
  · have hold : a.nodes[place]? = some n := by
      rw [← hn, Array.getElem?_eq_getElem hlt]
      exact (h.nodes place _ (Array.getElem?_eq_getElem hlt)).symm
    exact (wf.sound place n hold).extends h.toExtends fun _ _ _ => h.indexes place hlt
  · exact hnew place n hge hn

/-- Reindexing keeps an arena well-formed if payloads are given no
index. -/
theorem reindexed (wf : a.WellFormed u) {ix : Array Index} (hsize : ix.size = a.indexes.size)
    (hix : ∀ (place : Nat) (v : V), u = .documented → a.nodes[place]? = some (.payload v) →
      ix[place]? = a.indexes[place]?) : (a.reindexed ix).WellFormed u := by
  refine ⟨hsize.trans wf.indexes_size, wf.contents_lt, fun place n hn => ?_⟩
  apply (wf.sound place n hn).extends (extends_reindexed a ix)
  intro v hv hu
  exact hix place v hu (hv ▸ hn)

/-- What is well-formed under documented use is under free use. -/
theorem free (wf : a.WellFormed u) : a.WellFormed .free := by
  refine ⟨wf.indexes_size, wf.contents_lt, fun place n hn => ?_⟩
  have hsound := wf.sound place n hn
  cases n with
  | var _ _ => exact hsound
  | compound _ _ _ =>
    obtain ⟨args, hargs, hshell⟩ := hsound
    refine ⟨args, hargs, { hshell with held := fun arg harg r hr => ?_ }⟩
    obtain ⟨m, hm, -⟩ := hshell.held arg harg r hr
    exact ⟨m, hm, fun hu => by cases hu⟩
  | payload _ => exact fun hu => by cases hu

/-- A value may be attached to any node. -/
theorem putContent (wf : a.WellFormed u) {place : Nat} (hlt : place < a.nodes.size) (v : V) :
    ({ a with contents := a.contents.insert place v } : Arena V).WellFormed u := by
  refine ⟨wf.indexes_size, fun other w hw => ?_, fun other n hn => ?_⟩
  · by_cases h : other = place
    · exact h ▸ hlt
    · exact wf.contents_lt other w (by rw [← hw, ContentTable.get?_insert_of_ne _ _ h])
  · exact (wf.sound other n hn).extends ⟨rfl, fun _ _ h => h, fun _ _ h => h⟩ fun _ _ _ => rfl

/-! ## Reading -/

/-- The node behind a handle whose arguments can be read. -/
theorem exists_span {r : Reference} {ts : List Term} (h : a.args (.compound r) = .ok ts) :
    ∃ name signature span, a.node? r = some (.compound name signature span) ∧
      a.operandsIn? span = some ts := by
  simp only [args, bind, Except.bind, Arena.node] at h
  split at h
  · cases h
  · next n hn =>
    cases hr : a.node? r with
    | none => rw [hr] at hn; cases hn
    | some m =>
      rw [hr] at hn
      cases hn
      cases n with
      | compound name signature span =>
        refine ⟨name, signature, span, rfl, ?_⟩
        simp only [operandsOf] at h
        split at h
        · next us hus => cases h; exact hus
        · cases h
      | var _ _ => cases h
      | payload _ => cases h

/-- Arguments that can be read are held by the arena, and lower than the
term. -/
theorem args_sound (wf : a.WellFormed u) {ts : List Term} (h : a.args t = .ok ts) :
    ∀ s ∈ ts, a.Holds u s ∧ s.height < t.height := by
  intro s hs
  cases t with
  | compound r =>
    obtain ⟨name, signature, span, hn, hspan⟩ := exists_span h
    rw [node?] at hn
    split at hn
    · obtain ⟨args, hargs, hshell⟩ := wf.sound r.id _ hn
      rw [hspan] at hargs
      cases hargs
      exact ⟨hshell.held s hs, hshell.older s hs⟩
    · cases hn
  | atom _ => cases h; cases hs
  | control _ => cases h; cases hs
  | _ => cases h

/-- A compound handle of a compound node has a functor and arguments. Under
documented use every compound handle that is held is one. -/
theorem shell (wf : a.WellFormed u) {r : Reference}
    (h : a.Holds .documented (.compound r)) :
    ∃ f ts signature, a.functor (.compound r) = .ok f ∧ a.args (.compound r) = .ok ts ∧
      a.signature (.compound r) = .ok signature ∧ a.SoundShell u r.id f signature ts := by
  obtain ⟨n, hok, hn, hfit⟩ := h.node (t := .compound r) rfl
  cases n with
  | compound name signature span =>
    have hid := (h.place_lt (t := .compound r) rfl).1
    rw [node?, if_pos hid] at hn
    obtain ⟨ts, hts, hshell⟩ := wf.sound r.id _ hn
    refine ⟨name, ts, signature, ?_, ?_, ?_, hshell⟩
    · simp only [functor, bind, Except.bind, hok]
    · simp only [args, bind, Except.bind, hok, operandsOf, hts]
    · simp only [Arena.signature, bind, Except.bind, hok]
  | var _ _ => cases hfit rfl
  | payload _ => cases hfit rfl

/-- Under documented use a variable handle has a name, and not that of a
singleton. -/
theorem named (wf : a.WellFormed .documented) {r : Reference}
    (h : a.Holds .documented (.var r)) :
    ∃ name type, a.namedVar? (.var r) = some (name, type) ∧ name ≠ "_" ∧ name ≠ "." := by
  obtain ⟨n, -, hn, hfit⟩ := h.node (t := .var r) rfl
  cases n with
  | var name type =>
    have hread : a.namedVar? (.var r) = some (name, type) := by simp only [namedVar?, hn]
    rw [node?, if_pos (h.place_lt (t := .var r) rfl).1] at hn
    exact ⟨name, type, hread, wf.sound r.id _ hn⟩
  | compound _ _ _ => cases hfit rfl
  | payload _ => cases hfit rfl

/-- Under documented use a payload handle has a value and no index. -/
theorem carried (wf : a.WellFormed .documented) {r : Reference}
    (h : a.Holds .documented (.payload r)) :
    (∃ v, a.payloadValue? (.payload r) = some v) ∧
      a.index (.payload r) = .ok .unassigned := by
  obtain ⟨n, hok, hn, hfit⟩ := h.node (t := .payload r) rfl
  cases n with
  | payload v =>
    refine ⟨⟨v, by simp only [payloadValue?, hn]⟩, ?_⟩
    rw [node?, if_pos (h.place_lt (t := .payload r) rfl).1] at hn
    have hix := wf.sound r.id _ hn rfl
    simp only [index, bind, Except.bind, hok, pure, Except.pure, hix, Option.getD_some]
  | var _ _ => cases hfit rfl
  | compound _ _ _ => cases hfit rfl

end WellFormed

/-- A handle that is held has an index to read. -/
theorem Holds.index (h : a.Holds u t) : ∃ i, a.index t = .ok i := by
  cases t with
  | var r | compound r | payload r =>
    obtain ⟨n, hok, -⟩ := h.node rfl
    exact ⟨_, by simp only [Arena.index, bind, Except.bind, hok, pure, Except.pure]; rfl⟩
  | anon => exact ⟨_, rfl⟩
  | _ => exact ⟨_, rfl⟩

/-! ## Views -/

/-- The view of a handle is that of the node it resolves to, whatever kind
the handle is of. -/
theorem view_of_ref {r : Reference} (h : t.ref? = some r) :
    a.view t = (do
      match ← a.node t r with
      | .var name _ => .ok (.var name)
      | .compound name _ span => return .compound name (← a.operandsOf t span)
      | .payload value => .ok (.payload value)) := by
  cases t with
  | var _ | compound _ | payload _ => cases h; rfl
  | _ => cases h

/-- What is seen as compound is a control constant, or has a compound
node. -/
theorem compound_of_view {f : String} {ts : List Term} (h : a.view t = .ok (.compound f ts)) :
    (∃ c, t = .control c ∧ ts = []) ∨
      ∃ r signature span, t.ref? = some r ∧ a.node? r = some (.compound f signature span) ∧
        a.operandsIn? span = some ts := by
  cases hr : t.ref? with
  | none =>
    cases t with
    | control c =>
      cases h
      exact .inl ⟨c, rfl, rfl⟩
    | var _ | compound _ | payload _ => cases hr
    | _ => cases h
  | some r =>
    simp only [view_of_ref hr, node, bind, Except.bind] at h
    cases hn : a.node? r with
    | none => simp only [hn, reduceCtorEq] at h
    | some n =>
      simp only [hn] at h
      cases n with
      | compound name signature span =>
        simp only [operandsOf] at h
        cases hs : a.operandsIn? span with
        | none => simp only [hs, reduceCtorEq] at h
        | some args =>
          simp only [hs] at h
          cases h
          exact .inr ⟨r, signature, span, rfl, hn, hs⟩
      | _ => cases h

namespace WellFormed

/-- The arguments that a view shows are held, and lower. -/
theorem view_sound (wf : a.WellFormed u) {f : String} {ts : List Term}
    (h : a.view t = .ok (.compound f ts)) : ∀ s ∈ ts, a.Holds u s ∧ s.height < t.height := by
  intro s hs
  rcases compound_of_view h with ⟨c, rfl, rfl⟩ | ⟨r, signature, span, hr, hn, hspan⟩
  · cases hs
  · rw [node?] at hn
    split at hn
    · obtain ⟨args, hargs, hshell⟩ := wf.sound r.id _ hn
      rw [hspan] at hargs
      cases hargs
      have hheight : t.height = r.id + 2 := by rw [Term.height, hr]
      exact ⟨hshell.held s hs, hheight ▸ hshell.older s hs⟩
    · cases hn

/-- A handle of a compound node has a compound view. -/
theorem view_of_compound (wf : a.WellFormed u) {r : Reference} (hr : t.ref? = some r)
    {name signature : String} {span : Span}
    (hn : a.node? r = some (.compound name signature span)) :
    ∃ ts, a.view t = .ok (.compound name ts) := by
  have hok : a.node t r = .ok (.compound name signature span) := by rw [node, hn]
  rw [node?] at hn
  split at hn
  · obtain ⟨ts, hts, -⟩ := wf.sound r.id _ hn
    refine ⟨ts, ?_⟩
    simp only [view_of_ref hr, hok, operandsOf, hts, bind, Except.bind, pure, Except.pure]
  · cases hn

/-- What is held has a view. -/
theorem exists_view (wf : a.WellFormed u) (ht : a.Holds u t) : ∃ v, a.view t = .ok v := by
  cases hr : t.ref? with
  | none =>
    cases t with
    | var _ | compound _ | payload _ => cases hr
    | _ => exact ⟨_, rfl⟩
  | some r =>
    obtain ⟨n, hok, hn, -⟩ := ht.node hr
    cases n with
    | compound name signature span =>
      obtain ⟨ts, hview⟩ := wf.view_of_compound hr hn
      exact ⟨_, hview⟩
    | _ =>
      rw [view_of_ref hr, hok]
      exact ⟨_, rfl⟩

end WellFormed

end Arena

end TermGraph
