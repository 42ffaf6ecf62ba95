import TermGraph.Proofs.Discipline

/-!
# Traversals keep arenas well-formed

Collecting, factorizing, numbering and substituting walk a term graph and
build or reindex on their way. Here they are followed for safety alone:
whatever handle they are given, and however they end, the arena is
well-formed and extends the one they started from.

Safety is a discipline, and there are two of it. What sets indexes EXTENDS
the arena; what copies terms lets it GROW, and may hand on more than the
right to be passed on. Such a property lasts, and passes from a term to
its arguments and to copies of it; `PassedOn` says so, and every property
of this kind makes a discipline.

The steps are safe because the arguments that they read are held
(`WellFormed.args_sound`), and because what they do besides is one of the
operations already known to be safe. What the traversals COMPUTE is the
subject of other modules.
-/

namespace TermGraph

namespace Arena

variable {V α : Type} {u : Use} {a : Arena V}

/-! ## Disciplines of safety -/

/-- Well-formed arenas that are extended. A term is known if it may be passed
on. -/
def extending (u : Use) : Discipline (Arena V) where
  inOrder := WellFormed u
  known a := a.Permits u
  follows := Extends
  refl := .refl
  trans := .trans
  later _ hext ht := ht.extends hext

theorem extending_reindexes : (extending (V := V) u).Reindexes where
  args wf _ hts s hs := (wf.args_sound hts s hs).1.permits
  setIndex wf ht i := ⟨wf.setIndex ht i, extends_reindexed _ _⟩

theorem extending_copies : (extending (V := V) u).Copies where
  toReads := extending_reindexes.toReads
  withArguments {_ t _} wf _ hts := (withArguments_safe wf t hts).toExtends

/-- A property of handles that lasts, and that passes from a term to its
arguments, and from a term and arguments to a copy of the term over them.
What may be passed on at all is the weakest one. -/
structure PassedOn (u : Use) (P : Arena V → Term → Prop) : Prop where
  permits : ∀ {a : Arena V} {t : Term}, P a t → a.Permits u t
  later : ∀ {a b : Arena V} {t : Term}, a.WellFormed u → a.Extends b → P a t → P b t
  arg : ∀ {a : Arena V} {t : Term} {ts : List Term}, a.WellFormed u → P a t →
    a.args t = .ok ts → ∀ s ∈ ts, P a s
  copy : ∀ {a b : Arena V} {t c : Term} {ts : List Term}, a.WellFormed u → a.Grows b → P a t →
    (∀ s ∈ ts, P a s) → b.Holds u c → b.args c = .ok ts →
    (∀ r, c.ref? = some r → a.nodes.size ≤ r.id) → P b c

theorem passedOn_permits : PassedOn (V := V) u (fun a t => a.Permits u t) where
  permits h := h
  later _ hext h := h.extends hext
  arg wf _ hts s hs := (wf.args_sound hts s hs).1.permits
  copy _ _ _ _ hc _ _ := hc.permits

/-- Well-formed arenas that grow. A term is known if it has the property. -/
def growing {P : Arena V → Term → Prop} (hP : PassedOn u P) : Discipline (Arena V) where
  inOrder := WellFormed u
  known := P
  follows := Grows
  refl := .refl
  trans := .trans
  later wf hgrows ht := hP.later wf hgrows.toExtends ht

theorem growing_copies {P : Arena V → Term → Prop} (hP : PassedOn u P) : (growing hP).Copies where
  args := hP.arg
  withArguments {a t ts} wf ht hts := by
    refine (withArguments_ensures wf t fun s hs => hP.permits (hts s hs)).mono ?_ ?_
    · rintro c b ⟨wf', hgrows, hc, hargs, hplace⟩
      exact ⟨wf', hgrows,
        List.forall_mem_singleton.mpr (hP.copy wf hgrows ht hts hc hargs hplace)⟩
    · rintro b rfl
      exact ⟨wf, .refl b⟩

/-! ## Beside a pool -/

/-- The arena is well-formed, and the pool holds nothing that may not be
passed on. -/
def Pooled (u : Use) (w : Workspace V Pool) : Prop :=
  w.arena.WellFormed u ∧ ∀ p ∈ w.carried, w.arena.Permits u p

/-- `Safe`, for a computation beside a pool. -/
def SafeBeside (u : Use) (step : Arena V → Arena V → Prop) (m : PoolM V α) (terms : α → List Term)
    (w : Workspace V Pool) : Prop :=
  Ensures m w
    (fun x w' => Pooled u w' ∧ step w.arena w'.arena ∧ ∀ t ∈ terms x, w'.arena.Permits u t)
    (fun w' => Pooled u w' ∧ step w.arena w'.arena)

/-! ## Traversals -/

theorem collectInto_safe (t : Term) {w : Workspace V Pool} (hw : Pooled u w)
    (ht : w.arena.Permits u t) : SafeBeside u Extends (collectInto t) (fun _ => []) w :=
  Discipline.collectInto_obeys extending_reindexes Discipline.lists_filled t hw ht

theorem collect_safe (wf : a.WellFormed u) {t : Term} (ht : a.Permits u t) :
    Safe u Extends (collect t) Array.toList a :=
  Discipline.collect_obeys extending_reindexes t wf ht

theorem number_safe (t : Term) (start : Nat) (wf : a.WellFormed u) (ht : a.Permits u t) :
    Safe u Extends (number t start) (fun _ => []) a :=
  Discipline.number_obeys extending_reindexes t start wf ht

theorem factorizeAgainst_safe (t : Term) {w : Workspace V Pool} (hw : Pooled u w)
    (ht : w.arena.Permits u t) : SafeBeside u Grows (factorizeAgainst t) ([·]) w :=
  Discipline.factorizeAgainst_obeys (growing_copies passedOn_permits) t hw ht

theorem factorize_safe (wf : a.WellFormed u) {t : Term} (ht : a.Permits u t) :
    Safe u Extends (factorize t) ([·]) a :=
  Discipline.factorize_obeys extending_reindexes extending_copies t wf ht

theorem normalize_safe (wf : a.WellFormed u) {t : Term} (ht : a.Permits u t) :
    Safe u Extends (normalize t) ([·]) a :=
  Discipline.normalize_obeys extending_reindexes extending_copies t wf ht

theorem substitute_safe (frame : List Term) (t : Term) (wf : a.WellFormed u)
    (ht : a.Permits u t) (hframe : ∀ s ∈ frame, a.Permits u s) :
    Safe u Grows (substitute t frame) ([·]) a :=
  Discipline.substitute_obeys (growing_copies passedOn_permits) t frame wf ht hframe

end Arena

end TermGraph
