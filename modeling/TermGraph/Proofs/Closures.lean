import TermGraph.Arena.Replace
import TermGraph.Proofs.Session

/-!
# Closures — a mapping is a run of moves

A mapping calls a closure of the host in the middle of its work, and the
closure may run any operations. So a mapping is not a move. It is a run of
moves: those of the closure, and between two calls of it the arguments of
a term are read and a term is copied over others, which the host could
have done itself. The same is true of a compound term whose arguments are
made by closures.

A closure keeps a record of its own, and the supply of names is part of
it; what the supply is to a record is a parameter. `UsesMoves` is what is
asked of a closure, wherever one is called: on whatever has become of a
copy, a call is a run.

## What is proved

`UsesMoves.mapCompounds` — if the mapper uses moves only, then so does the
mapping, and `UsesMoves.compoundFrom` says the same of a compound term over
closures. `Session.Reachable.mapCompounds` — so the session that a mapping
leaves is reachable, and nothing that is proved of reachable sessions has to
be proved again for mappings.
-/

namespace TermGraph

variable {V σ α β : Type} {u : Use} {supply : σ → NameSupply}

/-! ## Runs on one copy -/

namespace Copy

variable {c d e : Copy V} {s s' s'' : NameSupply} {t : Term}

/-- Operations on the first copy, one after another, leave the second
one. -/
def Runs (u : Use) (c : Copy V) (s : NameSupply) (d : Copy V) (s' : NameSupply) : Prop :=
  ∃ ops, c.AdmitsAll u s ops ∧ c.afterAll s ops = (d, s')

theorem Runs.refl (c : Copy V) (s : NameSupply) : c.Runs u s c s := ⟨[], trivial, rfl⟩

/-- One operation and then a run. -/
theorem Runs.cons (op : Operation V) (h : ∀ t ∈ op.given, c.Admits u t)
    (k : (c.after s op).Runs u (op.supplyAfter s) d s') : c.Runs u s d s' := by
  obtain ⟨ops, hops, heq⟩ := k
  exact ⟨op :: ops, ⟨h, hops⟩, heq⟩

theorem Runs.trans (h : c.Runs u s d s') (k : d.Runs u s' e s'') : c.Runs u s e s'' := by
  obtain ⟨ops, hops, heq⟩ := h
  induction ops generalizing c s with
  | nil =>
    cases heq
    exact k
  | cons op ops ih => exact .cons op hops.1 (ih hops.2 heq)

/-- A run extends the arena. -/
theorem Runs.extends (h : c.Runs u s d s') (hc : c.InOrder u) : c.arena.Extends d.arena := by
  obtain ⟨ops, hops, heq⟩ := h
  induction ops generalizing c s with
  | nil =>
    cases heq
    exact .refl _
  | cons op ops ih =>
    have hext := (op.run_sound hc.1 s fun t ht => hc.permits (hops.1 t ht)).2.1
    exact hext.trans (ih (hc.after s op hops.1) hops.2 heq)

/-- The second copy is in order, and admits whatever the first one
admits. -/
structure Precedes (u : Use) (c d : Copy V) : Prop where
  inOrder : d.InOrder u
  admits : ∀ t, c.Admits u t → d.Admits u t

theorem Precedes.refl (hc : c.InOrder u) : c.Precedes u c := ⟨hc, fun _ ht => ht⟩

theorem Precedes.trans (h : c.Precedes u d) (k : d.Precedes u e) : c.Precedes u e :=
  ⟨k.inOrder, fun t ht => k.admits t (h.admits t ht)⟩

/-- Under free use everything is admitted. -/
theorem Precedes.free (hd : d.InOrder .free) : c.Precedes .free d :=
  ⟨hd, fun _ _ hu => by cases hu⟩

/-- A run keeps a copy in order, and what was admitted stays admitted. -/
theorem Runs.precedes (h : c.Runs u s d s') (hc : c.InOrder u) : c.Precedes u d := by
  obtain ⟨ops, hops, heq⟩ := h
  induction ops generalizing c s with
  | nil =>
    cases heq
    exact .refl hc
  | cons op ops ih =>
    refine Precedes.trans ⟨hc.after s op hops.1, fun t ht hu => ?_⟩
      (ih (hc.after s op hops.1) hops.2 heq)
    have hext := (op.run_sound hc.1 s fun t ht => hc.permits (hops.1 t ht)).2.1
    rcases ht hu with hinline | hissued | ⟨r, hr, hforeign⟩
    · exact .inl hinline
    · exact .inr (.inl (List.mem_append_right _ hissued))
    · exact .inr (.inr ⟨r, hr, by rwa [after, hext.id]⟩)

/-- What a run leaves is reachable. -/
theorem Runs.reachable {before after : List (Copy V)} (h : c.Runs u s d s')
    (hs : Session.Reachable u ⟨before ++ c :: after, s⟩) :
    Session.Reachable u ⟨before ++ d :: after, s'⟩ := by
  obtain ⟨ops, hops, heq⟩ := h
  have hall := hs.afterAll ops hops
  rw [heq] at hall
  exact hall

end Copy

/-! ## Computations that are runs -/

/-- The computation, started on the arena of the copy and the record, ends
where a run ends, with an error or with handles that may be passed on. -/
def RunsTo (u : Use) (supply : σ → NameSupply) (c : Copy V) (x : σ) (m : WorkM V σ α)
    (handles : α → List Term) : Prop :=
  Ensures m ⟨c.arena, x⟩
    (fun y w => ∃ d : Copy V, d.arena = w.arena ∧
      c.Runs u (supply x) d (supply w.carried) ∧ ∀ t ∈ handles y, d.Admits u t)
    (fun w => ∃ d : Copy V, d.arena = w.arena ∧ c.Runs u (supply x) d (supply w.carried))

/-- THE CLOSURE USES MOVES ONLY: on every copy that the copy `c` precedes and
that admits what the closure is given, a call is a run. -/
def UsesMoves (u : Use) (supply : σ → NameSupply) (c : Copy V) (given : List Term)
    (m : WorkM V σ Term) : Prop :=
  ∀ (d : Copy V) z, c.Precedes u d → (∀ t ∈ given, d.Admits u t) → RunsTo u supply d z m ([·])

namespace UsesMoves

variable {c d : Copy V} {given : List Term} {m : WorkM V σ Term}

/-- What holds from a copy on holds from a later one on. -/
theorem later (h : UsesMoves u supply c given m) (hd : c.Precedes u d) :
    UsesMoves u supply d given m :=
  fun e z he => h e z (hd.trans he)

/-- What is admitted already need not be given. -/
theorem granted (h : UsesMoves u supply c given m) (hgiven : ∀ t ∈ given, c.Admits u t) :
    UsesMoves u supply c [] m :=
  fun d z hd _ => h d z hd fun t ht => hd.admits t (hgiven t ht)

end UsesMoves

namespace RunsTo

variable {c : Copy V} {x : σ} {m : WorkM V σ α} {handles : α → List Term} {t : Term}

theorem answer {y : α} (h : ∀ t ∈ handles y, c.Admits u t) :
    RunsTo u supply c x (pure y) handles :=
  Ensures.answer ⟨c, rfl, .refl c _, h⟩

theorem refusal {e : TermError} :
    RunsTo u supply c x (throw e : WorkM V σ α) handles :=
  Ensures.refusal ⟨c, rfl, .refl c _⟩

/-- One run after another. -/
theorem bind {f : α → WorkM V σ β} {answers : β → List Term} (hc : c.InOrder u)
    (h : RunsTo u supply c x m handles)
    (hf : ∀ y d z, c.Precedes u d → (∀ t ∈ handles y, d.Admits u t) →
      RunsTo u supply d z (f y) answers) :
    RunsTo u supply c x (m >>= f) answers := by
  apply Ensures.bind h
  rintro y ⟨a, z⟩ ⟨d, rfl, hrun, hhandles⟩
  refine (hf y d z (hrun.precedes hc) hhandles).mono ?_ ?_
  · intro y' w hend
    obtain ⟨e, he, hrun', hanswers⟩ := hend
    exact ⟨e, he, hrun.trans hrun', hanswers⟩
  · intro w hend
    obtain ⟨e, he, hrun'⟩ := hend
    exact ⟨e, he, hrun.trans hrun'⟩

/-- A run for each element of a list. -/
theorem mapM {f : α → WorkM V σ Term} (xs : List α) (hc : c.InOrder u)
    (hf : ∀ y ∈ xs, UsesMoves u supply c [] (f y)) : RunsTo u supply c x (xs.mapM f) id := by
  induction xs generalizing c x with
  | nil => exact answer fun _ ht => by cases ht
  | cons y ys ih =>
    rw [List.mapM_cons]
    apply bind hc (hf y List.mem_cons_self c x (.refl hc) (List.forall_mem_nil _))
    intro q d z hd hq
    refine bind hd.inOrder (ih hd.inOrder fun y' hy' =>
      (hf y' (List.mem_cons_of_mem y hy')).later hd) fun qs e z' he hqs => ?_
    exact answer (List.forall_mem_cons.mpr ⟨he.admits q (hq q List.mem_cons_self), hqs⟩)

/-- A run extends the arena and keeps it well-formed. -/
theorem ensures_extends (hc : c.InOrder u) (h : RunsTo u supply c x m handles) :
    Ensures m ⟨c.arena, x⟩ (fun _ w => w.arena.WellFormed u ∧ c.arena.Extends w.arena)
      (fun w => w.arena.WellFormed u ∧ c.arena.Extends w.arena) := by
  refine Ensures.mono h ?_ ?_
  · rintro y w ⟨d, hd, hrun, -⟩
    exact hd ▸ ⟨(hrun.precedes hc).inOrder.1, hrun.extends hc⟩
  · rintro w ⟨d, hd, hrun⟩
    exact hd ▸ ⟨(hrun.precedes hc).inOrder.1, hrun.extends hc⟩

/-- Work on the arena that is an operation of the host is a run. -/
theorem operation (op : Operation V) {n : BuildM V α} (h : ∀ t ∈ op.given, c.Admits u t)
    (hsupply : ∀ s, op.supplyAfter s = s)
    (hop : op.run (supply x) c.arena = Operation.handOut n handles c.arena) :
    RunsTo u supply c x (WorkM.onArena n) handles := by
  have hruns : c.Runs u (supply x) (c.after (supply x) op) (supply x) := by
    refine .cons op h ?_
    rw [hsupply]
    exact .refl _ _
  unfold Operation.handOut at hop
  cases heq : n c.arena with
  | ok y a =>
    rw [heq] at hop
    have hok : WorkM.onArena n ⟨c.arena, x⟩ = .ok y ⟨a, x⟩ := by simp only [WorkM.onArena, heq]
    refine .of_ok hok ⟨_, ?_, hruns, fun t ht _ => .inr (.inl ?_)⟩
    · rw [Copy.after, hop]
    · rw [Copy.after, hop]
      exact List.mem_append_left _ ht
  | error e a =>
    rw [heq] at hop
    have herror : WorkM.onArena n ⟨c.arena, x⟩ = .error e ⟨a, x⟩ := by
      simp only [WorkM.onArena, heq]
    refine .of_error herror ⟨_, ?_, hruns⟩
    rw [Copy.after, hop]

/-- Reading the arguments is an operation. -/
theorem args (ht : c.Admits u t) : RunsTo u supply c x (WorkM.look (·.args t)) id := by
  rw [WorkM.look_eq_onArena]
  exact operation (.arguments t) (List.forall_mem_singleton.mpr ht) (fun _ => rfl) rfl

/-- Copying a term over other arguments is an operation, or nothing where
the arguments are the same. -/
theorem rebuilt (ht : c.Admits u t) (old : List Term) {new : List Term}
    (hnew : ∀ s ∈ new, c.Admits u s) :
    RunsTo u supply c x (WorkM.onArena (Arena.rebuilt t old new)) ([·]) := by
  unfold Arena.rebuilt
  split
  · exact answer (List.forall_mem_singleton.mpr ht)
  · have hgiven : ∀ s ∈ t :: new, c.Admits u s := List.forall_mem_cons.mpr ⟨ht, hnew⟩
    exact operation (.withArguments t new) hgiven (fun _ => rfl) rfl

end RunsTo

/-- A MAPPING USES MOVES ONLY, if the mapper does. -/
theorem UsesMoves.mapCompounds {c : Copy V} {mapper : Term → WorkM V σ Term}
    (hmapper : ∀ q, UsesMoves u supply c [q] (mapper q)) (t : Term) :
    UsesMoves u supply c [t] (Arena.mapCompounds mapper t) := by
  refine walk_related (R := fun t m _ => UsesMoves u supply c [t] m)
    (fun _ _ _ _ _ => .refusal) (fun t recur _ ih d x hd ht => ?_) t
  rw [Arena.mapCompoundsStep]
  split
  · apply RunsTo.bind hd.inOrder (.args (ht t List.mem_cons_self))
    intro old e z he hold
    refine .bind he.inOrder (.mapM old he.inOrder fun s hs => ?_) fun new f z' hf hnew => ?_
    · exact ((ih s).later (hd.trans he)).granted (List.forall_mem_singleton.mpr (hold s hs))
    · have ht' := hf.admits t (he.admits t (ht t List.mem_cons_self))
      apply RunsTo.bind hf.inOrder (.rebuilt ht' old hnew)
      intro q g z'' hg hq
      exact hmapper q g z'' (((hd.trans he).trans hf).trans hg) hq
  · exact .answer ht

/-- An argument ends as its closure does; the error may be another one. -/
theorem Ensures.argumentFrom {m : WorkM V σ Term} {w : Workspace V σ}
    {P : Term → Workspace V σ → Prop} {B : Workspace V σ → Prop} (h : Ensures m w P B)
    (f : String) (index : Nat) : Ensures (HostValue.argumentFrom f index m) w P B := by
  unfold Ensures HostValue.argumentFrom at *
  cases heq : m w with
  | ok t w' =>
    rw [heq] at h
    exact h
  | error e w' =>
    rw [heq] at h
    cases e <;> exact h

/-- BUILDING OVER CLOSURES USES MOVES ONLY, if every closure does. -/
theorem UsesMoves.compoundFrom {c : Copy V} {closures : List (WorkM V σ Term)} (f : String)
    (hclosures : ∀ m ∈ closures, UsesMoves u supply c [] m) :
    UsesMoves u supply c [] (Arena.compoundFrom f closures) := by
  have hargs : ∀ (index : Nat) (d : Copy V) z, c.Precedes u d →
      RunsTo u supply d z (HostValue.argumentsFrom f index closures) id := by
    induction closures with
    | nil => exact fun _ _ _ _ => .answer fun _ ht => by cases ht
    | cons m rest ih =>
      intro index d z hd
      rw [HostValue.argumentsFrom]
      have hhead : RunsTo u supply d z _ ([·]) :=
        (hclosures m List.mem_cons_self d z hd (List.forall_mem_nil _)).argumentFrom f index
      refine .bind hd.inOrder hhead fun t e z' he ht => ?_
      refine .bind he.inOrder (ih (fun m' hm' => hclosures m' (List.mem_cons_of_mem m hm'))
        (index + 1) e z' (hd.trans he)) fun ts g z'' hg hts => ?_
      exact .answer (List.forall_mem_cons.mpr ⟨hg.admits t (ht t List.mem_cons_self), hts⟩)
  intro d x hd _
  refine .bind hd.inOrder (hargs 0 d x hd) fun ts e z _ hts => ?_
  exact .operation (.compound f ts) hts (fun _ => rfl) rfl

/-- What a mapping leaves is reachable, after an error too, and its answer
may be passed on. -/
theorem Session.Reachable.mapCompounds {before after : List (Copy V)} {c : Copy V} {x : σ}
    {t : Term} {mapper : Term → WorkM V σ Term}
    (hs : Session.Reachable u ⟨before ++ c :: after, supply x⟩) (ht : c.Admits u t)
    (hmapper : ∀ q, UsesMoves u supply c [q] (mapper q)) :
    Ensures (Arena.mapCompounds mapper t) ⟨c.arena, x⟩
      (fun q w => ∃ d : Copy V, d.arena = w.arena ∧ d.Admits u q ∧
        Session.Reachable u ⟨before ++ d :: after, supply w.carried⟩)
      (fun w => ∃ d : Copy V, d.arena = w.arena ∧
        Session.Reachable u ⟨before ++ d :: after, supply w.carried⟩) := by
  have hc := hs.inOrder c (List.mem_append_right _ List.mem_cons_self)
  refine Ensures.mono (UsesMoves.mapCompounds hmapper t c x (.refl hc)
    (List.forall_mem_singleton.mpr ht)) ?_ ?_
  · intro q w hend
    obtain ⟨d, hd, hrun, hq⟩ := hend
    exact ⟨d, hd, hq q List.mem_cons_self, hrun.reachable hs⟩
  · intro w hend
    obtain ⟨d, hd, hrun⟩ := hend
    exact ⟨d, hd, hrun.reachable hs⟩

end TermGraph
