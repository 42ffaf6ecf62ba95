import TermGraph.Arena.NormalForm
import TermGraph.Arena.Replace
import TermGraph.Proofs.Building

/-!
# Disciplines — what a recursion does to an arena, step by step

Collecting, factorizing, numbering, substituting and mapping are made of
the same few steps. They read arguments, set an index, copy a term over
other arguments, look into what they carry and add to it; and they hand on
nothing but what they were given, what they read, and what they copied.

Most of what is said of them follows from that alone. A DISCIPLINE is such
a saying: which states are in order, which terms are KNOWN in a state, and
how one state may follow another. Whoever states one owes a clause for
each step that the recursion takes:

- `Reads`: the arguments of a known term are known;
- `Reindexes`: setting the index of a known term keeps to the discipline;
- `Copies`: so does copying a known term over known ones, and the copy is
  known.

Well-formedness, what a term is drawn from, the names in use, and the
places that are reindexed are disciplines, and none of them is followed
through the recursions again.

## Two runs

The law is about two runs at once. `Agrees` says that they end in the same
way, and that the outcome obeys the discipline. The steps of the two may
ask different recursions for the arguments, as long as those agree too.
The law for one recursion is the diagonal of it; and a recursion with a
cut-off agrees with the walk by the same law.

## What is proved

One theorem for the step of each recursion, from `numberStep_agrees` to
`mapCompoundsStep_agrees`; and from it by `walk_related`, which makes a law
of the step one of the walk, what the recursion obeys.
-/

namespace TermGraph

/-- What one step keeps, the walk keeps: here of two walks by one step, so
that the relation may speak of them together. -/
theorem walk_related {β : Type} {stop : Term → β} {step : (Term → β) → Term → β}
    {R : Term → β → β → Prop} (hstop : ∀ t, R t (stop t) (stop t))
    (hstep : ∀ t f g, (∀ s, R s (f s) (g s)) → R t (step f t) (step g t)) (t : Term) :
    R t (walk stop step t) (walk stop step t) := by
  induction t using Term.byHeight with
  | step t ih =>
    rw [walk_eq]
    refine hstep t _ _ fun s => ?_
    split
    · next hlt => exact ih s hlt
    · exact hstop s

namespace Arena

variable {V : Type}

theorem boundIn?_eq_some_iff {frame : List Term} {i : Index} {value : Term} :
    boundIn? frame i = some value ↔
      (∃ place, i = .assigned place ∧ frame[place]? = some value) ∧ value.isVar = false := by
  cases i with
  | assigned place => simp [boundIn?, Index.place?, Option.filter_eq_some_iff]
  | _ => simp [boundIn?, Index.place?]

/-- What a frame holds for an index stands in it. -/
theorem mem_of_boundIn? {frame : List Term} {i : Index} {value : Term}
    (h : boundIn? frame i = some value) : value ∈ frame := by
  obtain ⟨⟨place, -, hplace⟩, -⟩ := boundIn?_eq_some_iff.mp h
  exact List.mem_of_getElem? hplace

/-- A candidate stands in the pool. -/
theorem mem_of_candidate? {a : Arena V} {pool : Pool} {t p : Term}
    (h : a.candidate? pool t = some p) : p ∈ pool := by
  unfold candidate? at h
  split at h
  · exact Array.mem_of_find?_eq_some h
  · cases h

end Arena

/-- Which states are in order, which terms are known in a state, and how one
state may follow another. What is known stays known. -/
structure Discipline (σ : Type) where
  inOrder : σ → Prop
  known : σ → Term → Prop
  follows : σ → σ → Prop
  refl : ∀ s, follows s s
  trans : ∀ {s s' s'' : σ}, follows s s' → follows s' s'' → follows s s''
  later : ∀ {s s' : σ} {t : Term}, inOrder s → follows s s' → known s t → known s' t

namespace Discipline

variable {V ε σ α β γ : Type}

/-- However the computation ends, the state is in order and may follow the
one it began in; and the terms answered are known. -/
def Obeys (D : Discipline σ) (m : EStateM ε σ α) (terms : α → List Term) (s : σ) : Prop :=
  Ensures m s (fun x s' => D.inOrder s' ∧ D.follows s s' ∧ ∀ t ∈ terms x, D.known s' t)
    (fun s' => D.inOrder s' ∧ D.follows s s')

/-- From every state in order in which the terms are known, the two
computations end in the same way, and obey the discipline. -/
def Agrees (D : Discipline σ) (ts : List Term) (m m' : EStateM ε σ α) (terms : α → List Term) :
    Prop :=
  ∀ s, D.inOrder s → (∀ t ∈ ts, D.known s t) → m s = m' s ∧ D.Obeys m' terms s

variable {D : Discipline σ}

/-- What obeys the discipline, seen from an earlier state. -/
theorem Obeys.since {m : EStateM ε σ α} {T : α → List Term} {s s' : σ} (h : D.Obeys m T s')
    (hs : D.follows s s') :
    Ensures m s' (fun x s'' => D.inOrder s'' ∧ D.follows s s'' ∧ ∀ t ∈ T x, D.known s'' t)
      (fun s'' => D.inOrder s'' ∧ D.follows s s'') :=
  Ensures.mono h (fun _ _ hx => ⟨hx.1, D.trans hs hx.2.1, hx.2.2⟩) fun _ hx =>
    ⟨hx.1, D.trans hs hx.2⟩

theorem Obeys.bind {m : EStateM ε σ α} {f : α → EStateM ε σ β} {T : α → List Term}
    {U : β → List Term} {s : σ} (h : D.Obeys m T s)
    (hf : ∀ x s', D.inOrder s' → D.follows s s' → (∀ t ∈ T x, D.known s' t) →
      D.Obeys (f x) U s') : D.Obeys (m >>= f) U s := by
  refine Ensures.bind h ?_
  rintro x s' ⟨hs', hfollows, hx⟩
  exact (hf x s' hs' hfollows hx).since hfollows

theorem Obeys.answer {T : α → List Term} {s : σ} (hs : D.inOrder s) {x : α}
    (h : ∀ t ∈ T x, D.known s t) : D.Obeys (pure x : EStateM ε σ α) T s :=
  Ensures.answer ⟨hs, D.refl s, h⟩

namespace Agrees

variable {ts ts' : List Term} {m m' : EStateM ε σ α} {T : α → List Term} {U : β → List Term}

/-- One computation agrees with itself. -/
theorem diagonal (h : ∀ s, D.inOrder s → (∀ t ∈ ts, D.known s t) → D.Obeys m T s) :
    D.Agrees ts m m T :=
  fun s hs hts => ⟨rfl, h s hs hts⟩

theorem answer {x : α} (h : T x ⊆ ts) : D.Agrees ts (pure x : EStateM ε σ α) (pure x) T :=
  diagonal fun _ hs hts => .answer hs fun t ht => hts t (h ht)

theorem refusal {e : ε} : D.Agrees ts (throw e : EStateM ε σ α) (throw e) T :=
  diagonal fun s hs _ => Ensures.refusal ⟨hs, D.refl s⟩

/-- More terms may be known. -/
theorem weaken (h : D.Agrees ts m m' T) (hts : ts ⊆ ts') : D.Agrees ts' m m' T :=
  fun s hs hk => h s hs fun t ht => hk t (hts ht)

/-- A known term may be answered. -/
theorem answerOf {t : Term} (ht : t ∈ ts) :
    D.Agrees ts (pure t : EStateM ε σ Term) (pure t) ([·]) :=
  answer (List.cons_subset.mpr ⟨ht, List.nil_subset ts⟩)

/-- What is done with one term may be done with a known one. -/
theorem ofOne {t : Term} (h : D.Agrees [t] m m' T) (ht : t ∈ ts) : D.Agrees ts m m' T :=
  h.weaken (List.cons_subset.mpr ⟨ht, List.nil_subset ts⟩)

/-- One after another, where the answers of the first meet `Q`. -/
theorem bindWhere {f f' : α → EStateM ε σ β} {Q : α → Prop} (h : D.Agrees ts m m' T)
    (hQ : ∀ s, D.inOrder s → (∀ t ∈ ts, D.known s t) → ∀ x s', m' s = .ok x s' → Q x)
    (hf : ∀ x, Q x → D.Agrees (T x ++ ts) (f x) (f' x) U) :
    D.Agrees ts (m >>= f) (m' >>= f') U := by
  intro s hs hts
  obtain ⟨heq, hobeys⟩ := h s hs hts
  cases hm : m' s with
  | error e s' =>
    rw [bind_of_error (heq.trans hm), bind_of_error hm]
    exact ⟨rfl, .of_error (bind_of_error hm) (hobeys.of_failure hm)⟩
  | ok x s' =>
    obtain ⟨hs', hfollows, hx⟩ := hobeys.of_answer hm
    obtain ⟨heq', hobeys'⟩ := hf x (hQ s hs hts x s' hm) s' hs'
      (List.forall_mem_append.mpr ⟨hx, fun t ht => D.later hs hfollows (hts t ht)⟩)
    refine ⟨by rw [bind_of_ok (heq.trans hm), bind_of_ok hm, heq'], ?_⟩
    exact Ensures.bind_ok hm (hobeys'.since hfollows)

theorem bind {f f' : α → EStateM ε σ β} (h : D.Agrees ts m m' T)
    (hf : ∀ x, D.Agrees (T x ++ ts) (f x) (f' x) U) : D.Agrees ts (m >>= f) (m' >>= f') U :=
  h.bindWhere (Q := fun _ => True) (fun _ _ _ _ _ _ => trivial) fun x _ => hf x

/-- A computation for each element of a list. -/
theorem forM {f g : γ → EStateM ε σ PUnit} (xs : List γ)
    (h : ∀ x ∈ xs, D.Agrees ts (f x) (g x) fun _ => []) :
    D.Agrees ts (xs.forM f) (xs.forM g) fun _ => [] := by
  induction xs with
  | nil => exact answer (List.nil_subset ts)
  | cons x xs ih =>
    exact bind (h x List.mem_cons_self) fun _ => ih fun y hy => h y (List.mem_cons_of_mem x hy)

/-- The same for a fold. -/
theorem foldlM {f g : α → γ → EStateM ε σ α} (xs : List γ)
    (h : ∀ x ∈ xs, ∀ c, D.Agrees ts (f c x) (g c x) fun _ => []) :
    ∀ c, D.Agrees ts (xs.foldlM f c) (xs.foldlM g c) fun _ => [] := by
  induction xs with
  | nil => exact fun _ => answer (List.nil_subset ts)
  | cons x xs ih =>
    intro c
    rw [List.foldlM_cons, List.foldlM_cons]
    exact bind (h x List.mem_cons_self c) fun c' =>
      ih (fun y hy => h y (List.mem_cons_of_mem x hy)) c'

/-- The same, with a known term for every element. -/
theorem mapM {f g : γ → EStateM ε σ Term} (xs : List γ)
    (h : ∀ x ∈ xs, D.Agrees ts (f x) (g x) ([·])) :
    D.Agrees ts (xs.mapM f) (xs.mapM g) id := by
  induction xs with
  | nil => exact answer (List.nil_subset ts)
  | cons x xs ih =>
    rw [List.mapM_cons, List.mapM_cons]
    refine bind (h x List.mem_cons_self) fun q => ?_
    refine bind ((ih fun y hy => h y (List.mem_cons_of_mem x hy)).weaken
      (List.subset_cons_self q ts)) fun qs => answer ?_
    refine List.cons_subset.mpr ⟨?_, List.subset_append_left _ _⟩
    exact List.mem_append_right _ List.mem_cons_self

end Agrees

/-- What obeys the discipline keeps the states in order, and its answers meet
what is said of known terms. -/
theorem keeps {m : EStateM ε σ α} {T : α → List Term} {Q : α → Prop}
    (h : ∀ s, D.inOrder s → D.Obeys m T s)
    (hQ : ∀ x s, (∀ t ∈ T x, D.known s t) → Q x) : Keeps D.inOrder Q m :=
  fun s hs => Ensures.mono (h s hs) (fun x s' hx => ⟨hx.1, hQ x s' hx.2.2⟩) fun _ hx => hx.1

/-! ## Steps on an arena -/

section Arena

open Arena

variable {D : Discipline (Arena V)} {ts : List Term} {t : Term} {U : β → List Term}

/-- In some state in order the first term is known, and the second one is
read as an argument of it. -/
def ArgOf (D : Discipline (Arena V)) (t s : Term) : Prop :=
  ∃ a args, D.inOrder a ∧ D.known a t ∧ a.args t = .ok args ∧ s ∈ args

/-- The arguments of a known term are known. -/
structure Reads (D : Discipline (Arena V)) : Prop where
  args : ∀ {a : Arena V} {t : Term} {ts : List Term}, D.inOrder a → D.known a t →
    a.args t = .ok ts → ∀ s ∈ ts, D.known a s

/-- Setting the index of a known term keeps to the discipline. -/
structure Reindexes (D : Discipline (Arena V)) : Prop extends D.Reads where
  setIndex : ∀ {a : Arena V} {t : Term}, D.inOrder a → D.known a t → ∀ i,
    D.inOrder (a.reindexed (a.indexesWith t i)) ∧
      D.follows a (a.reindexed (a.indexesWith t i))

/-- Copying a known term over known ones keeps to the discipline, and the
copy is known. -/
structure Copies (D : Discipline (Arena V)) : Prop extends D.Reads where
  withArguments : ∀ {a : Arena V} {t : Term} {ts : List Term}, D.inOrder a → D.known a t →
    (∀ s ∈ ts, D.known a s) → D.Obeys (Arena.withArguments t ts) ([·]) a

namespace Agrees

/-- A reader changes nothing. -/
theorem look {read : Arena V → Except TermError α} {T : α → List Term}
    (h : ∀ a x, D.inOrder a → (∀ t ∈ ts, D.known a t) → read a = .ok x →
      ∀ t ∈ T x, D.known a t) : D.Agrees ts (Arena.look read) (Arena.look read) T :=
  diagonal fun a ha hts =>
    Ensures.look (fun x hx => ⟨ha, D.refl a, h a x ha hts hx⟩) ⟨ha, D.refl a⟩

/-- Reading what is no term. -/
theorem inspect (read : Arena V → Except TermError α) :
    D.Agrees ts (Arena.look read) (Arena.look read) fun _ => [] :=
  look fun _ _ _ _ _ => List.forall_mem_nil _

/-- Reading the arguments of a known term. -/
theorem args (hD : D.Reads) (ht : t ∈ ts) {f f' : List Term → BuildM V β}
    (hf : ∀ old, (∀ s ∈ old, D.ArgOf t s) → D.Agrees (old ++ ts) (f old) (f' old) U) :
    D.Agrees ts (Arena.look (·.args t) >>= f) (Arena.look (·.args t) >>= f') U := by
  refine (look (T := id) fun a old ha hts hold => hD.args ha (hts t ht) hold).bindWhere
    (fun a ha hts old b hold s hs => ?_) hf
  unfold Arena.look at hold
  split at hold
  · next hargs =>
    cases hold
    exact ⟨a, old, ha, hts t ht, hargs, hs⟩
  · cases hold

/-- Setting the index of a known term. -/
theorem setIndex (hD : D.Reindexes) (ht : t ∈ ts) (i : Index) :
    D.Agrees ts (Arena.setIndex (V := V) t i) (Arena.setIndex t i) fun _ => [] :=
  diagonal fun _ ha hts => .of_ok (setIndex_eq t i)
    ⟨(hD.setIndex ha (hts t ht) i).1, (hD.setIndex ha (hts t ht) i).2, List.forall_mem_nil _⟩

/-- Copying a known term, where the arguments are not the same. -/
theorem rebuilt (hD : D.Copies) (old : List Term) {new : List Term} (ht : t ∈ ts)
    (hnew : new ⊆ ts) :
    D.Agrees ts (Arena.rebuilt (V := V) t old new) (Arena.rebuilt t old new) ([·]) := by
  unfold Arena.rebuilt
  split
  · exact answerOf ht
  · exact diagonal fun _ ha hts =>
      hD.withArguments ha (hts t ht) fun s hs => hts s (hnew hs)

end Agrees

/-! ## Numbering and substituting -/

/-- NUMBERING reads arguments and sets indexes. -/
theorem numberStep_agrees (hD : D.Reindexes) {f g : Term → Nat → BuildM V Nat}
    (h : ∀ s, D.ArgOf t s → ∀ start, D.Agrees [s] (f s start) (g s start) fun _ => [])
    (start : Nat) : D.Agrees [t] (numberStep f t start) (numberStep g t start) fun _ => [] := by
  have hset (i : Index) (n : Nat) (ts : List Term) :
      D.Agrees (ts ++ [t]) (do Arena.setIndex t i; return n : BuildM V Nat)
        (do Arena.setIndex t i; return n) fun _ => [] :=
    (Agrees.setIndex hD (List.mem_append_right _ List.mem_cons_self) i).bind fun _ =>
      .answer (List.nil_subset _)
  unfold numberStep
  refine (Agrees.inspect _).bind fun i => ?_
  split
  · exact .answer (List.nil_subset _)
  · cases t with
    | var r => exact hset (.assigned start) (start + 1) []
    | compound r =>
      refine .args hD.toReads List.mem_cons_self fun old hold => ?_
      refine (Agrees.foldlM old (fun s hs free => ?_) start).bind fun free =>
        hset (.assigned free) free old
      exact (h s (hold s hs) free).ofOne (List.mem_append_left _ hs)
    | _ => exact .answer (List.nil_subset _)

/-- SUBSTITUTION reads arguments and copies terms, and answers what the frame
holds. -/
theorem substituteStep_agrees (hD : D.Copies) {frame : List Term} {f g : Term → BuildM V Term}
    (h : ∀ s, D.ArgOf t s → D.Agrees (s :: frame) (f s) (g s) ([·])) :
    D.Agrees (t :: frame) (substituteStep frame f t) (substituteStep frame g t) ([·]) := by
  cases t with
  | var r =>
    refine (Agrees.inspect _).bind fun i => .answerOf ?_
    cases hbound : boundIn? frame i with
    | none => exact List.mem_cons_self
    | some s => exact List.mem_cons_of_mem _ (mem_of_boundIn? hbound)
  | compound r =>
    refine .args hD.toReads List.mem_cons_self fun old hold => ?_
    refine (Agrees.mapM old fun s hs => ?_).bind fun new => .rebuilt hD old ?_ ?_
    · refine (h s (hold s hs)).weaken (List.cons_subset.mpr ⟨List.mem_append_left _ hs, ?_⟩)
      exact List.Subset.trans (List.subset_cons_self _ _) (List.subset_append_right _ _)
    · exact List.mem_append_right _ (List.mem_append_right _ List.mem_cons_self)
    · exact List.subset_append_left _ _
  | _ => exact .answerOf List.mem_cons_self

theorem number_obeys (hD : D.Reindexes) (t : Term) (start : Nat) {a : Arena V}
    (ha : D.inOrder a) (ht : D.known a t) : D.Obeys (number t start) (fun _ => []) a := by
  have hwalk : D.Agrees [t] (number (V := V) t start) (number t start) fun _ => [] :=
    walk_related
      (R := fun t (m m' : Nat → BuildM V Nat) =>
        ∀ start, D.Agrees [t] (m start) (m' start) fun _ => [])
      (fun _ _ => .refusal) (fun _ _ _ h => numberStep_agrees hD fun s _ => h s) t start
  exact (hwalk a ha (List.forall_mem_singleton.mpr ht)).2

theorem substitute_obeys (hD : D.Copies) (t : Term) (frame : List Term) {a : Arena V}
    (ha : D.inOrder a) (ht : D.known a t) (hframe : ∀ s ∈ frame, D.known a s) :
    D.Obeys (substitute t frame) ([·]) a := by
  have hwalk : D.Agrees (t :: frame) (substitute (V := V) t frame) (substitute t frame) ([·]) :=
    walk_related (R := fun t m m' => D.Agrees (t :: frame) m m' ([·])) (fun _ => .refusal)
      (fun _ _ _ h => substituteStep_agrees hD fun s _ => h s) t
  exact (hwalk a ha (List.forall_mem_cons.mpr ⟨ht, hframe⟩)).2

end Arena

/-! ## Beside something carried -/

/-- The discipline, beside something carried for which `C` holds. -/
def beside (D : Discipline (Arena V)) (C : Arena V → σ → Prop) : Discipline (Workspace V σ) where
  inOrder w := D.inOrder w.arena ∧ C w.arena w.carried
  known w := D.known w.arena
  follows w w' := D.follows w.arena w'.arena
  refl w := D.refl w.arena
  trans := D.trans
  later hw := D.later hw.1

section Beside

open Arena

variable {D : Discipline (Arena V)} {C : Arena V → σ → Prop} {ts : List Term} {t : Term}
  {U : β → List Term}

/-- What holds of something carried goes on to hold of it. -/
structure Lasts (D : Discipline (Arena V)) (C : Arena V → σ → Prop) : Prop where
  later : ∀ {a b : Arena V} {x : σ}, D.inOrder a → D.follows a b → C a x → C b x

/-- Everything in the pool is known. -/
def Filled (D : Discipline (Arena V)) (a : Arena V) (pool : Pool) : Prop :=
  ∀ p ∈ pool, D.known a p

theorem lasts_filled : D.Lasts D.Filled where
  later ha hab hpool p hp := D.later ha hab (hpool p hp)

/-- What is listed in the pool may be any known term. -/
structure Lists (D : Discipline (Arena V)) (C : Arena V → Pool → Prop) : Prop
    extends D.Lasts C where
  push : ∀ {a : Arena V} {pool : Pool} {t : Term}, C a pool → D.known a t → C a (pool.push t)

theorem lists_filled : D.Lists D.Filled where
  toLasts := lasts_filled
  push hpool ht p hp := by
    rcases Array.mem_push.mp hp with hp | rfl
    · exact hpool p hp
    · exact ht

namespace Agrees

/-- Work on the arena alone. -/
theorem onArena (hC : D.Lasts C) {m m' : BuildM V α} {T : α → List Term}
    (h : D.Agrees ts m m' T) :
    (D.beside C).Agrees ts (WorkM.onArena m) (WorkM.onArena m') T := by
  rintro ⟨a, x⟩ ⟨ha, hx⟩ hts
  obtain ⟨heq, hobeys⟩ := h a ha hts
  refine ⟨by simp only [WorkM.onArena, heq], ?_⟩
  refine (Ensures.onArena (w := ⟨a, x⟩) hobeys).mono ?_ ?_
  · rintro y ⟨b, z⟩ ⟨⟨hb, hab, hterms⟩, rfl⟩
    exact ⟨⟨hb, hC.later ha hab hx⟩, hab, hterms⟩
  · rintro ⟨b, z⟩ ⟨⟨hb, hab⟩, rfl⟩
    exact ⟨⟨hb, hC.later ha hab hx⟩, hab⟩

/-- Reading what is no term. -/
theorem inspectW (read : Arena V → Except TermError α) :
    (D.beside C).Agrees ts (WorkM.look read) (WorkM.look read) fun _ => [] :=
  diagonal fun _ hw _ => Ensures.lookW (fun _ _ => ⟨hw, D.refl _, List.forall_mem_nil _⟩)
    ⟨hw, D.refl _⟩

/-- Reading the arguments of a known term, or those that collection asks
for. -/
theorem argsW (hD : D.Reads) (ht : t ∈ ts) {read : Arena V → Except TermError (List Term)}
    (hread : ∀ a old, read a = .ok old → a.args t = .ok old ∨ old = [])
    {f f' : List Term → WorkM V σ β}
    (hf : ∀ old, (∀ s ∈ old, D.ArgOf t s) →
      (D.beside C).Agrees (old ++ ts) (f old) (f' old) U) :
    (D.beside C).Agrees ts (WorkM.look read >>= f) (WorkM.look read >>= f') U := by
  refine bindWhere (T := id) (diagonal fun w hw hts => Ensures.lookW (fun old hold => ?_)
    ⟨hw, D.refl _⟩) (fun w hw hts old w' hold s hs => ?_) hf
  · refine ⟨hw, D.refl _, ?_⟩
    rcases hread w.arena old hold with hargs | rfl
    · exact hD.args hw.1 (hts t ht) hargs
    · exact List.forall_mem_nil _
  · unfold WorkM.look at hold
    split at hold
    · next hok =>
      cases hold
      rcases hread _ _ hok with hargs | rfl
      · exact ⟨w.arena, old, hw.1, hts t ht, hargs, hs⟩
      · cases hs
    · cases hold

/-- Listing a known term. -/
theorem push {C : Arena V → Pool → Prop} (hC : D.Lists C) (ht : t ∈ ts) :
    (D.beside C).Agrees ts (WorkM.carry (·.push t)) (WorkM.carry (·.push t)) fun _ => [] :=
  diagonal fun w hw hts =>
    ⟨⟨hw.1, hC.push hw.2 (hts t ht)⟩, D.refl w.arena, List.forall_mem_nil _⟩

/-- Reading the pool, in which everything is known. -/
theorem pool :
    (D.beside D.Filled).Agrees ts (get : PoolM V (Workspace V Pool)) get (·.carried.toList) :=
  diagonal fun w hw _ => ⟨hw, D.refl w.arena, fun p hp => hw.2 p (Array.mem_toList_iff.mp hp)⟩

end Agrees

/-! ## Collecting, factorizing and mapping -/

/-- COLLECTION reads arguments, sets indexes and lists terms. -/
theorem collectStep_agrees {C : Arena V → Pool → Prop} (hD : D.Reindexes) (hC : D.Lists C)
    {f g : Term → PoolM V Unit}
    (h : ∀ s, D.ArgOf t s → (D.beside C).Agrees [s] (f s) (g s) fun _ => []) :
    (D.beside C).Agrees [t] (collectStep f t) (collectStep g t) fun _ => [] := by
  unfold collectStep
  refine (Agrees.inspectW _).bind fun _ => ?_
  refine (Agrees.onArena hC.toLasts (.setIndex hD List.mem_cons_self .unassigned)).bind fun _ => ?_
  refine .argsW hD.toReads List.mem_cons_self (fun a old hold => ?_) fun old hold => ?_
  · unfold childrenOf at hold
    split at hold
    · exact .inl hold
    · cases hold
      exact .inr rfl
  refine (Agrees.forM old fun s hs => ?_).bind fun _ => ?_
  · exact (h s (hold s hs)).ofOne (List.mem_append_left _ hs)
  · exact .push hC (List.mem_append_right [] (List.mem_append_right old List.mem_cons_self))

/-- FACTORIZATION reads arguments, copies terms and lists the copies, and
answers what the pool holds. -/
theorem factorizeStep_agrees (hD : D.Copies) {f g : Term → PoolM V Term}
    (h : ∀ s, D.ArgOf t s → (D.beside D.Filled).Agrees [s] (f s) (g s) ([·])) :
    (D.beside D.Filled).Agrees [t] (factorizeStep f t) (factorizeStep g t) ([·]) := by
  cases t with
  | var r =>
    refine Agrees.pool.bind fun w => ?_
    split
    · exact .refusal
    · next name type _ =>
      refine .answerOf ?_
      cases hfind : w.carried.find? (w.arena.isVarNamed name) with
      | none => exact List.mem_append_right _ List.mem_cons_self
      | some p =>
        exact List.mem_append_left _ (Array.mem_toList_iff.mpr (Array.mem_of_find?_eq_some hfind))
  | compound r =>
    refine .argsW hD.toReads List.mem_cons_self (fun _ _ => .inl) fun old hold => ?_
    refine (Agrees.mapM old fun s hs => ?_).bind fun new => ?_
    · exact (h s (hold s hs)).ofOne (List.mem_append_left _ hs)
    refine (Agrees.onArena lasts_filled (.rebuilt hD old ?_ (List.subset_append_left _ _))).bind
      fun candidate => Agrees.pool.bind fun w => ?_
    · exact List.mem_append_right _ (List.mem_append_right _ List.mem_cons_self)
    have hcandidate : ∀ us, candidate ∈ w.carried.toList ++ ([candidate] ++ us) := fun us =>
      List.mem_append_right _ (List.mem_append_left us List.mem_cons_self)
    split
    · next shared hshared =>
      refine .answerOf (List.mem_append_left _ ?_)
      exact Array.mem_toList_iff.mpr (mem_of_candidate? hshared)
    · split
      · exact .answerOf (hcandidate _)
      · exact (Agrees.push lists_filled (hcandidate _)).bind fun _ =>
          .answerOf (hcandidate _)
  | _ => exact .answerOf List.mem_cons_self

/-- MAPPING reads arguments and copies terms, and hands the copies to the
mapper. -/
theorem mapCompoundsStep_agrees (hD : D.Copies) (hC : D.Lasts C)
    {mapper f g : Term → WorkM V σ Term}
    (hmapper : ∀ q, (D.beside C).Agrees [q] (mapper q) (mapper q) ([·]))
    (h : ∀ s, D.ArgOf t s → (D.beside C).Agrees [s] (f s) (g s) ([·])) :
    (D.beside C).Agrees [t] (mapCompoundsStep mapper f t) (mapCompoundsStep mapper g t)
      ([·]) := by
  unfold mapCompoundsStep
  split
  · refine .argsW hD.toReads List.mem_cons_self (fun _ _ => .inl) fun old hold => ?_
    refine (Agrees.mapM old fun s hs => ?_).bind fun new => ?_
    · exact (h s (hold s hs)).ofOne (List.mem_append_left _ hs)
    refine (Agrees.onArena hC (.rebuilt hD old ?_ (List.subset_append_left _ _))).bind
      fun q => (hmapper q).ofOne List.mem_cons_self
    exact List.mem_append_right _ (List.mem_append_right _ List.mem_cons_self)
  · exact .answerOf List.mem_cons_self

theorem collectInto_obeys {C : Arena V → Pool → Prop} (hD : D.Reindexes) (hC : D.Lists C)
    (t : Term) {w : Workspace V Pool} (hw : (D.beside C).inOrder w) (ht : D.known w.arena t) :
    (D.beside C).Obeys (collectInto t) (fun _ => []) w := by
  have hwalk : (D.beside C).Agrees [t] (collectInto t) (collectInto t) fun _ => [] :=
    walk_related (R := fun t m m' => (D.beside C).Agrees [t] m m' fun _ => [])
      (fun _ => .refusal) (fun _ _ _ h => collectStep_agrees hD hC fun s _ => h s) t
  exact (hwalk w hw (List.forall_mem_singleton.mpr ht)).2

theorem factorizeAgainst_obeys (hD : D.Copies) (t : Term) {w : Workspace V Pool}
    (hw : (D.beside D.Filled).inOrder w) (ht : D.known w.arena t) :
    (D.beside D.Filled).Obeys (factorizeAgainst t) ([·]) w := by
  have hwalk : (D.beside D.Filled).Agrees [t] (factorizeAgainst t) (factorizeAgainst t) ([·]) :=
    walk_related (R := fun t m m' => (D.beside D.Filled).Agrees [t] m m' ([·]))
      (fun _ => .refusal) (fun _ _ _ h => factorizeStep_agrees hD fun s _ => h s) t
  exact (hwalk w hw (List.forall_mem_singleton.mpr ht)).2

theorem mapCompounds_obeys (hD : D.Copies) (hC : D.Lasts C) {mapper : Term → WorkM V σ Term}
    (hmapper : ∀ q, (D.beside C).Agrees [q] (mapper q) (mapper q) ([·])) (t : Term)
    {w : Workspace V σ} (hw : (D.beside C).inOrder w) (ht : D.known w.arena t) :
    (D.beside C).Obeys (mapCompounds mapper t) ([·]) w := by
  have hwalk : (D.beside C).Agrees [t] (mapCompounds mapper t) (mapCompounds mapper t) ([·]) :=
    walk_related (R := fun t m m' => (D.beside C).Agrees [t] m m' ([·])) (fun _ => .refusal)
      (fun _ _ _ h => mapCompoundsStep_agrees hD hC hmapper fun s _ => h s) t
  exact (hwalk w hw (List.forall_mem_singleton.mpr ht)).2

/-! ## Passes -/

/-- A run beside a pool of known terms, on the arena alone. -/
theorem Obeys.ofBeside {m : PoolM V α} {T : α → List Term} {a : Arena V} {pool : Pool}
    (h : (D.beside D.Filled).Obeys m T ⟨a, pool⟩) :
    D.Obeys (m.beside pool) (fun x => x.2.toList ++ T x.1) a := by
  refine Ensures.beside (Ensures.mono h ?_ ?_)
  · rintro x w ⟨⟨hw, hpool⟩, hfollows, hterms⟩
    refine ⟨hw, hfollows, List.forall_mem_append.mpr ⟨fun p hp => ?_, hterms⟩⟩
    exact hpool p (Array.mem_toList_iff.mp hp)
  · rintro w ⟨⟨hw, -⟩, hfollows⟩
    exact ⟨hw, hfollows⟩

theorem collect_obeys (hD : D.Reindexes) (t : Term) {a : Arena V} (ha : D.inOrder a)
    (ht : D.known a t) : D.Obeys (collect t) Array.toList a := by
  have hempty : (D.beside D.Filled).inOrder (⟨a, #[]⟩ : Workspace V Pool) :=
    ⟨ha, fun p hp => by simp at hp⟩
  refine (collectInto_obeys hD lists_filled t hempty ht).ofBeside.bind ?_
  rintro ⟨⟨⟩, pool⟩ b hb - hpool
  refine .answer hb fun p hp => hpool p (List.mem_append_left _ ?_)
  rw [Array.toList_pop] at hp
  exact List.dropLast_subset _ hp

theorem factorize_obeys (hR : D.Reindexes) (hC : D.Copies) (t : Term) {a : Arena V}
    (ha : D.inOrder a) (ht : D.known a t) : D.Obeys (factorize t) ([·]) a := by
  refine (collect_obeys hR t ha ht).bind fun pool b hb hab hpool => ?_
  have hfilled : (D.beside D.Filled).inOrder (⟨b, pool⟩ : Workspace V Pool) :=
    ⟨hb, fun p hp => hpool p (Array.mem_toList_iff.mpr hp)⟩
  refine (factorizeAgainst_obeys hC t hfilled (D.later ha hab ht)).ofBeside.bind ?_
  rintro ⟨q, pool'⟩ c hc - hq
  exact .answer hc fun s hs => hq s (List.mem_append_right _ hs)

theorem normalize_obeys (hR : D.Reindexes) (hC : D.Copies) (t : Term) {a : Arena V}
    (ha : D.inOrder a) (ht : D.known a t) : D.Obeys (normalize t) ([·]) a := by
  refine (factorize_obeys hR hC t ha ht).bind fun q b hb _ hq => ?_
  refine (number_obeys hR q 0 hb (hq q List.mem_cons_self)).bind fun _ c hc hbc _ => ?_
  exact .answer hc fun s hs => D.later hb hbc (hq s hs)

end Beside

end Discipline

end TermGraph
