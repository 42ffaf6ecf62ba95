import TermGraph.Arena.Equality
import TermGraph.Arena.Occurrence
import TermGraph.Arena.Print
import TermGraph.Proofs.Discipline
import TermGraph.Proofs.Sameness

/-!
# Recursion — every descent comes to an end by itself

A walk asks for lower terms only, and stops where a step asks for another.
That makes it a function whatever the tables hold; but it leaves open
whether a recursion that asks for ALL arguments, and has no such stop,
would come to an end.

`recursion` is that recursion, cut off after a number of calls one inside
the other. It ends by itself if it never comes to the cut: whatever stands
there, the outcome is the same. That is what `EndsBy` says, of all depths
from the height of the term on; and the outcome is that of the walk.

On tables that agree with each other every recursion over arguments ends
in this sense, on every handle, also on one that does not resolve or does
not fit its node. The stop of a walk is never reached there.

A recursion that reads one arena asks for nothing but children, which are
lower, and no more has to be said of it (`AsksOnly`). One that builds or
reindexes asks in arenas that it has changed itself. That the tables go on
to agree is a discipline, `standing`; the recursion and the walk keep to
it together.

## What is proved

`WellFormed.recursionsEnd` — all recursions over arguments end.
-/

namespace TermGraph

section Depth

variable {β γ : Type} (stop stop' : Term → β) (step : (Term → β) → Term → β)

/-- The recursion by a step, cut off after `depth` calls one inside the
other. It asks for any term that the step asks for. -/
def recursion : Nat → Term → β
  | 0, t => stop t
  | depth + 1, t => step (recursion depth) t

/-- The recursion on a term never comes to the cut, whatever stands there;
and what is observed of it is the answer. -/
def EndsBy (observe : β → γ) (t : Term) (answer : γ) : Prop :=
  ∀ stop depth, t.height ≤ depth → observe (recursion stop step depth t) = answer

/-- The same for the whole outcome. -/
def Ends (t : Term) (answer : β) : Prop := EndsBy step (fun x => x) t answer

variable {stop stop' step}

/-- What one step keeps, if it holds for all lower terms, holds between the
recursion and the walk. -/
theorem recursion_walk {R : Term → β → β → Prop}
    (hstep : ∀ t f g, (∀ s, s.height < t.height → R s (f s) (g s)) →
      R t (step f t) (step g t)) :
    ∀ depth t, t.height ≤ depth → R t (recursion stop step depth t) (walk stop' step t) := by
  intro depth
  induction depth with
  | zero =>
    intro t ht
    have := t.height_pos
    omega
  | succ depth ih =>
    intro t ht
    rw [walk_eq]
    refine hstep t _ _ fun s hs => ?_
    rw [if_pos hs]
    exact ih s (by omega)

/-- The step asks for nothing but the children of a term. -/
def AsksOnly (children : Term → List Term) (step : (Term → β) → Term → β) : Prop :=
  ∀ t f g, (∀ s ∈ children t, f s = g s) → step f t = step g t

/-- A recursion over children that are lower ends. -/
theorem AsksOnly.ends {children : Term → List Term} (h : AsksOnly children step)
    (hlow : ∀ t, ∀ s ∈ children t, s.height < t.height) (stop' : Term → β) (t : Term) :
    Ends step t (walk stop' step t) := by
  intro stop depth ht
  exact recursion_walk (R := fun _ => Eq) (fun t f g ih => h t f g fun s hs => ih s (hlow t s hs))
    depth t ht

end Depth

/-! ## Lists -/

theorem findSome?_congr {α β : Type} {xs : List α} {f g : α → Option β}
    (h : ∀ x ∈ xs, f x = g x) : xs.findSome? f = xs.findSome? g := by
  induction xs with
  | nil => rfl
  | cons x xs ih =>
    rw [List.findSome?_cons, List.findSome?_cons, h x List.mem_cons_self,
      ih fun y hy => h y (List.mem_cons_of_mem x hy)]

theorem mapM_congr {α β : Type} {xs : List α} {f g : α → Option β} (h : ∀ x ∈ xs, f x = g x) :
    xs.mapM f = xs.mapM g := by
  induction xs with
  | nil => rfl
  | cons x xs ih =>
    rw [List.mapM_cons, List.mapM_cons, h x List.mem_cons_self,
      ih fun y hy => h y (List.mem_cons_of_mem x hy)]

namespace Arena

variable {V σ : Type} {u : Use} {a : Arena V}

/-! ## Reading -/

/-- The arguments that a text shows: those of the node, whatever the
handle. -/
def shownArgs (a : Arena V) (t : Term) : List Term :=
  match a.view t with
  | .ok (.compound _ args) => args
  | _ => []

theorem shownArgs_eq {t : Term} {f : String} {args : List Term}
    (h : a.view t = .ok (.compound f args)) : a.shownArgs t = args := by
  rw [shownArgs, h]

/-- What a text shows is lower. -/
theorem WellFormed.shownArgs_lower (wf : a.WellFormed u) (t : Term) :
    ∀ s ∈ a.shownArgs t, s.height < t.height := by
  intro s hs
  unfold shownArgs at hs
  split at hs
  · next f args hview => exact (wf.view_sound hview s hs).2
  · cases hs

section Payload

variable [Payload V]

theorem asksOnly_structuralStep (a : Arena V) : AsksOnly a.argsOrNone a.structuralStep := by
  intro s f g h
  funext t
  simp only [structuralStep, sameShape_congr fun x hx y _ => congrFun (h x hx) y]

theorem asksOnly_valueStep (a : Arena V) : AsksOnly a.argsOrNone a.valueStep := by
  intro s f g h
  funext t
  simp only [valueStep, sameShape_congr fun x hx y _ => congrFun (h x hx) y]

theorem asksOnly_showStep (a : Arena V) (alternate : Bool) :
    AsksOnly a.shownArgs (a.showStep alternate) := by
  intro t f g h
  unfold showStep
  split
  case h_8 functor args hview =>
    rw [shownArgs_eq hview] at h
    rw [mapM_congr h]
  all_goals rfl

theorem asksOnly_argTextStep (a : Arena V) : AsksOnly a.shownArgs a.argTextStep := by
  intro t f g h
  unfold argTextStep
  split
  · next v hview =>
    cases v with
    | compound functor args =>
      rw [shownArgs_eq hview] at h
      simp only [viewText, List.map_congr_left h]
    | _ => rfl
  · rfl

end Payload

theorem asksOnly_occurrences (a : Arena V) :
    AsksOnly a.argsOrNone fun recur t => t :: (a.argsOrNone t).flatMap recur := by
  intro t f g h
  simp only [List.flatMap_congr h]

theorem asksOnly_namedVarsStep (a : Arena V) : AsksOnly a.argsOrNone a.namedVarsStep := by
  intro t f g h
  funext found
  unfold namedVarsStep
  rw [List.foldl_ext _ _ found fun found s hs => by rw [h s hs]]

theorem asksOnly_firstNamedStep (a : Arena V) (name : String) :
    AsksOnly a.argsOrNone (a.firstNamedStep name) := by
  intro t f g h
  cases t with
  | compound r => exact findSome?_congr h
  | _ => rfl

/-! ## Building and reindexing -/

/-- Tables that agree with each other. Nothing is asked of a handle under
free use, so every term is known. -/
def standing : Discipline (Arena V) where
  inOrder := WellFormed .free
  known _ _ := True
  follows _ _ := True
  refl _ := trivial
  trans _ _ := trivial
  later _ _ _ := trivial

/-- Everything may be passed on under free use. -/
theorem permits_free (a : Arena V) (t : Term) : a.Permits .free t := fun hu => by cases hu

theorem standing_reindexes : (standing (V := V)).Reindexes where
  args _ _ _ _ _ := trivial
  setIndex wf _ i := ⟨wf.setIndex (permits_free _ _) i, trivial⟩

theorem standing_copies : (standing (V := V)).Copies where
  args _ _ _ _ _ := trivial
  withArguments {a t ts} wf _ _ := by
    refine (withArguments_ensures wf t fun s _ => permits_free a s).mono ?_ ?_
    · rintro c b ⟨wf', -⟩
      exact ⟨wf', trivial, fun _ _ => trivial⟩
    · rintro b rfl
      exact ⟨wf, trivial⟩

/-- What a step asks for is lower. -/
theorem standing_lower {t s : Term} (h : (standing (V := V)).ArgOf t s) :
    s.height < t.height := by
  obtain ⟨a, args, wf, -, hargs, hs⟩ := h
  exact (wf.args_sound hargs s hs).2

/-- Agreement where the tables of an arena agree. -/
theorem eq_of_standing {α : Type} {m m' : BuildM V α} {ts : List Term}
    {T : α → List Term} (h : standing.Agrees ts m m' T) (wf : a.WellFormed .free) : m a = m' a :=
  (h a wf fun _ _ => trivial).1

/-- The same beside a pool, or beside what a mapper records. -/
theorem eq_of_standing_beside {α : Type} {C : Arena V → σ → Prop} {m m' : WorkM V σ α}
    {ts : List Term} {T : α → List Term} (h : (standing.beside C).Agrees ts m m' T)
    (wf : a.WellFormed .free) {x : σ} (hx : C a x) : m ⟨a, x⟩ = m' ⟨a, x⟩ :=
  (h ⟨a, x⟩ ⟨wf, hx⟩ fun _ _ => trivial).1

theorem WellFormed.collect_ends (wf : a.WellFormed .free) (t : Term) (pool : Pool) :
    EndsBy collectStep (· ⟨a, pool⟩) t (collectInto t ⟨a, pool⟩) := by
  intro stop depth ht
  refine eq_of_standing_beside (recursion_walk (R := fun t m m' =>
    (standing.beside standing.Filled).Agrees [t] m m' fun _ => []) (fun t f g ih => ?_)
    depth t ht) wf fun _ _ => trivial
  exact Discipline.collectStep_agrees standing_reindexes Discipline.lists_filled
    fun s hs => ih s (standing_lower hs)

theorem WellFormed.factorize_ends (wf : a.WellFormed .free) (t : Term) (pool : Pool) :
    EndsBy factorizeStep (· ⟨a, pool⟩) t (factorizeAgainst t ⟨a, pool⟩) := by
  intro stop depth ht
  refine eq_of_standing_beside (recursion_walk (R := fun t m m' =>
    (standing.beside standing.Filled).Agrees [t] m m' ([·])) (fun t f g ih => ?_)
    depth t ht) wf fun _ _ => trivial
  exact Discipline.factorizeStep_agrees standing_copies fun s hs => ih s (standing_lower hs)

theorem WellFormed.number_ends (wf : a.WellFormed .free) (t : Term) (start : Nat) :
    EndsBy numberStep (· start a) t (number t start a) := by
  intro stop depth ht
  refine eq_of_standing (recursion_walk (R := fun t (m m' : Nat → BuildM V Nat) =>
    ∀ start, standing.Agrees [t] (m start) (m' start) fun _ => []) (fun t f g ih => ?_)
    depth t ht start) wf
  exact Discipline.numberStep_agrees standing_reindexes fun s hs => ih s (standing_lower hs)

theorem WellFormed.substitute_ends (wf : a.WellFormed .free) (t : Term) (frame : List Term) :
    EndsBy (substituteStep frame) (· a) t (substitute t frame a) := by
  intro stop depth ht
  refine eq_of_standing (recursion_walk (R := fun t m m' =>
    standing.Agrees (t :: frame) m m' ([·])) (fun t f g ih => ?_) depth t ht) wf
  exact Discipline.substituteStep_agrees standing_copies fun s hs => ih s (standing_lower hs)

/-- A mapping ends too, if no call of the closure leaves the tables at odds
with each other. -/
theorem WellFormed.mapCompounds_ends (wf : a.WellFormed .free) {mapper : Term → WorkM V σ Term}
    (hmapper : ∀ q (w : Workspace V σ), w.arena.WellFormed .free →
      Ensures (mapper q) w (fun _ w' => w'.arena.WellFormed .free)
        (fun w' => w'.arena.WellFormed .free))
    (t : Term) (x : σ) :
    EndsBy (mapCompoundsStep mapper) (· ⟨a, x⟩) t (mapCompounds mapper t ⟨a, x⟩) := by
  intro stop depth ht
  have hcalls (q : Term) : (standing.beside fun _ (_ : σ) => True).Agrees [q] (mapper q)
      (mapper q) ([·]) :=
    .diagonal fun w hw _ => (hmapper q w hw.1).mono
      (fun _ _ h => ⟨⟨h, trivial⟩, trivial, fun _ _ => trivial⟩) fun _ h => ⟨⟨h, trivial⟩, trivial⟩
  refine eq_of_standing_beside (recursion_walk (R := fun t m m' =>
    (standing.beside fun _ _ => True).Agrees [t] m m' ([·])) (fun t f g ih => ?_)
    depth t ht) wf trivial
  exact Discipline.mapCompoundsStep_agrees standing_copies ⟨fun _ _ h => h⟩ hcalls
    fun s hs => ih s (standing_lower hs)

/-! ## All of them -/

/-- Every recursion over arguments ends on every handle, with the outcome of
the walk. -/
structure RecursionsEnd [Payload V] (a : Arena V) : Prop where
  collect : ∀ t pool, EndsBy collectStep (· ⟨a, pool⟩) t (collectInto t ⟨a, pool⟩)
  factorize : ∀ t pool, EndsBy factorizeStep (· ⟨a, pool⟩) t (factorizeAgainst t ⟨a, pool⟩)
  number : ∀ t start, EndsBy numberStep (· start a) t (number t start a)
  substitute : ∀ t frame, EndsBy (substituteStep frame) (· a) t (substitute t frame a)
  structural : ∀ t, Ends a.structuralStep t (a.structurallyEqual t)
  value : ∀ t, Ends a.valueStep t (a.valueEqual t)
  text : ∀ t, Ends (a.showStep false) t (a.text? t)
  alternateText : ∀ t, Ends (a.showStep true) t (a.alternateText? t)
  debugText : ∀ t, Ends a.argTextStep t (walk noViewText a.argTextStep t)
  occurrences : ∀ t, Ends (fun recur t => t :: (a.argsOrNone t).flatMap recur) t
    (a.occurrences t)
  namedVars : ∀ t, Ends a.namedVarsStep t (a.namedVarsFrom t)
  firstNamed : ∀ name t, Ends (a.firstNamedStep name) t (a.firstNamed name t)

/-- EVERY RECURSION OVER ARGUMENTS ENDS on tables that agree with each
other. -/
theorem WellFormed.recursionsEnd [Payload V] (wf : a.WellFormed .free) : a.RecursionsEnd := by
  have hargs (t : Term) : ∀ s ∈ a.argsOrNone t, s.height < t.height :=
    fun s hs => (wf.argsOrNone_sound s hs).2
  have hshown (t : Term) := wf.shownArgs_lower t
  exact {
    collect := wf.collect_ends
    factorize := wf.factorize_ends
    number := wf.number_ends
    substitute := wf.substitute_ends
    structural := (asksOnly_structuralStep a).ends hargs _
    value := (asksOnly_valueStep a).ends hargs _
    text := (asksOnly_showStep a false).ends hshown _
    alternateText := (asksOnly_showStep a true).ends hshown _
    debugText := (asksOnly_argTextStep a).ends hshown _
    occurrences := (asksOnly_occurrences a).ends hargs _
    namedVars := (asksOnly_namedVarsStep a).ends hargs _
    firstNamed := fun name => (asksOnly_firstNamedStep a name).ends hargs _ }

end Arena

end TermGraph
