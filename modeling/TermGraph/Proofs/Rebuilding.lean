import TermGraph.Proofs.FixedPoints
import TermGraph.Proofs.Projections

/-!
# Rebuilding — what is copied on the way up

Substitution and mapping replace parts of a term and then copy the compound
terms above them. Whether a compound term is copied is decided at every
level anew, by comparing the arguments it has with what came back for them.
A copy is a new node, so one difference at a leaf copies everything above
the leaf.

The comparison is identity of handles, and a real that is not a number is
not the same as itself. So there are two reasons for a copy, and `Untouched`
is the absence of both: nothing under the term is replaced, and under the
term no argument is a value that is not a number. The second reason is there
even if nothing at all is replaced.

`Rebuilds` is what both traversals do, with the replacement of variables as
a parameter. Where a term is untouched the answer is the handle itself and
the arena is as it was; otherwise the answer is another handle. Every node
that is built stands under the answer.

## What is proved

`substitute_rebuilds` and `mapCompounds_rebuilds` — the two traversals do
that. `Session.Reachable.nothing_rebuilt_iff` — where nothing is replaced,
nothing is rebuilt exactly if the term has proper arguments.
-/

namespace TermGraph

namespace Arena

variable {V : Type} {a b c d : Arena V} {put : Term → Term} {s t q : Term} {f : String}
  {old new : List Term}

/-! ## Terms with nothing to rebuild -/

/-- There is no reason to copy anything under the term. -/
structure Untouched (a : Arena V) (put : Term → Term) (t : Term) : Prop where
  kept : ∀ r, a.Under t (.var r) → put (.var r) = .var r
  proper : a.ProperArguments t

theorem untouched_of_isLeaf (hl : t.isLeaf = true) : a.Untouched put t := by
  have hargs : a.argsOrNone t = [] := argsOrNone_of_isLeaf hl
  constructor
  · intro r hr
    cases hr.eq_of_argsOrNone hargs
    cases hl
  · exact properArguments_of_argsOrNone hargs

theorem untouched_var {r : Reference} (h : put (.var r) = .var r) : a.Untouched put (.var r) := by
  constructor
  · intro r' hr
    rw [hr.eq_of_argsOrNone argsOrNone_var, h]
  · exact properArguments_of_argsOrNone argsOrNone_var

/-- A compound term is untouched if its arguments are, and if they are the
same as themselves. -/
theorem untouched_iff (hshell : a.shell? t = some (f, old)) :
    a.Untouched put t ↔ ∀ s ∈ old, a.Untouched put s ∧ s.same s = true := by
  constructor
  · intro h s hs
    have hunder : a.Under t s := .ofShell hshell hs
    refine ⟨⟨fun r hr => h.kept r (hunder.trans hr), fun x g xs p hx => ?_⟩, ?_⟩
    · exact h.proper x g xs p (hunder.trans hx)
    · have hself := h.proper.sameAll_self (.refl a t) hshell
      exact List.forall₂_same.mp (Term.sameAll_iff.mp hself) s hs
  · intro h
    constructor
    · intro r hr
      rcases hr.cases with rfl | ⟨arg, harg, hr⟩
      · cases hshell
      · rw [argsOrNone_of_shell? hshell] at harg
        exact (h arg harg).1.kept r hr
    · intro x g xs p hx hxs hp
      rcases hx.cases with rfl | ⟨arg, harg, hx⟩
      · rw [hshell] at hxs
        cases hxs
        have hself := (h _ hp).2
        simpa only [Term.same_self, Bool.not_eq_true'] using hself
      · rw [argsOrNone_of_shell? hshell] at harg
        exact (h arg harg).1.proper x g xs p hx hxs hp

/-- Where no variable is replaced, proper arguments are all that is asked
for. -/
theorem untouched_iff_proper (h : ∀ r, a.Under t (.var r) → put (.var r) = .var r) :
    a.Untouched put t ↔ a.ProperArguments t :=
  ⟨fun huntouched => huntouched.proper, fun hproper => ⟨h, hproper⟩⟩

/-! ## What a traversal does -/

/-- A traversal takes the term `t` and the arena `b` to the term `q` and the
arena `c`. Whether `t` is untouched is read in `a`, where it is held. -/
structure Rebuilds (a : Arena V) (put : Term → Term) (b : Arena V) (t q : Term) (c : Arena V) :
    Prop where
  wf : c.WellFormed .documented
  grows : b.Grows c
  held : c.Holds .documented q
  built : ∀ place, b.nodes.size ≤ place → place < c.nodes.size →
    c.Under q (.compound ⟨c.id, place⟩)
  kept : a.Untouched put t → q = t ∧ c = b
  changed : q.same t = true → a.Untouched put t

/-- The same of the arguments of a term, one after another. -/
structure RebuildsAll (a : Arena V) (put : Term → Term) (b : Arena V) (old new : List Term)
    (c : Arena V) : Prop where
  wf : c.WellFormed .documented
  grows : b.Grows c
  length_eq : old.length = new.length
  held : ∀ q ∈ new, c.Holds .documented q
  built : ∀ place, b.nodes.size ≤ place → place < c.nodes.size →
    ∃ q ∈ new, c.Under q (.compound ⟨c.id, place⟩)
  kept : (∀ s ∈ old, a.Untouched put s) → new = old ∧ c = b
  changed : Term.sameAll new old = true → ∀ s ∈ old, a.Untouched put s

namespace Rebuilds

/-- A term that is answered as it is. -/
theorem same (wf : b.WellFormed .documented) (ht : b.Holds .documented t)
    (h : a.Untouched put t) : a.Rebuilds put b t t b where
  wf := wf
  grows := .refl b
  held := ht
  built place hle hlt := by omega
  kept _ := ⟨rfl, rfl⟩
  changed _ := h

/-- A variable becomes what is put in its place. -/
theorem var (wf : b.WellFormed .documented) {r : Reference}
    (hput : b.Holds .documented (put (.var r))) : a.Rebuilds put b (.var r) (put (.var r)) b where
  wf := wf
  grows := .refl b
  held := hput
  built place hle hlt := by omega
  kept h := ⟨h.kept r (.refl a _), rfl⟩
  changed hsame := untouched_var (Term.eq_of_same_of_ref (Term.same_symm hsame) rfl).symm

/-- The answer is the handle itself, and the arena as it was, exactly if the
term is untouched. -/
theorem eq_iff (h : a.Rebuilds put b t q c) : q = t ∧ c = b ↔ a.Untouched put t := by
  constructor
  · rintro ⟨rfl, -⟩
    by_cases hself : q.same q = true
    · exact h.changed hself
    · -- Only a real is not the same as itself, and nothing is under a real.
      cases q with
      | real _ => exact untouched_of_isLeaf rfl
      | _ => exact absurd (Term.same_self _) hself
  · exact h.kept

end Rebuilds

namespace RebuildsAll

/-- No argument. -/
theorem none (wf : b.WellFormed .documented) : a.RebuildsAll put b [] [] b where
  wf := wf
  grows := .refl b
  length_eq := rfl
  held _ hq := by cases hq
  built place hle hlt := by omega
  kept _ := ⟨rfl, rfl⟩
  changed _ _ hs := by cases hs

/-- One argument after another. -/
theorem ofThreaded (wf : b.WellFormed .documented) (h : Threaded (a.Rebuilds put) b old new c) :
    a.RebuildsAll put b old new c := by
  induction h with
  | nil b => exact .none wf
  | @cons b c d s q old new head _ ih =>
    have hrest := ih head.wf
    have hgrows := head.grows.trans hrest.grows
    refine ⟨hrest.wf, hgrows, congrArg (· + 1) hrest.length_eq, ?_, ?_, ?_, ?_⟩
    · intro x hx
      rcases List.mem_cons.mp hx with rfl | hx
      · exact head.held.extends hrest.grows.toExtends
      · exact hrest.held x hx
    · intro place hle hlt
      rcases Nat.lt_or_ge place c.nodes.size with hplace | hplace
      · have hunder := head.built place hle hplace
        rw [← hrest.grows.under_frozen head.wf head.held, ← hrest.grows.id] at hunder
        exact ⟨q, List.mem_cons_self, hunder⟩
      · obtain ⟨x, hx, hunder⟩ := hrest.built place hplace hlt
        exact ⟨x, List.mem_cons_of_mem q hx, hunder⟩
    · intro hall
      obtain ⟨hhead, htail⟩ := List.forall_mem_cons.mp hall
      obtain ⟨rfl, rfl⟩ := head.kept hhead
      obtain ⟨rfl, rfl⟩ := hrest.kept htail
      exact ⟨rfl, rfl⟩
    · intro hsame
      obtain ⟨hhead, htail⟩ := List.forall₂_cons.mp (Term.sameAll_iff.mp hsame)
      exact List.forall_mem_cons.mpr
        ⟨head.changed hhead, hrest.changed (Term.sameAll_iff.mpr htail)⟩

/-- Arguments come back as they were exactly if the term over them is
untouched. -/
theorem sameAll_iff (h : a.RebuildsAll put b old new c) (hshell : a.shell? t = some (f, old)) :
    Term.sameAll new old = true ↔ a.Untouched put t := by
  rw [untouched_iff hshell]
  constructor
  · intro hsame s hs
    have hself := Term.sameAll_self_of_sameAll (Term.sameAll_symm hsame)
    exact ⟨h.changed hsame s hs, List.forall₂_same.mp (Term.sameAll_iff.mp hself) s hs⟩
  · intro hall
    rw [(h.kept fun s hs => (hall s hs).1).1]
    exact Term.sameAll_iff.mpr (List.forall₂_same.mpr fun s hs => (hall s hs).2)

/-- THE STEP: a compound term over what its arguments became. -/
theorem rebuilt (h : a.RebuildsAll put b old new c) (ht : a.Holds .documented t)
    (hshell : a.shell? t = some (f, old)) (hext : a.Extends c) :
    Ensures (Arena.rebuilt t old new) c (fun q d => a.Rebuilds put b t q d) (fun _ => False) := by
  cases hsame : Term.sameAll new old with
  | true =>
    have huntouched := (h.sameAll_iff hshell).mp hsame
    obtain ⟨rfl, rfl⟩ := h.kept fun s hs => ((untouched_iff hshell).mp huntouched s hs).1
    rw [Arena.rebuilt, if_pos hsame]
    exact Ensures.answer (.same h.wf (ht.extends hext) huntouched)
  | false =>
    rcases shell?_cases hshell with ⟨r, rfl⟩ | ⟨control, rfl, -, rfl⟩
    · obtain ⟨q, d, hok, hnew, -⟩ :=
        rebuilt_ok h.wf (hext.shell?_eq hshell) h.length_eq h.held hsame
      refine Ensures.of_ok hok ⟨hnew.wf, h.grows.trans hnew.grows, hnew.holds, ?_, ?_, ?_⟩
      · intro place hle hlt
        rcases Nat.lt_or_ge place c.nodes.size with hplace | hplace
        · obtain ⟨x, hx, hunder⟩ := h.built place hle hplace
          rw [← hnew.grows.under_frozen h.wf (h.held x hx), ← hnew.grows.id] at hunder
          exact (Under.ofShell hnew.shell?_eq hx).trans hunder
        · -- The only node that was not there before is the copy itself.
          have hsize := hnew.size
          obtain rfl : place = c.nodes.size := by omega
          rw [hnew.grows.id, ← hnew.handle]
          exact .refl d q
      · intro huntouched
        rw [(h.sameAll_iff hshell).mpr huntouched] at hsame
        cases hsame
      · intro heq
        have hplace := (ht.extends hext).place_lt (t := .compound r) rfl
        rw [hnew.handle] at heq
        cases Term.eq_of_same_of_ref heq rfl
        exact absurd hplace.2 (Nat.lt_irrefl _)
    · have hnil : new = [] := List.eq_nil_of_length_eq_zero h.length_eq.symm
      rw [hnil] at hsame
      cases hsame

end RebuildsAll

/-! ## The two traversals -/

/-- WHAT SUBSTITUTION REBUILDS, in an arena that has grown out of one which
holds the term. -/
theorem substitute_rebuilds {frame : List Term} (wf : a.WellFormed .documented) (t : Term) :
    ∀ {b}, a.Holds .documented t →
      (∀ r, a.Under t (.var r) → a.Holds .documented (a.fill frame (.var r))) →
      b.WellFormed .documented → a.Grows b →
      Ensures (substitute t frame) b (fun q c => a.Rebuilds (a.fill frame) b t q c)
        (fun _ => False) := by
  induction t using Term.byHeight with
  | step t ih =>
    intro b ht hfill wfb hab
    rw [substitute_eq]
    rcases wf.cases_holds ht with ⟨r, name, type, rfl, -⟩ | ⟨r, f, old, rfl, hshell⟩ | hl
    · obtain ⟨i, hi⟩ := ht.index
      refine Ensures.bind_ok (look_of_ok (f := (·.index (.var r))) (x := i) ?_) ?_
      · rw [hab.index_eq ht, hi]
      · rw [← fill_eq hi]
        exact Ensures.answer (.var wfb ((hfill r (.refl a _)).extends hab.toExtends))
    · have hlower := wf.args_sound (args_of_shell? hshell)
      apply Ensures.bind_ok (look_of_ok (f := (·.args (.compound r)))
        (args_of_shell? (hab.shell?_eq hshell)))
      refine Ensures.bind (Ensures.mapM_threaded
        (I := fun c => c.WellFormed .documented ∧ a.Grows c) (R := a.Rebuilds (a.fill frame)) old
        ?_ b ⟨wfb, hab⟩) ?_
      · intro s hs c hc
        rw [if_pos (hlower s hs).2]
        refine (ih s (hlower s hs).2 (hlower s hs).1 ?_ hc.1 hc.2).mono ?_ fun _ h => h
        · intro v hv
          exact hfill v ((Under.ofShell hshell hs).trans hv)
        · intro q d hq
          exact ⟨⟨hq.wf, hc.2.trans hq.grows⟩, hq⟩
      · intro new c hend
        obtain ⟨⟨-, hac⟩, hall⟩ := hend
        exact (RebuildsAll.ofThreaded wfb hall).rebuilt ht hshell hac.toExtends
    · cases t with
      | var _ | compound _ => cases hl
      | _ =>
        exact Ensures.answer
          (.same wfb (ht.extends hab.toExtends) (untouched_of_isLeaf hl))

/-- WHAT A MAPPING REBUILDS whose function answers its argument and leaves
the arena alone. -/
theorem mapCompounds_rebuilds {σ : Type} {mapper : Term → WorkM V σ Term}
    (hmapper : ∀ q w, ∃ x, mapper q w = .ok q ⟨w.arena, x⟩) (wf : a.WellFormed .documented)
    (t : Term) :
    ∀ {w : Workspace V σ}, a.Holds .documented t → w.arena.WellFormed .documented →
      a.Extends w.arena →
      Ensures (mapCompounds mapper t) w (fun q w' => a.Rebuilds (fun v => v) w.arena t q w'.arena)
        (fun _ => False) := by
  induction t using Term.byHeight with
  | step t ih =>
    intro w ht wfw hext
    rw [mapCompounds_eq, mapCompoundsStep]
    cases hcompound : t.isCompound with
    | true =>
      obtain ⟨f, old, hshell⟩ := wf.exists_shell? ht hcompound
      have hlower := wf.args_sound (args_of_shell? hshell)
      rw [if_pos rfl]
      apply Ensures.bind_ok (WorkM.look_of_ok (f := (·.args t))
        (args_of_shell? (hext.shell?_eq hshell)))
      refine Ensures.bind (Ensures.mapM_threaded
        (I := fun w' : Workspace V σ => w'.arena.WellFormed .documented ∧ a.Extends w'.arena)
        (R := fun w s q w' => a.Rebuilds (fun v => v) w.arena s q w'.arena) old ?_ w ⟨wfw, hext⟩) ?_
      · intro s hs w' hw'
        rw [if_pos (hlower s hs).2]
        refine (ih s (hlower s hs).2 (hlower s hs).1 hw'.1 hw'.2).mono ?_ fun _ h => h
        intro q w'' hq
        exact ⟨⟨hq.wf, hw'.2.trans hq.grows.toExtends⟩, hq⟩
      · intro new w' hend
        obtain ⟨⟨-, hext'⟩, hall⟩ := hend
        have hargs : a.RebuildsAll (fun v => v) w.arena old new w'.arena :=
          .ofThreaded wfw (hall.map (g := Workspace.arena) fun _ _ _ _ h => h)
        have hstep := Ensures.onArena (w := w') (hargs.rebuilt ht hshell hext')
        refine Ensures.bind (hstep.mono (fun _ _ h => h.1) fun _ h => h.1) ?_
        intro q w'' hq
        obtain ⟨x, hx⟩ := hmapper q w''
        exact Ensures.of_ok hx hq
    | false =>
      have huntouched : a.Untouched (fun v => v) t := by
        cases t with
        | var r => exact untouched_var rfl
        | compound _ => cases hcompound
        | _ => exact untouched_of_isLeaf rfl
      exact Ensures.answer (.same wfw (ht.extends hext) huntouched)

end Arena

/-- WHERE NOTHING IS REPLACED, NOTHING IS REBUILT, exactly if no argument
under the term is a value that is not a number. Take any term of any copy
that a host can reach. A substitution whose frame binds no variable of the
term, and a mapping whose function answers its argument and leaves the arena
alone, both succeed; and they answer the handle itself and leave the arena as
it was exactly if the term has proper arguments. -/
theorem Session.Reachable.nothing_rebuilt_iff {V : Type} {s : Session V}
    (hs : s.Reachable .documented) {c : Copy V} (hc : c ∈ s.copies) {t : Term} (ht : c.Owns t) :
    (∀ frame, (∀ v value, c.arena.Under t v → ¬c.arena.BindsTo frame v value) →
      ∃ q b, Arena.substitute t frame c.arena = .ok q b ∧
        (q = t ∧ b = c.arena ↔ c.arena.ProperArguments t)) ∧
    ∀ (σ : Type) (mapper : Term → WorkM V σ Term) (x : σ),
      (∀ q w, ∃ y, mapper q w = .ok q ⟨w.arena, y⟩) →
      ∃ q w, Arena.mapCompounds mapper t ⟨c.arena, x⟩ = .ok q w ∧
        (q = t ∧ w.arena = c.arena ↔ c.arena.ProperArguments t) := by
  have wf := (hs.inOrder c hc).1
  have hheld := (hs.inOrder c hc).holds ht
  constructor
  · intro frame hunbound
    have hkept : ∀ r, c.arena.Under t (.var r) → c.arena.fill frame (.var r) = .var r := by
      intro r hr
      exact Arena.fill_of_unbound rfl (wf.holds_under hheld hr) fun value => hunbound _ value hr
    have hfill : ∀ r, c.arena.Under t (.var r) →
        c.arena.Holds .documented (c.arena.fill frame (.var r)) := by
      intro r hr
      rw [hkept r hr]
      exact wf.holds_under hheld hr
    obtain ⟨q, b, hok, h⟩ := (Arena.substitute_rebuilds wf t hheld hfill wf (.refl _)).exists_ok
    exact ⟨q, b, hok, h.eq_iff.trans (Arena.untouched_iff_proper hkept)⟩
  · intro σ mapper x hmapper
    obtain ⟨q, w, hok, h⟩ :=
      (Arena.mapCompounds_rebuilds (w := ⟨c.arena, x⟩) hmapper wf t hheld wf (.refl _)).exists_ok
    exact ⟨q, w, hok, h.eq_iff.trans (Arena.untouched_iff_proper fun _ _ => rfl)⟩

/-- A mapper that counts its calls and answers what it is given. -/
def countCalls (q : Term) : WorkM Scalar Nat Term := do
  WorkM.carry (· + 1)
  return q

/-- The normal form of a sample term is left alone: by a frame whose first
place holds a variable, and by counting. -/
theorem Session.nothing_rebuilt_sample :
    Copy.goal.arena.ProperArguments Term.goal ∧
      Arena.substitute Term.goal [.anon, .int 7] Copy.goal.arena = .ok Term.goal Copy.goal.arena ∧
      ∃ n, Arena.mapCompounds countCalls Term.goal ⟨Copy.goal.arena, 0⟩ =
        .ok Term.goal ⟨Copy.goal.arena, n⟩ := by
  have horder := reachable_goal.inOrder _ (List.mem_singleton_self _)
  have hself : ∀ v ∈ Copy.goal.arena.listing Term.goal, v.same v = true := by decide +kernel
  have hproper : Copy.goal.arena.ProperArguments Term.goal := by
    apply Arena.Quiet.properArguments
    intro v hv
    exact hself v ((horder.1.under_iff (horder.holds Copy.goal_owns)).mp hv)
  have hunbound : ∀ v value, Copy.goal.arena.Under Term.goal v →
      ¬Copy.goal.arena.BindsTo [.anon, .int 7] v value := by
    intro v value hv hbound
    obtain ⟨place, hplace, hvalue⟩ := hbound.placed
    rw [Copy.goal_index hv hbound.named] at hplace
    cases hplace
    cases hvalue
    cases hbound.notVar
  obtain ⟨hsubstitute, hmap⟩ :=
    Session.Reachable.nothing_rebuilt_iff reachable_goal (List.mem_singleton_self _) Copy.goal_owns
  refine ⟨hproper, ?_, ?_⟩
  · obtain ⟨q, b, hok, hiff⟩ := hsubstitute _ hunbound
    obtain ⟨hq, hb⟩ := hiff.mpr hproper
    rw [hq, hb] at hok
    exact hok
  · obtain ⟨q, w, hok, hiff⟩ := hmap Nat countCalls 0 fun _ w => ⟨w.carried + 1, rfl⟩
    obtain ⟨hq, harena⟩ := hiff.mpr hproper
    rw [hq, show w = ⟨Copy.goal.arena, w.carried⟩ by rw [← harena]] at hok
    exact ⟨w.carried, hok⟩

/-- The copy in which a compound term over a value that is not a number was
built. -/
def Copy.improper : Copy Scalar :=
  ((Copy.blank ⟨0⟩).afterAll {} [.compound "f" [.real ⟨0x7ff8000000000000⟩]]).1

/-- The handle of what was built. -/
def Term.improper : Term := .compound ⟨⟨0⟩, 0⟩

theorem Session.reachable_improper : Session.Reachable .documented ⟨[Copy.improper], {}⟩ :=
  reachable_alone ⟨0⟩ _ (by decide +kernel)

/-- So it is not true that nothing is rebuilt where nothing is replaced: such
a term is copied even if the frame is empty, and even if the function only
answers its argument. -/
theorem Session.nothing_rebuilt_differs :
    (¬∀ s : Session Scalar, s.Reachable .documented → ∀ c ∈ s.copies, ∀ t, c.Owns t →
      ∀ frame, (∀ v value, c.arena.Under t v → ¬c.arena.BindsTo frame v value) →
        Arena.substitute t frame c.arena = .ok t c.arena) ∧
    ¬∀ s : Session Scalar, s.Reachable .documented → ∀ c ∈ s.copies, ∀ t, c.Owns t →
      ∀ (σ : Type) (mapper : Term → WorkM Scalar σ Term) (x : σ),
        (∀ q w, ∃ y, mapper q w = .ok q ⟨w.arena, y⟩) →
          ∃ y, Arena.mapCompounds mapper t ⟨c.arena, x⟩ = .ok t ⟨c.arena, y⟩ := by
  have howns : Copy.improper.Owns Term.improper := by decide +kernel
  constructor
  · intro hclaim
    have hcopied : (match Arena.substitute Term.improper [] Copy.improper.arena with
        | .ok q _ => q != Term.improper
        | .error _ _ => false) = true := by decide +kernel
    have hsame := hclaim _ reachable_improper _ (List.mem_singleton_self _) Term.improper howns []
    rw [hsame fun v value _ hbound => ?_] at hcopied
    · cases hcopied
    · obtain ⟨place, -, hvalue⟩ := hbound.placed
      cases hvalue
  · intro hclaim
    have hcopied : (match Arena.mapCompounds countCalls Term.improper ⟨Copy.improper.arena, 0⟩ with
        | .ok q _ => q != Term.improper
        | .error _ _ => false) = true := by decide +kernel
    obtain ⟨n, hsame⟩ := hclaim _ reachable_improper _ (List.mem_singleton_self _) Term.improper
      howns Nat countCalls 0 fun _ w => ⟨w.carried + 1, rfl⟩
    rw [hsame] at hcopied
    cases hcopied

end TermGraph
