import Mathlib.Data.List.Find
import TermGraph.Proofs.Remaking

/-!
# Sharing — factorization against a pool

Factorization runs beside a pool of candidates. The pool begins with what
was collected, the SOURCES, and grows while the recursion is under way: a
copy that finds no candidate becomes one.

`Stocked` is the invariant of the run. Every source is held, and its
arguments are in the pool; the first variable of a name in the pool is the
one picked for the name; and every candidate is a source, or was made of
one. `Furthers` says how a run goes on: nodes are added and candidates are
added, nothing is taken away.

`Settled` is what makes sharing maximal. Under a settled term every
compound term is the FIRST candidate of its own shell. The first candidate
never changes while candidates are only added at the end, so a term that
is settled once stays settled; and two settled terms with one shell are
one candidate.

## The value that is not a number

A term over a value that is not a number finds no candidate, because the
value is not the same as itself. It is copied, and the copy is new, so a
term over the copy finds no candidate either. `Result` carries what this
argument needs: such a copy is new (`recent`), and no candidate is a term
over it (`apart`).

## What is proved

`factorizeAgainst_ok` — beside a stocked pool, factorization of a source
succeeds, keeps the invariant, and answers what the source is made into;
the answer is settled if the source is a candidate itself.
-/

namespace TermGraph

namespace Arena

variable {V : Type} {src : Term → Prop} {pick : String → Option Term}
  {w w' w₀ w₁ w₂ : Workspace V Pool} {s t q x p : Term}

/-! ## The invariant -/

/-- The pool holds what sharing needs. -/
structure Stocked (src : Term → Prop) (pick : String → Option Term) (w : Workspace V Pool) :
    Prop where
  wf : w.arena.WellFormed .documented
  sources : ∀ s, src s → w.arena.Holds .documented s
  below : ∀ s, src s → ∀ arg ∈ w.arena.argsOrNone s, src arg ∧ arg ∈ w.carried
  picked : ∀ r name type, src (.var r) → w.arena.namedVar? (.var r) = some (name, type) →
    pick name = some ((w.carried.find? (w.arena.isVarNamed name)).getD (.var r))
  held : ∀ p ∈ w.carried, w.arena.Holds .documented p
  origin : ∀ p ∈ w.carried, src p ∨ (∃ r, p = .compound r) ∧
    ∃ x, src x ∧ w.arena.Made src pick x p

/-- The second workspace has more nodes and more candidates. A term that is
not quiet was not there before, if a new candidate is a term over it. -/
structure Furthers (w w' : Workspace V Pool) : Prop where
  grows : w.arena.Grows w'.arena
  added : ∃ new : Pool, w'.carried = w.carried ++ new ∧
    ∀ c ∈ new, (∃ r, c = .compound r) ∧ w'.arena.Holds .documented c ∧
      ∀ r, .compound r ∈ w'.arena.argsOrNone c → ¬w'.arena.Quiet (.compound r) →
        w.arena.nodes.size ≤ r.id

/-- The term is the variable picked for its name, or the first candidate of
its shell. -/
def SettledAt (pick : String → Option Term) (w : Workspace V Pool) (x : Term) : Prop :=
  (∀ name type, w.arena.namedVar? x = some (name, type) → pick name = some x) ∧
    ∀ r f ts, x = .compound r → w.arena.shell? x = some (f, ts) → Term.sameAll ts ts = true →
      w.carried.find? (w.arena.hasShell f ts) = some x

/-- Everything under the term is settled. -/
def Settled (pick : String → Option Term) (w : Workspace V Pool) (q : Term) : Prop :=
  ∀ x, w.arena.Under q x → SettledAt pick w x

/-- What a run that started in `w₀` makes of a term. -/
structure Result (src : Term → Prop) (pick : String → Option Term) (w₀ : Workspace V Pool)
    (s q : Term) (w : Workspace V Pool) : Prop where
  made : w.arena.Made src pick s q
  held : w.arena.Holds .documented q
  recent : ∀ r, q = .compound r → ¬w.arena.Quiet q → w₀.arena.nodes.size ≤ r.id
  apart : ∀ r, q = .compound r → ¬w.arena.Quiet q → ∀ p ∈ w.carried, q ∉ w.arena.argsOrNone p

/-! ## Going on -/

theorem Furthers.refl (w : Workspace V Pool) : Furthers w w :=
  ⟨.refl _, #[], (Array.append_empty).symm, fun _ hc => by simp at hc⟩

theorem Furthers.trans (wf : w₁.arena.WellFormed .documented) (h : Furthers w w₁)
    (k : Furthers w₁ w₂) : Furthers w w₂ := by
  obtain ⟨new, hnew, hadded⟩ := h.added
  obtain ⟨new', hnew', hadded'⟩ := k.added
  refine ⟨h.grows.trans k.grows, new ++ new', ?_, fun c hc => ?_⟩
  · rw [hnew', hnew, Array.append_assoc]
  · have hext := k.grows.toExtends
    rcases Array.mem_append.mp hc with hc | hc
    · obtain ⟨hcompound, hheld, hargs⟩ := hadded c hc
      refine ⟨hcompound, hheld.extends hext, fun r hr hquiet => ?_⟩
      rw [hext.argsOrNone_frozen wf hheld] at hr
      refine hargs r hr fun hq => hquiet ?_
      exact (Quiet.frozen wf hext (wf.argsOrNone_sound _ hr).1).mpr hq
    · obtain ⟨hcompound, hheld, hargs⟩ := hadded' c hc
      exact ⟨hcompound, hheld, fun r hr hquiet =>
        Nat.le_trans h.grows.size_le (hargs r hr hquiet)⟩

theorem Furthers.mem (h : Furthers w w') (hp : p ∈ w.carried) : p ∈ w'.carried := by
  obtain ⟨new, hnew, -⟩ := h.added
  rw [hnew]
  exact Array.mem_append_left _ hp

/-- Nodes alone were added. -/
theorem Furthers.ofGrows (h : w.arena.Grows w'.arena) (hpool : w'.carried = w.carried) :
    Furthers w w' :=
  ⟨h, #[], by rw [hpool, Array.append_empty], fun _ hc => by simp at hc⟩

/-- Searching a pool twice for what does not change. -/
theorem find?_congr {pool : Pool} {f g : Term → Bool} (h : ∀ p ∈ pool, f p = g p) :
    pool.find? f = pool.find? g := by
  rw [← Array.find?_toList, ← Array.find?_toList]
  exact List.find?_congr fun p hp => h p (Array.mem_toList_iff.mp hp)

/-- The first candidate stays the first candidate. -/
theorem find?_append_of_eq {pool new : Pool} {f g : Term → Bool} (hfg : ∀ p ∈ pool, g p = f p)
    (hx : pool.find? f = some x) : (pool ++ new).find? g = some x := by
  rw [Array.find?_append, find?_congr hfg, hx, Option.some_or]

/-- What is settled stays settled, whatever is added. -/
theorem Settled.later (h : Stocked src pick w) (hgrows : w.arena.Grows w'.arena)
    (hpool : ∃ new : Pool, w'.carried = w.carried ++ new) (hq : w.arena.Holds .documented q)
    (hs : Settled pick w q) : Settled pick w' q := by
  obtain ⟨new, hnew⟩ := hpool
  intro x hx
  have hext := hgrows.toExtends
  rw [hext.under_frozen h.wf hq] at hx
  have hheld := h.wf.holds_under hq hx
  obtain ⟨hvar, hnode⟩ := hs x hx
  refine ⟨fun name type hname => ?_, fun r f ts hr hshell hsame => ?_⟩
  · rw [hext.namedVar?_frozen hheld] at hname
    exact hvar name type hname
  · rw [hext.shell?_frozen h.wf hheld] at hshell
    rw [hnew]
    exact find?_append_of_eq (fun p hp => hext.hasShell_frozen h.wf (h.held p hp) f ts)
      (hnode r f ts hr hshell hsame)

theorem Settled.furthers (h : Stocked src pick w) (hw : Furthers w w')
    (hq : w.arena.Holds .documented q) (hs : Settled pick w q) : Settled pick w' q := by
  obtain ⟨new, hnew, -⟩ := hw.added
  exact hs.later h hw.grows ⟨new, hnew⟩ hq

theorem Settled.ofLeaf (hl : x.isLeaf = true) : Settled pick w x := by
  intro y hy
  obtain rfl := hy.eq_of_argsOrNone (argsOrNone_of_isLeaf hl)
  cases y with
  | var _ | compound _ => cases hl
  | _ => exact ⟨fun _ _ h => (by cases h), fun _ _ _ h => (by cases h)⟩

/-- A term is settled when it is settled itself and its arguments are. -/
theorem Settled.ofArgs (hat : SettledAt pick w q)
    (hargs : ∀ arg ∈ w.arena.argsOrNone q, Settled pick w arg) : Settled pick w q := by
  intro x hx
  rcases hx.cases with rfl | ⟨arg, harg, hx⟩
  · exact hat
  · exact hargs arg harg x hx

theorem Result.furthers (h : Stocked src pick w) (hw : Furthers w w')
    (hq : Result src pick w₀ s q w) : Result src pick w₀ s q w' := by
  have hext := hw.grows.toExtends
  have hquiet : w'.arena.Quiet q ↔ w.arena.Quiet q := Quiet.frozen h.wf hext hq.held
  refine ⟨hq.made.grows h.wf hw.grows, hq.held.extends hext, fun r hr hn => ?_,
    fun r hr hn p hp hmem => ?_⟩
  · exact hq.recent r hr fun k => hn (hquiet.mpr k)
  · obtain ⟨new, hnew, hadded⟩ := hw.added
    rw [hnew] at hp
    rcases Array.mem_append.mp hp with hp | hp
    · rw [hext.argsOrNone_frozen h.wf (h.held p hp)] at hmem
      exact hq.apart r hr (fun k => hn (hquiet.mpr k)) p hp hmem
    · -- A new candidate over the term would make the term new.
      subst hr
      have hle := (hadded p hp).2.2 r hmem hn
      have hlt := (hq.held.place_lt (t := .compound r) rfl).2
      omega

/-- Nodes alone may be added. -/
theorem Stocked.grows (h : Stocked src pick w) (hw : w.arena.Grows w'.arena)
    (wf' : w'.arena.WellFormed .documented) (hpool : w'.carried = w.carried) :
    Stocked src pick w' := by
  have hext := hw.toExtends
  refine ⟨wf', fun s hs => (h.sources s hs).extends hext, fun s hs arg harg => ?_,
    fun r name type hr hname => ?_, fun p hp => ?_, fun p hp => ?_⟩
  · rw [hext.argsOrNone_frozen h.wf (h.sources s hs)] at harg
    rw [hpool]
    exact h.below s hs arg harg
  · rw [hext.namedVar?_frozen (h.sources _ hr)] at hname
    rw [hpool, h.picked r name type hr hname]
    rw [find?_congr fun p hp => (hext.isVarNamed_frozen (h.held p hp) name).symm]
  · rw [hpool] at hp
    exact (h.held p hp).extends hext
  · rw [hpool] at hp
    rcases h.origin p hp with hsrc | ⟨hcompound, x, hx, hmade⟩
    · exact .inl hsrc
    · exact .inr ⟨hcompound, x, hx, hmade.grows h.wf hw⟩

/-- A compound term that was made of a source may become a candidate. -/
theorem Stocked.push (h : Stocked src pick w) {r : Reference}
    (hc : w.arena.Holds .documented (.compound r)) (hx : src x)
    (hmade : w.arena.Made src pick x (.compound r)) :
    Stocked src pick ⟨w.arena, w.carried.push (.compound r)⟩ := by
  refine ⟨h.wf, h.sources, fun s hs arg harg => ?_, fun r' name type hr hname => ?_,
    fun p hp => ?_, fun p hp => ?_⟩
  · obtain ⟨hsrc, hmem⟩ := h.below s hs arg harg
    exact ⟨hsrc, Array.mem_push_of_mem _ hmem⟩
  · rw [Array.find?_push, h.picked r' name type hr hname]
    have hnot : w.arena.isVarNamed name (.compound r) = false := rfl
    rw [hnot, if_neg (by decide), Option.or_none]
  · rcases Array.mem_push.mp hp with hp | rfl
    · exact h.held p hp
    · exact hc
  · rcases Array.mem_push.mp hp with hp | rfl
    · exact h.origin p hp
    · exact .inr ⟨⟨r, rfl⟩, x, hx, hmade⟩

/-! ## One compound term -/

/-- What a term under documented use has for a shell: with arguments at
hand, or without, and then not the name of a control constant. -/
theorem WellFormed.control_ne {a : Arena V} (wf : a.WellFormed .documented) {r : Reference}
    {f : String} {c : Control} (h : a.shell? (.compound r) = some (f, [])) : c.name ≠ f := by
  obtain ⟨f', ts, signature, hf, hts, -, hshell⟩ := wf.shell (holds_of_shell? h)
  rw [shell?, hf, hts] at h
  cases h
  intro heq
  have hnone := hshell.ordinary rfl
  rw [← heq, Control.ofName?_name] at hnone
  cases hnone

/-- The pieces that a compound term is put together from: what its
arguments were made into. -/
def Pieces (src : Term → Prop) (pick : String → Option Term) (w₀ : Workspace V Pool)
    (old new : List Term) (w : Workspace V Pool) : Prop :=
  List.Forall₂ (fun s q => Result src pick w₀ s q w ∧ Settled pick w q) old new

namespace Pieces

variable {old new : List Term} {r : Reference} {f : String}

theorem furthers (h : Pieces src pick w₀ old new w) (hw : Stocked src pick w)
    (hww' : Furthers w w') : Pieces src pick w₀ old new w' :=
  h.imp fun _ _ hq => ⟨hq.1.furthers hw hww', hq.2.furthers hw hww' hq.1.held⟩

theorem made (h : Pieces src pick w₀ old new w) :
    List.Forall₂ (w.arena.Made src pick) old new :=
  h.imp fun _ _ hq => hq.1.made

theorem settled (h : Pieces src pick w₀ old new w) : ∀ q ∈ new, Settled pick w q := by
  intro q hq
  obtain ⟨s, -, -, hsettled⟩ := exists_of_forall₂ h hq
  exact hsettled

theorem held (h : Pieces src pick w₀ old new w) :
    ∀ q ∈ new, w.arena.Holds .documented q := by
  intro q hq
  obtain ⟨s, -, hresult, -⟩ := exists_of_forall₂ h hq
  exact hresult.held

/-- What is the same as the pieces is settled too: a node is a piece
itself, and a real has nothing to settle. -/
theorem settled_of_sameAll (h : Pieces src pick w₀ old new w) {qs : List Term}
    (hsame : Term.sameAll new qs = true) : ∀ q ∈ qs, Settled pick w q := by
  intro q hq
  obtain ⟨c, hc, hcq⟩ := exists_of_forall₂ (Term.sameAll_iff.mp hsame) hq
  rcases Term.same_cases hcq with rfl | ⟨y, z, -, rfl, -⟩
  · exact h.settled c hc
  · exact .ofLeaf rfl

/-- A term over what is the same as the pieces is quiet, if every node that
is a piece and an argument is. -/
theorem quiet (h : Pieces src pick w₀ old new w) (hw : Stocked src pick w)
    (hsame : Term.sameAll new (w.arena.argsOrNone (.compound r)) = true)
    (hnodes : ∀ s v, Result src pick w₀ s (.compound v) w →
      .compound v ∈ w.arena.argsOrNone (.compound r) → w.arena.Quiet (.compound v)) :
    w.arena.Quiet (.compound r) := by
  refine .ofArgs (Term.same_self _) fun arg harg => ?_
  obtain ⟨c, hc, hcarg⟩ := exists_of_forall₂ (Term.sameAll_iff.mp hsame) harg
  have hself := Term.same_self_of_same (Term.same_symm hcarg)
  rcases hw.wf.cases_holds (hw.wf.argsOrNone_sound arg harg).1 with
    ⟨v, name, type, rfl, -⟩ | ⟨v, g, ts, rfl, -⟩ | hl
  · exact .ofArgs hself fun _ hs => by cases hs
  · obtain rfl := Term.eq_of_same_of_ref (Term.same_symm hcarg) (r := v) rfl
    obtain ⟨s, -, hresult, -⟩ := exists_of_forall₂ h hc
    exact hnodes s v hresult harg
  · exact .ofLeaf hself hl

end Pieces

/-- A term with a shell is a compound node, or a control constant. -/
theorem shell?_cases {a : Arena V} {f : String} {ts : List Term} (h : a.shell? t = some (f, ts)) :
    (∃ r, t = .compound r) ∨ ∃ c, t = .control c ∧ c.name = f ∧ ts = [] := by
  cases t with
  | compound r => exact .inl ⟨r, rfl⟩
  | control c =>
    cases h
    exact .inr ⟨c, rfl, rfl, rfl⟩
  | _ => cases h

/-- A candidate was found for the term: it takes the place of the term. -/
theorem Pieces.shared {old new : List Term} {r : Reference} {f : String}
    (h : Pieces src pick w₀ old new w) (hw : Stocked src pick w) (hsrc : src (.compound r))
    (hshell : w.arena.shell? (.compound r) = some (f, old))
    (hfind : w.carried.find? (w.arena.hasShell f new) = some p) :
    Result src pick w₀ (.compound r) p w ∧ Settled pick w p := by
  have hp := Array.mem_of_find?_eq_some hfind
  have hheld := hw.held p hp
  obtain ⟨ps, hps, hsame⟩ := exists_shell? (Array.find?_some hfind)
  have hargs : w.arena.argsOrNone p = ps := argsOrNone_of_shell? hps
  obtain ⟨r', rfl⟩ : ∃ r', p = .compound r' := by
    rcases shell?_cases hps with hcompound | ⟨c, -, hname, rfl⟩
    · exact hcompound
    · cases Term.sameAll_iff.mp hsame
      cases h
      exact absurd hname (hw.wf.control_ne hshell)
  have hquiet : w.arena.Quiet (.compound r') := by
    apply h.quiet hw (hargs ▸ Term.sameAll_symm hsame)
    intro s v hresult harg
    -- A piece that is not quiet is no argument of a candidate.
    by_contra hnot
    exact hresult.apart v rfl hnot _ hp harg
  refine ⟨⟨?_, hheld, fun _ _ hnot => absurd hquiet hnot, fun _ _ hnot => absurd hquiet hnot⟩,
    .ofArgs ⟨fun _ _ hname => (by cases hname), ?_⟩ ?_⟩
  · rcases hw.origin _ hp with hsrc' | ⟨-, x, hx, hmade⟩
    · exact .ofShared hsrc hshell hps h.made (Term.sameAll_symm hsame) hquiet hsrc'
        fun hne => absurd rfl hne
    · exact .ofShared hsrc hshell hps h.made (Term.sameAll_symm hsame) hquiet hx fun _ => hmade
  · intro _ g ts _ hts _
    rw [hps] at hts
    cases hts
    rw [hasShell_congr _ _ hsame]
    exact hfind
  · intro arg harg
    rw [hargs] at harg
    exact h.settled_of_sameAll (Term.sameAll_symm hsame) arg harg

/-- No candidate was found, and the term is not copied: its arguments are
what they were made into. This happens to a term that is no candidate
itself. -/
theorem Pieces.kept {old new : List Term} {r : Reference} {f : String}
    (h : Pieces src pick w₀ old new w) (hw : Stocked src pick w) (hsrc : src (.compound r))
    (hshell : w.arena.shell? (.compound r) = some (f, old))
    (hold : ∀ s ∈ old, w₀.arena.Holds .documented s) (hsame : Term.sameAll new old = true)
    (hfind : w.carried.find? (w.arena.hasShell f new) = none) :
    Result src pick w₀ (.compound r) (.compound r) w ∧
      (∀ arg ∈ old, Settled pick w arg) ∧ .compound r ∉ w.carried := by
  have hargs : w.arena.argsOrNone (.compound r) = old :=
    argsOrNone_of_shell? hshell
  have hquiet : w.arena.Quiet (.compound r) := by
    apply h.quiet hw (hargs ▸ hsame)
    intro s v hresult harg
    -- A piece that is not quiet is new, and the argument is not.
    by_contra hnot
    have hle := hresult.recent v rfl hnot
    have hlt := ((hold _ (hargs ▸ harg)).place_lt (t := .compound v) rfl).2
    omega
  refine ⟨⟨?_, hw.sources _ hsrc, fun _ _ hnot => absurd hquiet hnot,
    fun _ _ hnot => absurd hquiet hnot⟩, h.settled_of_sameAll hsame, fun hmem => ?_⟩
  · exact .ofShared hsrc hshell hshell h.made hsame hquiet hsrc fun hne => absurd rfl hne
  · have hnot := Array.find?_eq_none.mp hfind _ hmem
    rw [hasShell_of_shell? hshell, beq_self_eq_true, Term.sameAll_symm hsame] at hnot
    exact hnot rfl

/-- A copy of a term over other arguments: it is new since `w₀`, and no
candidate is a term over it. -/
structure Copied (w₀ w : Workspace V Pool) (r r' : Reference) (f : String) (new : List Term) :
    Prop where
  held : w.arena.Holds .documented (.compound r')
  shell : w.arena.shell? (.compound r') = some (f, new)
  index : w.arena.index (.compound r') = .ok .unassigned
  content : w.arena.content? (.compound r') = w.arena.content? (.compound r)
  recent : w₀.arena.nodes.size ≤ r'.id
  apart : ∀ p ∈ w.carried, .compound r' ∉ w.arena.argsOrNone p

/-- No candidate was found, and the term was copied: the copy becomes a
candidate. -/
theorem Pieces.pushed {old new : List Term} {r r' : Reference} {f : String}
    (h : Pieces src pick w₀ old new w) (hw : Stocked src pick w) (hfurther : Furthers w₀ w)
    (hsrc : src (.compound r)) (hshell : w.arena.shell? (.compound r) = some (f, old))
    (hcopy : Copied w₀ w r r' f new)
    (hfind : w.carried.find? (w.arena.hasShell f new) = none) :
    let w' : Workspace V Pool := ⟨w.arena, w.carried.push (.compound r')⟩
    Stocked src pick w' ∧ Furthers w₀ w' ∧ Result src pick w₀ (.compound r) (.compound r') w' ∧
      Settled pick w' (.compound r') := by
  intro w'
  have hargs : w.arena.argsOrNone (.compound r') = new :=
    argsOrNone_of_shell? hcopy.shell
  have hmade : w.arena.Made src pick (.compound r) (.compound r') :=
    .ofCopied hsrc hshell hcopy.shell h.made hcopy.index hcopy.content
  refine ⟨hw.push hcopy.held hsrc hmade, ⟨hfurther.grows, ?_⟩,
    ⟨hmade, hcopy.held, fun _ heq _ => ?_, fun _ _ _ p hp hmem => ?_⟩,
    .ofArgs ⟨fun _ _ hname => (by cases hname), fun _ g ts _ hts hself => ?_⟩ fun arg harg => ?_⟩
  · obtain ⟨added, hadded, hall⟩ := hfurther.added
    refine ⟨added.push (.compound r'), ?_, fun c hc => ?_⟩
    · rw [show w'.carried = w.carried.push (.compound r') from rfl, hadded, Array.append_push]
    · rcases Array.mem_push.mp hc with hc | rfl
      · exact hall c hc
      · refine ⟨⟨r', rfl⟩, hcopy.held, fun v hv hnot => ?_⟩
        obtain ⟨s, -, hresult, -⟩ := exists_of_forall₂ h (hargs ▸ hv)
        exact hresult.recent v rfl hnot
  · cases heq
    exact hcopy.recent
  · rcases Array.mem_push.mp hp with hp | rfl
    · exact hcopy.apart p hp hmem
    · exact Nat.lt_irrefl _ (hw.wf.argsOrNone_sound _ hmem).2
  · rw [show w'.arena = w.arena from rfl, hcopy.shell] at hts
    cases hts
    show (w.carried.push (.compound r')).find? (w.arena.hasShell f new) = _
    rw [Array.find?_push, hfind, hasShell_of_shell? hcopy.shell, beq_self_eq_true, hself]
    rfl
  · refine (h.settled arg (hargs ▸ harg)).later hw (.refl _) ⟨#[.compound r'], ?_⟩
      (h.held arg (hargs ▸ harg))
    exact Array.push_eq_append

/-! ## The recursion -/

/-- What one run of factorization does, and what it answers. The last field
leaves one way open: a term that is no candidate may be answered as it is,
and then its shell has no candidate. -/
structure Factored (src : Term → Prop) (pick : String → Option Term) (w : Workspace V Pool)
    (s q : Term) (w' : Workspace V Pool) : Prop where
  stocked : Stocked src pick w'
  furthers : Furthers w w'
  result : Result src pick w s q w'
  below : ∀ arg ∈ w'.arena.argsOrNone q, Settled pick w' arg
  first : SettledAt pick w' q ∨ q = s ∧ s ∉ w'.carried ∧ (∃ r, s = .compound r) ∧
    ∀ f ts, w'.arena.shell? q = some (f, ts) → Term.sameAll ts ts = true →
      w'.carried.find? (w'.arena.hasShell f ts) = none

theorem Factored.settled (h : Factored src pick w s q w') (hs : s ∈ w.carried) :
    Settled pick w' q := by
  rcases h.first with hat | ⟨-, hnot, -⟩
  · exact .ofArgs hat h.below
  · exact absurd (h.furthers.mem hs) hnot

theorem Factored.ofSettled (hstocked : Stocked src pick w') (hfurther : Furthers w w')
    (h : Result src pick w s q w' ∧ Settled pick w' q) : Factored src pick w s q w' :=
  ⟨hstocked, hfurther, h.1, fun _ harg x hx => h.2 x (hx.arg harg), .inl (h.2 q (.refl _ q))⟩

/-- A term that is answered as it is, and is no compound node. -/
theorem Factored.same (hw : Stocked src pick w) (hq : w.arena.Holds .documented q)
    (hmade : w.arena.Made src pick s q) (hargs : w.arena.argsOrNone q = [])
    (hcompound : ∀ r, q ≠ .compound r)
    (hvar : ∀ name type, w.arena.namedVar? q = some (name, type) → pick name = some q) :
    Factored src pick w s q w := by
  refine .ofSettled hw (.refl w) ⟨⟨hmade, hq, fun r hr => absurd hr (hcompound r),
    fun r hr => absurd hr (hcompound r)⟩, .ofArgs ⟨hvar, fun r _ _ hr => ?_⟩ fun arg harg => ?_⟩
  · exact absurd hr (hcompound r)
  · rw [hargs] at harg
    cases harg

/-- A term over arguments that differ from its own is copied. -/
theorem rebuilt_ok {a : Arena V} (wf : a.WellFormed .documented) {r : Reference} {f : String}
    {old new : List Term} (hshell : a.shell? (.compound r) = some (f, old))
    (hlength : old.length = new.length) (held : ∀ q ∈ new, a.Holds .documented q)
    (hnot : Term.sameAll new old = false) :
    ∃ c b, rebuilt (.compound r) old new a = .ok c b ∧ NewCompound .documented a b c f new ∧
      b.content? c = a.content? (.compound r) := by
  have hne : new ≠ [] := by
    rintro rfl
    cases old with
    | nil => cases hnot
    | cons _ _ => cases hlength
  have hf : a.functor (.compound r) = .ok f := by
    obtain ⟨f', ts, signature, hf, hts, -⟩ := wf.shell (holds_of_shell? hshell)
    rw [shell?, hf, hts] at hshell
    cases hshell
    exact hf
  unfold rebuilt
  rw [if_neg (by rw [hnot]; decide)]
  exact withArguments_ok wf (holds_of_shell? hshell) hf (args_of_shell? hshell) hlength hne
    held

/-- A new compound term has the shell it was made with. -/
theorem NewCompound.shell?_eq {a b : Arena V} {c : Term} {f : String} {args : List Term}
    (h : NewCompound .documented a b c f args) : b.shell? c = some (f, args) := by
  rw [shell?, h.functor, h.args]

/-- The candidate for a term with a known shell. -/
theorem candidate?_eq {a : Arena V} {pool : Pool} {f : String} {ts : List Term}
    (h : a.shell? t = some (f, ts)) : a.candidate? pool t = pool.find? (a.hasShell f ts) := by
  rw [candidate?, h]

/-- A variable becomes the one picked for its name. -/
theorem Stocked.variable (hw : Stocked src pick w) {r : Reference} {name : String}
    {type : VarType} (hsrc : src (.var r))
    (hname : w.arena.namedVar? (.var r) = some (name, type)) :
    Factored src pick w (.var r) ((w.carried.find? (w.arena.isVarNamed name)).getD (.var r)) w := by
  have hpicked := hw.picked r name type hsrc hname
  obtain ⟨r', type', hq, hq', hsrc'⟩ : ∃ r' type',
      (w.carried.find? (w.arena.isVarNamed name)).getD (.var r) = .var r' ∧
        w.arena.namedVar? (.var r') = some (name, type') ∧ src (.var r') := by
    cases hfind : w.carried.find? (w.arena.isVarNamed name) with
    | none => exact ⟨r, type, rfl, hname, hsrc⟩
    | some p =>
      obtain ⟨type', hfound⟩ := exists_namedVar? (Array.find?_some hfind)
      cases p with
      | var r' =>
        refine ⟨r', type', rfl, hfound, ?_⟩
        rcases hw.origin _ (Array.mem_of_find?_eq_some hfind) with h | ⟨⟨_, h⟩, -⟩
        · exact h
        · cases h
      | _ => cases hfound
  rw [hq] at hpicked ⊢
  refine .same hw (hw.sources _ hsrc') (.var hname hq' hpicked hsrc hsrc') rfl
    (fun _ h => by cases h) fun name' type₂ hname' => ?_
  rw [hq'] at hname'
  cases hname'
  exact hpicked

/-- A term over pieces that differ from its arguments is copied, and the
run goes on. -/
theorem Pieces.copied {old new : List Term} {r : Reference} {f : String}
    (h : Pieces src pick w old new w₁) (hw₁ : Stocked src pick w₁) (hfurther₁ : Furthers w w₁)
    (hshell : w₁.arena.shell? (.compound r) = some (f, old))
    (hsame : Term.sameAll new old = false) :
    ∃ r' w₂, WorkM.onArena (rebuilt (.compound r) old new) w₁ = .ok (.compound r') w₂ ∧
      Stocked src pick w₂ ∧ Furthers w w₂ ∧ Pieces src pick w old new w₂ ∧
      w₂.arena.shell? (.compound r) = some (f, old) ∧ Copied w w₂ r r' f new := by
  obtain ⟨c, b, hok, hnew, hcontent⟩ := rebuilt_ok hw₁.wf hshell h.length_eq h.held hsame
  obtain rfl := hnew.handle
  let w₂ : Workspace V Pool := ⟨b, w₁.carried⟩
  have hfurther : Furthers w₁ w₂ := .ofGrows hnew.grows rfl
  refine ⟨_, w₂, ?_, hw₁.grows hnew.grows hnew.wf rfl, hfurther₁.trans hw₁.wf hfurther,
    h.furthers hw₁ hfurther, hnew.grows.shell?_eq hshell, hnew.holds, hnew.shell?_eq, hnew.index,
    ?_, hfurther₁.grows.size_le, fun p hp hmem => ?_⟩
  · rw [WorkM.onArena, hok]
  · exact hcontent.trans
      (hnew.grows.content?_eq (holds_of_shell? hshell)).symm
  · -- The arguments of old candidates are old.
    rw [show w₂.arena = b from rfl, hnew.grows.argsOrNone_frozen hw₁.wf (hw₁.held p hp)] at hmem
    exact Nat.lt_irrefl _ ((hw₁.wf.argsOrNone_sound _ hmem).1.place_lt rfl).2

/-- A compound term is put together from its pieces, and the result is
looked up. -/
theorem Pieces.factored {old new : List Term} {r : Reference} {f : String}
    (h : Pieces src pick w old new w₁) (hw₁ : Stocked src pick w₁) (hfurther₁ : Furthers w w₁)
    (hsrc : src (.compound r)) (hshell : w₁.arena.shell? (.compound r) = some (f, old))
    (hold : ∀ s ∈ old, w.arena.Holds .documented s) :
    Ensures (do
        let candidate ← WorkM.onArena (rebuilt (.compound r) old new)
        let w ← get
        match w.arena.candidate? w.carried candidate with
        | some shared => return shared
        | none =>
          unless Term.sameAll new old do
            WorkM.carry (·.push candidate)
          return candidate)
      w₁ (fun q w' => Factored src pick w (.compound r) q w') (fun _ => False) := by
  cases hsame : Term.sameAll new old with
  | true =>
    refine Ensures.bind_ok (x := .compound r) (y := w₁) ?_ ?_
    · rw [rebuilt, if_pos hsame]
      rfl
    refine Ensures.bind_ok (y := w₁) (x := w₁) rfl ?_
    rw [candidate?_eq hshell, ← hasShell_congr w₁.arena f hsame]
    cases hfind : w₁.carried.find? (w₁.arena.hasShell f new) with
    | some p =>
      exact Ensures.answer (.ofSettled hw₁ hfurther₁ (h.shared hw₁ hsrc hshell hfind))
    | none =>
      obtain ⟨hresult, hbelow, hnot⟩ := h.kept hw₁ hsrc hshell hold hsame hfind
      refine Ensures.answer ⟨hw₁, hfurther₁, hresult, ?_, .inr ⟨rfl, hnot, ⟨r, rfl⟩, ?_⟩⟩
      · rw [argsOrNone_of_shell? hshell]
        exact hbelow
      · intro g ts hts _
        rw [hshell] at hts
        cases hts
        rw [← hasShell_congr w₁.arena f hsame]
        exact hfind
  | false =>
    obtain ⟨r', w₂, hok, hw₂, hfurther₂, h₂, hshell₂, hcopy⟩ :=
      h.copied hw₁ hfurther₁ hshell hsame
    apply Ensures.bind_ok hok
    refine Ensures.bind_ok (y := w₂) (x := w₂) rfl ?_
    rw [candidate?_eq hcopy.shell]
    cases hfind : w₂.carried.find? (w₂.arena.hasShell f new) with
    | some p =>
      exact Ensures.answer (.ofSettled hw₂ hfurther₂ (h₂.shared hw₂ hsrc hshell₂ hfind))
    | none =>
      obtain ⟨hstocked, hfurther', hboth⟩ := h₂.pushed hw₂ hfurther₂ hsrc hshell₂ hcopy hfind
      exact Ensures.of_ok rfl (.ofSettled hstocked hfurther' hboth)

/-- THE EFFECT OF FACTORIZATION beside a stocked pool, on a source. -/
theorem factorizeAgainst_ok (s : Term) :
    ∀ {w : Workspace V Pool}, Stocked src pick w → src s →
      Ensures (factorizeAgainst s) w (fun q w' => Factored src pick w s q w') (fun _ => False) := by
  induction s using Term.byHeight with
  | step s ih =>
    intro w hw hsrc
    rw [factorizeAgainst_eq]
    rcases hw.wf.cases_holds (hw.sources s hsrc) with
      ⟨r, name, type, rfl, hname⟩ | ⟨r, f, old, rfl, hshell⟩ | hl
    · refine Ensures.bind_ok (y := w) (x := w) rfl ?_
      rw [hname]
      exact Ensures.answer (hw.variable hsrc hname)
    · have hargs : w.arena.args (.compound r) = .ok old := args_of_shell? hshell
      have hbelow := hw.below _ hsrc
      rw [argsOrNone_eq hargs] at hbelow
      have hlower := hw.wf.args_sound hargs
      apply Ensures.bind_ok (WorkM.look_of_ok (f := (·.args (.compound r))) hargs)
      refine Ensures.bind (Ensures.mapM (I := fun w' => Stocked src pick w' ∧ Furthers w w')
        (G := Furthers)
        (R := fun s q w' => Result src pick w s q w' ∧ Settled pick w' q) Furthers.refl
        (fun hinv h k => h.trans hinv.1.wf k)
        (fun hinv _ h hq => ⟨hq.1.furthers hinv.1 h, hq.2.furthers hinv.1 h hq.1.held⟩) old ?_ w
        ⟨hw, .refl w⟩) ?_
      · intro s hs w₁ hend
        obtain ⟨hw₁, hfurther₁⟩ := hend
        rw [if_pos (hlower s hs).2]
        refine (ih s (hlower s hs).2 hw₁ (hbelow s hs).1).mono ?_ fun _ h => h
        intro q w₂ hq
        have hsettled := hq.settled (hfurther₁.mem (hbelow s hs).2)
        refine ⟨⟨hq.stocked, hfurther₁.trans hw₁.wf hq.furthers⟩, hq.furthers,
          { hq.result with recent := fun v hv hnot => ?_ }, hsettled⟩
        exact Nat.le_trans hfurther₁.grows.size_le (hq.result.recent v hv hnot)
      · intro new w₁ hend
        obtain ⟨⟨hw₁, hfurther₁⟩, -, hpieces⟩ := hend
        exact Pieces.factored hpieces hw₁ hfurther₁ hsrc (hfurther₁.grows.shell?_eq hshell)
          fun s hs => (hlower s hs).1
    · have hanswer : Factored src pick w s s w :=
        .same hw (hw.sources s hsrc) (.leaf hl) (argsOrNone_of_isLeaf hl)
          (fun r hr => by subst hr; cases hl) fun name type hname => by
            cases s with
            | var _ => cases hl
            | _ => cases hname
      cases s with
      | var _ | compound _ => cases hl
      | _ => exact Ensures.answer hanswer

end Arena

end TermGraph
