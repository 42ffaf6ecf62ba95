import TermGraph.Arena.Print
import TermGraph.Proofs.Closures
import TermGraph.Proofs.Comparisons
import TermGraph.Proofs.Postorder

/-!
# Mapping — when the mapper is called, and on what

A mapping hands the compound terms of a tree to a function of the host, the
MAPPER, and puts what it answers in their places. The mapper may build, keep
a record, and fail; it may answer a term of another kind or arity. So what
the mapper is given at one place depends on what it answered below, and not
on the tree alone.

What happens is a list of VISITS: calls of the mapper, each with the
workspaces before and after. Between one visit and the next the mapping may
add a node, and does nothing else; that is `Visits`. What a visit is given is
a compound term with the functor of the term at its place, over what the
visits below answered (`Receives`). A failing visit is the last one, and its
error is the error of the mapping (`Stops`).

The mapper works through operations on a copy of the arena, and may rely on
what it has made before; `UsesOperations` says so. Between two visits the
mapping reads arguments and copies a term over others, which are operations
on the same copy; so what the mapper relies on is still there at the next
visit.

## What is proved

`UsesOperations.visit` — one visit. `UsesOperations.mapsAt` — the induction
over the tree. `Session.Reachable.mapping_visits` — on any term that a host
can reach, one visit for each position of a compound term, in post-order.
-/

namespace TermGraph

/-! ## Later copies -/

namespace Copy

variable {V : Type} {c d e : Copy V} {t : Term} {u : Use}

theorem Owns.admits (h : c.Owns t) : c.Admits u t := by
  intro _
  rcases h with hinline | ⟨hissued, -⟩
  · exact .inl hinline
  · exact .inr (.inl hissued)

/-- What is admitted and held is a term of the copy. -/
theorem owns_of_admits (h : c.Admits .documented t) (ht : c.arena.Holds .documented t) :
    c.Owns t := by
  have hown : ¬c.arena.IsForeign t := by
    rintro ⟨r, hr, hne⟩
    exact hne (ht.place_lt hr).1
  rcases h rfl with hinline | hissued | hforeign
  · exact .inl hinline
  · exact .inr ⟨hissued, hown⟩
  · exact absurd hforeign hown

/-- The second copy is what has become of the first one. -/
structure Since (c d : Copy V) : Prop extends c.Precedes .documented d where
  ext : c.arena.Extends d.arena

theorem Since.refl (hc : c.InOrder .documented) : c.Since c := ⟨.refl hc, .refl _⟩

theorem Since.trans (h : c.Since d) (k : d.Since e) : c.Since e :=
  ⟨h.toPrecedes.trans k.toPrecedes, h.ext.trans k.ext⟩

/-- Terms of a copy stay terms of it. -/
theorem Since.owns (h : c.Since d) (hc : c.InOrder .documented) (ht : c.Owns t) : d.Owns t :=
  owns_of_admits (h.admits t ht.admits) ((hc.holds ht).extends h.ext)

theorem Runs.since {s s' : NameSupply} (h : c.Runs .documented s d s')
    (hc : c.InOrder .documented) : c.Since d :=
  ⟨h.precedes hc, h.extends hc⟩

end Copy

/-! ## Visits -/

namespace Mapping

open Arena

variable {V σ : Type}

/-- A call of the mapper that answers: the position it is for, what it is
given and in which workspace, what it answers and in which workspace. -/
structure Visit (V σ : Type) where
  place : List Nat
  given : Term
  before : Workspace V σ
  answer : Term
  after : Workspace V σ

/-- The visits lead from the first workspace to the second one. Between two
of them nodes may be added, and nothing else happens. -/
inductive Visits (mapper : Term → WorkM V σ Term) :
    Workspace V σ → List (Visit V σ) → Workspace V σ → Prop
  | none (w : Workspace V σ) : Visits mapper w [] w
  | next {w w' : Workspace V σ} {v : Visit V σ} {log : List (Visit V σ)}
    (grown : w.arena.Grows v.before.arena) (carried : v.before.carried = w.carried)
    (answered : mapper v.given v.before = .ok v.answer v.after)
    (rest : Visits mapper v.after log w') : Visits mapper w (v :: log) w'

/-- What stands in the place of `x` after the visits: what was answered
there, if `x` is compound, and `x` otherwise. -/
def Became (log : List (Visit V σ)) (place : List Nat) (x y : Term) : Prop :=
  if x.isCompound then ∃ v ∈ log, v.place = place ∧ v.answer = y else y = x

/-- The term `s` of the arena `b` is what the visit at a position of `root`
has to be given: the functor of the term that stands there, over what its
arguments became. -/
def Receives (a : Arena V) (root : Term) (log : List (Visit V σ)) (place : List Nat)
    (b : Arena V) (s : Term) : Prop :=
  ∃ x f old new, a.at? root place = some x ∧ a.shell? x = some (f, old) ∧
    b.shell? s = some (f, new) ∧
    List.Forall₂ (fun arg y => Became log (place ++ [arg.2]) arg.1 y) old.zipIdx new

/-- The mapper is called for the positions, in this order, and answers each
time. -/
structure Completes (a : Arena V) (root : Term) (mapper : Term → WorkM V σ Term)
    (places : List (List Nat)) (w : Workspace V σ) (log : List (Visit V σ)) (w' : Workspace V σ) :
    Prop where
  visits : Visits mapper w log w'
  places : log.map Visit.place = places
  receives : ∀ v ∈ log, Receives a root log v.place v.before.arena v.given

/-- The mapper is called for the first of the positions, answers, and then
fails: with this error, and in this workspace. -/
def Stops (a : Arena V) (root : Term) (mapper : Term → WorkM V σ Term)
    (places : List (List Nat)) (w : Workspace V σ) (e : TermError) (w' : Workspace V σ) : Prop :=
  ∃ done place rest log w₁ w₂ s, places = done ++ place :: rest ∧
    Completes a root mapper done w log w₁ ∧ w₁.arena.Grows w₂.arena ∧ w₂.carried = w₁.carried ∧
    Receives a root log place w₂.arena s ∧ mapper s w₂ = .error e w'

/-- What the last visit answered, and the term itself if there was none. -/
def lastAnswer (log : List (Visit V σ)) (t : Term) : Term :=
  (log.getLast?.map Visit.answer).getD t

variable {a b : Arena V} {root s t x y : Term} {mapper : Term → WorkM V σ Term}
  {places places' : List (List Nat)} {place : List Nat} {w w₁ w₂ w' : Workspace V σ}
  {log log' : List (Visit V σ)} {e : TermError}

theorem Visits.append (h : Visits mapper w log w₁) (k : Visits mapper w₁ log' w₂) :
    Visits mapper w (log ++ log') w₂ := by
  induction h with
  | none w => exact k
  | next grown carried answered _ ih => exact .next grown carried answered (ih k)

/-- Further visits change nothing of what was answered. -/
theorem Became.mono (h : Became log place x y) (hsub : log ⊆ log') : Became log' place x y := by
  unfold Became at h ⊢
  split
  · next hcompound =>
    rw [if_pos hcompound] at h
    obtain ⟨v, hv, hplace, hanswer⟩ := h
    exact ⟨v, hsub hv, hplace, hanswer⟩
  · next hcompound =>
    rw [if_neg hcompound] at h
    exact h

theorem Receives.mono (h : Receives a root log place b s) (hsub : log ⊆ log') :
    Receives a root log' place b s := by
  obtain ⟨x, f, old, new, hx, hold, hnew, hall⟩ := h
  exact ⟨x, f, old, new, hx, hold, hnew, hall.imp fun _ _ hbecame => hbecame.mono hsub⟩

/-- What came back as the same term is the very handle. -/
theorem Became.eq_of_same (h : Became log place x y) (hsame : y.same x = true) : y = x := by
  unfold Became at h
  split at h
  · next hcompound =>
    rcases Term.same_cases hsame with heq | ⟨p, q, -, rfl, -⟩
    · exact heq
    · cases hcompound
  · exact h

theorem Completes.none (a : Arena V) (root : Term) (mapper : Term → WorkM V σ Term)
    (w : Workspace V σ) : Completes a root mapper [] w [] w :=
  ⟨.none w, rfl, fun _ hv => by cases hv⟩

/-- Visits after visits. -/
theorem Completes.append (h : Completes a root mapper places w log w₁)
    (k : Completes a root mapper places' w₁ log' w₂) :
    Completes a root mapper (places ++ places') w (log ++ log') w₂ := by
  constructor
  · exact h.visits.append k.visits
  · rw [List.map_append, h.places, k.places]
  · intro v hv
    rcases List.mem_append.mp hv with hv | hv
    · exact (h.receives v hv).mono (List.subset_append_left log log')
    · exact (k.receives v hv).mono (List.subset_append_right log log')

/-- A failure among the first positions is one among all. -/
theorem Stops.left (h : Stops a root mapper places w e w') :
    Stops a root mapper (places ++ places') w e w' := by
  obtain ⟨done, place, rest, log, w₁, w₂, s, rfl, hrest⟩ := h
  exact ⟨done, place, rest ++ places', log, w₁, w₂, s, by rw [List.append_assoc]; rfl, hrest⟩

/-- A failure after visits that were answered. -/
theorem Stops.right (h : Completes a root mapper places w log w₁)
    (k : Stops a root mapper places' w₁ e w') : Stops a root mapper (places ++ places') w e w' := by
  obtain ⟨done, place, rest, log', w₂, w₃, s, rfl, hdone, hgrown, hcarried, hreceives, hfail⟩ := k
  exact ⟨places ++ done, place, rest, log ++ log', w₂, w₃, s, (List.append_assoc ..).symm,
    h.append hdone, hgrown, hcarried, hreceives.mono (List.subset_append_right log log'), hfail⟩

/-- One more visit. -/
theorem Completes.snoc (h : Completes a root mapper places w log w₁) {v : Visit V σ}
    (grown : w₁.arena.Grows v.before.arena) (carried : v.before.carried = w₁.carried)
    (answered : mapper v.given v.before = .ok v.answer v.after)
    (receives : Receives a root log v.place v.before.arena v.given) :
    Completes a root mapper (places ++ [v.place]) w (log ++ [v]) v.after := by
  constructor
  · exact h.visits.append (.next grown carried answered (.none v.after))
  · rw [List.map_append, h.places]
    rfl
  · intro v' hv'
    rcases List.mem_append.mp hv' with hv' | hv'
    · exact (h.receives v' hv').mono (List.subset_append_left log [v])
    · rw [List.mem_singleton.mp hv']
      exact receives.mono (List.subset_append_left log [v])

theorem lastAnswer_snoc (log : List (Visit V σ)) (v : Visit V σ) (t : Term) :
    lastAnswer (log ++ [v]) t = v.answer := by
  rw [lastAnswer, List.getLast?_concat]
  rfl

end Mapping

/-! ## The induction over the tree -/

open Arena Mapping

variable {V σ : Type} {supply : σ → NameSupply} {good : Copy V → σ → Prop}
  {mapper : Term → WorkM V σ Term} {a : Arena V} {d e : Copy V} {z : σ} {root t : Term}
  {place : List Nat} {f : String} {old new : List Term}

/-- On a copy and a record that it can rely on, the mapper runs operations
and answers a term of the copy, or fails; and whatever else is done on the
copy between two calls, it can rely on it at the next one. -/
structure UsesOperations (supply : σ → NameSupply) (good : Copy V → σ → Prop)
    (mapper : Term → WorkM V σ Term) : Prop where
  call : ∀ (d : Copy V) z q, d.InOrder .documented → good d z → d.Owns q →
    Ensures (mapper q) ⟨d.arena, z⟩
      (fun r w => ∃ e : Copy V, e.arena = w.arena ∧
        d.Runs .documented (supply z) e (supply w.carried) ∧ e.Owns r ∧ good e w.carried)
      (fun _ => True)
  kept : ∀ (d : Copy V) z e, d.InOrder .documented → good d z →
    d.Runs .documented (supply z) e (supply z) → good e z

/-- The workspace is that of a later copy, on which the mapper can rely. -/
structure Reached (good : Copy V → σ → Prop) (d : Copy V) (w : Workspace V σ) (e : Copy V) :
    Prop where
  since : d.Since e
  arena : e.arena = w.arena
  good : good e w.carried

/-- A compound term over other arguments, or the term itself where these are
the arguments it has. -/
theorem Arena.rebuilt_shell (wf : a.WellFormed .documented) (ht : a.Holds .documented t)
    (hshell : a.shell? t = some (f, old)) (hlength : old.length = new.length)
    (hheld : ∀ s ∈ new, a.Holds .documented s)
    (hsame : Term.sameAll new old = true → new = old) :
    ∃ q b, rebuilt t old new a = .ok q b ∧ b.Holds .documented q ∧ a.Grows b ∧
      b.shell? q = some (f, new) := by
  cases h : Term.sameAll new old with
  | true =>
    obtain rfl := hsame h
    refine ⟨t, a, ?_, ht, .refl a, hshell⟩
    rw [rebuilt, if_pos h]
    rfl
  | false =>
    rcases shell?_cases hshell with ⟨r, rfl⟩ | ⟨control, rfl, -, rfl⟩
    · obtain ⟨q, b, hok, hnew, -⟩ := rebuilt_ok wf hshell hlength hheld h
      exact ⟨q, b, hok, hnew.holds, hnew.grows, hnew.shell?_eq⟩
    · rw [List.eq_nil_of_length_eq_zero hlength.symm] at h
      cases h

namespace UsesOperations

/-- Reading the arguments hands them out. -/
theorem arguments (h : UsesOperations supply good mapper) (hd : d.InOrder .documented)
    (hgood : good d z) (ht : d.Owns t) (hargs : d.arena.args t = .ok old) :
    ∃ e, d.Since e ∧ e.arena = d.arena ∧ good e z ∧ ∀ s ∈ old, e.Owns s := by
  have hrun : RunsTo .documented supply d z (WorkM.look (·.args t)) _ := .args ht.admits
  obtain ⟨e, he, hruns, hadmits⟩ :=
    hrun.of_answer (WorkM.look_of_ok (w := ⟨d.arena, z⟩) hargs)
  refine ⟨e, hruns.since hd, he, h.kept d z e hd hgood hruns, fun s hs => ?_⟩
  apply Copy.owns_of_admits (hadmits s hs)
  rw [he]
  exact (hd.1.args_sound hargs s hs).1

/-- Copying a term over what its arguments became. -/
theorem rebuilt (h : UsesOperations supply good mapper) (hd : d.InOrder .documented)
    (hgood : good d z) (ht : d.Owns t) (hshell : d.arena.shell? t = some (f, old))
    (hlength : old.length = new.length) (hnew : ∀ s ∈ new, d.Owns s)
    (hsame : Term.sameAll new old = true → new = old) :
    ∃ q e, WorkM.onArena (Arena.rebuilt t old new) ⟨d.arena, z⟩ = .ok q ⟨e.arena, z⟩ ∧
      d.Since e ∧ good e z ∧ d.arena.Grows e.arena ∧ e.Owns q ∧
      e.arena.shell? q = some (f, new) := by
  obtain ⟨q, b, hok, hq, hgrows, hshell'⟩ := rebuilt_shell hd.1 (hd.holds ht) hshell hlength
    (fun s hs => hd.holds (hnew s hs)) hsame
  have hrun : RunsTo .documented supply d z (WorkM.onArena (Arena.rebuilt t old new)) _ :=
    .rebuilt ht.admits old fun s hs => (hnew s hs).admits
  have hanswer : WorkM.onArena (Arena.rebuilt t old new) ⟨d.arena, z⟩ = .ok q ⟨b, z⟩ := by
    rw [WorkM.onArena, hok]
  obtain ⟨e, rfl, hruns, hadmits⟩ := hrun.of_answer hanswer
  exact ⟨q, e, hanswer, hruns.since hd, h.kept d z e hd hgood hruns, hgrows,
    Copy.owns_of_admits (hadmits q (List.mem_singleton_self q)) hq, hshell'⟩

end UsesOperations

/-- The computation, wherever it is started, maps the term `x`, which stands
at a position of `root`: it makes the visits for the compound terms under
`x`, and answers what became of `x`. -/
def MapsAt (good : Copy V → σ → Prop) (a : Arena V) (root : Term) (mapper : Term → WorkM V σ Term)
    (place : List Nat) (x : Term) (m : WorkM V σ Term) : Prop :=
  ∀ (d : Copy V) (z : σ), d.InOrder .documented → good d z → d.Owns x → a.Extends d.arena →
    Concludes m ⟨d.arena, z⟩
      (fun q w => ∃ log e, Reached good d w e ∧ e.Owns q ∧
        Completes a root mapper (a.placesAt place x) ⟨d.arena, z⟩ log w ∧
        Became log place x q ∧ q = lastAnswer log x)
      (Stops a root mapper (a.placesAt place x) ⟨d.arena, z⟩)

/-- The arguments of a term are mapped one after another. -/
theorem MapsAt.args {recur : Term → WorkM V σ Term} (xs : List Term) {k : Nat}
    (h : ∀ arg ∈ xs.zipIdx k, MapsAt good a root mapper (place ++ [arg.2]) arg.1 (recur arg.1)) :
    ∀ (d : Copy V) (z : σ), d.InOrder .documented → good d z → (∀ x ∈ xs, d.Owns x) →
      a.Extends d.arena →
      Concludes (xs.mapM recur) ⟨d.arena, z⟩
        (fun ys w => ∃ log e, Reached good d w e ∧ (∀ y ∈ ys, e.Owns y) ∧
          Completes a root mapper (a.placesIn place (xs.zipIdx k)) ⟨d.arena, z⟩ log w ∧
          List.Forall₂ (fun arg y => Became log (place ++ [arg.2]) arg.1 y) (xs.zipIdx k) ys)
        (Stops a root mapper (a.placesIn place (xs.zipIdx k)) ⟨d.arena, z⟩) := by
  induction xs generalizing k with
  | nil =>
    intro d z hd hgood _ _
    exact .of_ok rfl ⟨[], d, ⟨.refl hd, rfl, hgood⟩, fun _ hy => (by cases hy), .none .., .nil⟩
  | cons x xs ih =>
    intro d z hd hgood howns hext
    rw [List.zipIdx_cons] at h ⊢
    obtain ⟨hhead, htail⟩ := List.forall_mem_cons.mp h
    obtain ⟨hx, hxs⟩ := List.forall_mem_cons.mp howns
    rw [List.mapM_cons]
    refine Concludes.bind (hhead d z hd hgood hx hext) (fun _ _ hstop => hstop.left) ?_
    rintro q ⟨b, z₁⟩ ⟨log, d₁, ⟨hsince, rfl, hgood₁⟩, hq, hvisits, hbecame, -⟩
    have howns₁ : ∀ y ∈ xs, d₁.Owns y := fun y hy => hsince.owns hd (hxs y hy)
    refine Concludes.bind (ih htail d₁ z₁ hsince.inOrder hgood₁ howns₁ (hext.trans hsince.ext))
      (fun _ _ hstop => hstop.right hvisits) ?_
    rintro qs ⟨b, z₂⟩ ⟨log', d₂, ⟨hsince', rfl, hgood₂⟩, hqs, hvisits', hall⟩
    have hreached : Reached good d ⟨d₂.arena, z₂⟩ d₂ := ⟨hsince.trans hsince', rfl, hgood₂⟩
    have howned : ∀ y ∈ q :: qs, d₂.Owns y :=
      List.forall_mem_cons.mpr ⟨hsince'.owns hsince.inOrder hq, hqs⟩
    refine .of_ok rfl ⟨log ++ log', d₂, hreached, howned, hvisits.append hvisits', .cons ?_ ?_⟩
    · exact hbecame.mono (List.subset_append_left log log')
    · exact hall.imp fun _ _ h => h.mono (List.subset_append_right log log')

/-- Arguments that came back the same are the very handles. -/
theorem eq_of_became {log : List (Visit V σ)} {k : Nat}
    (h : List.Forall₂ (fun arg y => Became log (place ++ [arg.2]) arg.1 y) (old.zipIdx k) new)
    (hsame : Term.sameAll new old = true) : new = old := by
  induction old generalizing k new with
  | nil =>
    cases h
    rfl
  | cons x old ih =>
    rw [List.zipIdx_cons] at h
    obtain ⟨q, qs, hq, hqs, rfl⟩ := List.forall₂_cons_left_iff.mp h
    obtain ⟨hhead, htail⟩ := List.forall₂_cons.mp (Term.sameAll_iff.mp hsame)
    rw [hq.eq_of_same hhead, ih hqs (Term.sameAll_iff.mpr htail)]

/-- A term that is not compound is answered as it is, without a visit. -/
theorem MapsAt.ofNotCompound (wf : a.WellFormed .documented) (h : t.isCompound = false) :
    MapsAt good a root mapper place t (pure t) := by
  intro d z hd hgood howns _
  have hnone : a.placesAt place t = [] := by
    rw [placesAt, wf.compoundPlaces_of_not_compound h]
    rfl
  rw [hnone]
  refine .of_ok rfl ⟨[], d, ⟨.refl hd, rfl, hgood⟩, howns, .none .., ?_, rfl⟩
  rw [Became, h]
  rfl

/-- ONE VISIT, after those for the arguments: the mapper is given the term
over what the arguments became, and decides how the mapping of the term
ends. -/
theorem UsesOperations.visit (h : UsesOperations supply good mapper) {places : List (List Nat)}
    {w : Workspace V σ} {log : List (Visit V σ)} (hd : d.InOrder .documented) (hgood : good d z)
    (howns : d.Owns t) (hext : a.Extends d.arena) (hplace : a.at? root place = some t)
    (hshell : a.shell? t = some (f, old)) (hnew : ∀ s ∈ new, d.Owns s)
    (hvisits : Completes a root mapper places w log ⟨d.arena, z⟩)
    (hall : List.Forall₂ (fun arg y => Became log (place ++ [arg.2]) arg.1 y) old.zipIdx new) :
    Concludes (WorkM.onArena (Arena.rebuilt t old new) >>= mapper) ⟨d.arena, z⟩
      (fun r w' => ∃ log' e, Reached good d w' e ∧ e.Owns r ∧
        Completes a root mapper (places ++ [place]) w log' w' ∧
        Became log' place t r ∧ r = lastAnswer log' t)
      (Stops a root mapper (places ++ [place]) w) := by
  have hlength : old.length = new.length := by
    rw [← hall.length_eq, List.length_zipIdx]
  obtain ⟨q, e, hrebuilt, hsince, hgood', hgrows, hq, hshell'⟩ :=
    h.rebuilt hd hgood howns (hext.shell?_eq hshell) hlength hnew (eq_of_became hall)
  have hreceives : Receives a root log place e.arena q :=
    ⟨t, f, old, new, hplace, hshell, hshell', hall⟩
  apply Concludes.bind_ok hrebuilt
  have hcall := h.call e z q hsince.inOrder hgood' hq
  cases hresult : mapper q ⟨e.arena, z⟩ with
  | ok r w' =>
    obtain ⟨e', harena, hruns, hr, hgood''⟩ := hcall.of_answer hresult
    let v : Visit V σ := ⟨place, q, ⟨e.arena, z⟩, r, w'⟩
    have hreached : Reached good d w' e' :=
      ⟨hsince.trans (hruns.since hsince.inOrder), harena, hgood''⟩
    have hcompletes := hvisits.snoc (v := v) hgrows rfl hresult hreceives
    have hbecame : Became (log ++ [v]) place t r := by
      rw [Became, if_pos (isCompound_of_shell? hshell)]
      exact ⟨v, List.mem_append_right log (List.mem_singleton_self v), rfl, rfl⟩
    have hlast := lastAnswer_snoc log v t
    exact .of_ok hresult ⟨log ++ [v], e', hreached, hr, hcompletes, hbecame, hlast.symm⟩
  | error err w' =>
    exact .of_error hresult ⟨places, place, [], log, ⟨d.arena, z⟩, ⟨e.arena, z⟩, q, rfl,
      hvisits, hgrows, rfl, hreceives, hresult⟩

/-- THE VISITS OF A MAPPING, by induction over the tree as it was before. -/
theorem UsesOperations.mapsAt (h : UsesOperations supply good mapper)
    (wf : a.WellFormed .documented) (t : Term) :
    ∀ {place : List Nat}, a.Holds .documented t → a.at? root place = some t →
      MapsAt good a root mapper place t (mapCompounds mapper t) := by
  induction t using Term.byHeight with
  | step t ih =>
    intro place ht hplace
    rw [mapCompounds_eq, mapCompoundsStep]
    cases hcompound : t.isCompound with
    | false => exact .ofNotCompound wf hcompound
    | true =>
      intro d z hd hgood howns hext
      obtain ⟨f, old, hshell⟩ := wf.exists_shell? ht hcompound
      have hargs := args_of_shell? (hext.shell?_eq hshell)
      obtain ⟨d₁, hsince₁, harena, hgood₁, howns₁⟩ := h.arguments hd hgood howns hargs
      rw [if_pos rfl, wf.placesAt_eq place hcompound, argsOrNone_of_shell? hshell]
      apply Concludes.bind_ok (WorkM.look_of_ok (f := (·.args t)) hargs)
      rw [← harena]
      have hrecur : ∀ arg ∈ old.zipIdx, MapsAt good a root mapper (place ++ [arg.2]) arg.1
          (if arg.1.height < t.height then mapCompounds mapper arg.1
            else throw (.foreignTerm arg.1)) := by
        intro arg harg
        have hget := List.mem_zipIdx_iff_getElem?.mp harg
        obtain ⟨hheld, hlt⟩ :=
          wf.args_sound (args_of_shell? hshell) arg.1 (List.mem_of_getElem? hget)
        rw [if_pos hlt]
        apply ih arg.1 hlt hheld
        rw [at?_append, hplace]
        show (a.argsOrNone t)[arg.2]?.bind _ = _
        rw [argsOrNone_of_shell? hshell, hget]
        rfl
      refine Concludes.bind (MapsAt.args old hrecur d₁ z hsince₁.inOrder hgood₁ howns₁
        (hext.trans hsince₁.ext)) (fun _ _ hstop => hstop.left) ?_
      rintro new ⟨b, z₂⟩ ⟨log, d₂, ⟨hsince₂, rfl, hgood₂⟩, hnew, hvisits, hall⟩
      have hsince := hsince₁.trans hsince₂
      refine (h.visit hsince.inOrder hgood₂ (hsince.owns hd howns) (hext.trans hsince.ext) hplace
        hshell hnew hvisits hall).mono ?_ fun _ _ hstop => hstop
      rintro r w ⟨log', e, ⟨hsince', harena', hgood'⟩, hr⟩
      exact ⟨log', e, ⟨hsince.trans hsince', harena', hgood'⟩, hr⟩

/-- A MAPPING VISITS EVERY COMPOUND TERM, in post-order. Take any term of any
copy that a host can reach, and any mapper that works through operations. The
mapper is called for the positions of the compound terms, each once; every
call is given a compound term with the functor of the term there, over what
the calls below answered; and what the last one answers is the answer, or the
term itself if there is none. If a call fails, it is the last one, and there
is no other failure. -/
theorem Session.Reachable.mapping_visits {s : Session V} (hs : s.Reachable .documented)
    {c : Copy V} (hc : c ∈ s.copies) (ht : c.Owns t) (hmapper : UsesOperations supply good mapper)
    {x : σ} (hgood : good c x) :
    c.arena.InPostorder t (c.arena.compoundPlaces t) ∧
      Concludes (Arena.mapCompounds mapper t) ⟨c.arena, x⟩
        (fun q w => ∃ log,
          Completes c.arena t mapper (c.arena.compoundPlaces t) ⟨c.arena, x⟩ log w ∧
            q = lastAnswer log t)
        (Stops c.arena t mapper (c.arena.compoundPlaces t) ⟨c.arena, x⟩) := by
  have hc := hs.inOrder c hc
  have hmaps : MapsAt good c.arena t mapper [] t (Arena.mapCompounds mapper t) :=
    hmapper.mapsAt hc.1 t (hc.holds ht) rfl
  have hend := hmaps c x hc hgood ht (.refl _)
  rw [placesAt_nil] at hend
  refine ⟨hc.1.inPostorder_iff.mpr rfl, hend.mono ?_ fun _ _ h => h⟩
  intro q w hend
  obtain ⟨log, e, -, -, hvisits, -, hlast⟩ := hend
  exact ⟨log, hvisits, hlast⟩

/-- A mapper that notes what it is given notes the visits, and nothing
else. -/
theorem Mapping.Visits.noted (notes : σ → List Term) {w w' : Workspace V σ}
    {log : List (Visit V σ)} (h : Visits mapper w log w')
    (hmapper : ∀ q w r w', mapper q w = .ok r w' → notes w'.carried = notes w.carried ++ [q]) :
    notes w'.carried = notes w.carried ++ log.map Visit.given := by
  induction h with
  | none w => rw [List.map_nil, List.append_nil]
  | next _ carried answered _ ih =>
    rw [ih, hmapper _ _ _ _ answered, carried, List.map_cons, List.append_assoc]
    rfl

/-- A mapper that notes what it is given and answers a term over it. -/
def wrapNoting (q : Term) : WorkM Scalar (List Term) Term := do
  WorkM.carry (· ++ [q])
  WorkM.onArena (Arena.compound "k" [q])

theorem usesOperations_wrapNoting :
    UsesOperations (fun _ => {}) (fun _ _ => True) wrapNoting where
  call d z q hd _ hq := by
    refine Ensures.bind_ok (x := ()) (y := ⟨d.arena, z ++ [q]⟩) rfl ?_
    have hrun : RunsTo .documented (fun _ => {}) d (z ++ [q])
        (WorkM.onArena (Arena.compound "k" [q])) ([·]) :=
      .operation (.compound "k" [q]) (List.forall_mem_singleton.mpr hq.admits) (fun _ => rfl) rfl
    have hheld : ∀ s ∈ [q], d.arena.Holds .documented s :=
      List.forall_mem_singleton.mpr (hd.holds hq)
    obtain ⟨r, b, hok, hnew, -⟩ :=
      compound_ok hd.1 (f := "k") (by decide) (List.cons_ne_nil q []) hheld
    have hanswer : WorkM.onArena (Arena.compound "k" [q]) ⟨d.arena, z ++ [q]⟩ =
        .ok r ⟨b, z ++ [q]⟩ := by
      rw [WorkM.onArena, hok]
    obtain ⟨e, rfl, hruns, hadmits⟩ := hrun.of_answer hanswer
    have howns := Copy.owns_of_admits (hadmits r (List.mem_singleton_self r)) hnew.holds
    exact .of_ok hanswer ⟨e, rfl, hruns, howns, trivial⟩
  kept _ _ _ _ _ _ := trivial

theorem wrapNoting_notes {q r : Term} {w w' : Workspace Scalar (List Term)}
    (h : wrapNoting q w = .ok r w') : w'.carried = w.carried ++ [q] := by
  have hcarry : WorkM.carry (· ++ [q]) w = .ok () ⟨w.arena, w.carried ++ [q]⟩ := rfl
  rw [wrapNoting, bind_of_ok hcarry, WorkM.onArena] at h
  split at h
  · cases h
    rfl
  · cases h

/-- `f(g(X, 0.0), g(X, -0.0))`: three visits, and the third one is given what
the first two answered. -/
theorem Session.mapping_visits_sample :
    ∃ q w log, Arena.mapCompounds wrapNoting Term.sample ⟨Copy.sample.arena, []⟩ = .ok q w ∧
      Completes Copy.sample.arena Term.sample wrapNoting [[0], [1], []] ⟨Copy.sample.arena, []⟩
        log w ∧
      w.carried = log.map Visit.given ∧
      w.arena.text? q = some "k(f(k(g(X, 0.0)), k(g(X, -0.0))))" := by
  have hplaces : Copy.sample.arena.compoundPlaces Term.sample = [[0], [1], []] := by
    decide +kernel
  have hrun : (match Arena.mapCompounds wrapNoting Term.sample ⟨Copy.sample.arena, []⟩ with
      | .ok q w => w.arena.text? q
      | .error _ _ => none) = some "k(f(k(g(X, 0.0)), k(g(X, -0.0))))" := by decide +kernel
  obtain ⟨-, hend⟩ := Session.Reachable.mapping_visits reachable_sample
    (List.mem_singleton_self _) Copy.sample_owns usesOperations_wrapNoting (x := []) trivial
  rw [hplaces] at hend
  split at hrun
  · next q w hok =>
    rw [Concludes, hok] at hend
    obtain ⟨log, hvisits, -⟩ := hend
    refine ⟨q, w, log, hok, hvisits, ?_, hrun⟩
    exact hvisits.visits.noted (fun notes => notes) fun _ _ _ _ => wrapNoting_notes
  · cases hrun

end TermGraph
