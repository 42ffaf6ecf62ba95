import TermGraph.Proofs.Factorization

/-!
# Fixed points — what factorization leaves alone

A term is CANONICAL when it is shared already, as far as it can be: under
it one name is one variable, one shell is one handle, and no argument is a
value that is not a number. Factorization answers a canonical term as it
is and builds nothing; and it does so with no other term.

One direction is a walk. Every candidate is under the term, so whatever is
found for a sub-term is the sub-term itself; the root, which is not in the
pool, is looked for as well, and can only be found as itself. The other
direction reads off what factorization is proved to do. That the answer is
shared says nothing of values that are not numbers, and there the age of
the answer decides: a term over such a value is always copied, and a copy
is new.

So one condition alone stands between a factorized term and a fixed point.
Where the answer has proper arguments, a second factorization changes
nothing.
-/

namespace TermGraph

namespace Arena

variable {V : Type} {a b c : Arena V} {t r s x y : Term}

/-! ## Canonical terms -/

/-- No compound term under the term has an argument that is not a
number. -/
def ProperArguments (a : Arena V) (t : Term) : Prop :=
  ∀ x f xs p, a.Under t x → a.shell? x = some (f, xs) → .real p ∈ xs → p.isNaN = false

/-- Under the term one name is one variable, and one shell is one handle;
and its arguments are proper. -/
structure Canonical (a : Arena V) (t : Term) : Prop where
  name_unique : ∀ x y, a.Under t x → a.Under t y → a.SameName x y → x = y
  shell_unique : ∀ x y f xs ys, a.Under t x → a.Under t y → a.shell? x = some (f, xs) →
    a.shell? y = some (f, ys) → Term.sameAll xs ys = true → x = y
  proper : a.ProperArguments t

/-- The second arena has no more nodes than the first, and no more argument
storage. -/
structure BuildsNothing (a b : Arena V) : Prop where
  nodes : b.nodes = a.nodes
  operands : b.operands = a.operands

/-- Whether a term is canonical depends on what is under it, and on names
and shells there. -/
theorem Canonical.congr (hunder : ∀ x, b.Under t x ↔ a.Under t x)
    (hname : ∀ x, a.Under t x → b.namedVar? x = a.namedVar? x)
    (hshell : ∀ x, a.Under t x → b.shell? x = a.shell? x) (h : a.Canonical t) :
    b.Canonical t := by
  refine ⟨fun x y hx hy hxy => ?_, fun x y f xs ys hx hy hxs hys hsame => ?_,
    fun x f xs p hx hxs hp => ?_⟩
  · rw [hunder] at hx hy
    rw [SameName, hname x hx, hname y hy] at hxy
    exact h.name_unique x y hx hy hxy
  · rw [hunder] at hx hy
    rw [hshell x hx] at hxs
    rw [hshell y hy] at hys
    exact h.shell_unique x y f xs ys hx hy hxs hys hsame
  · rw [hunder] at hx
    rw [hshell x hx] at hxs
    exact h.proper x f xs p hx hxs hp

/-- A term is canonical in an extension exactly if it was before. -/
theorem Extends.canonical_frozen (wf : a.WellFormed .documented) (hab : a.Extends b)
    (ht : a.Holds .documented t) : b.Canonical t ↔ a.Canonical t := by
  have hunder : ∀ x, b.Under t x ↔ a.Under t x := fun x => hab.under_frozen wf ht
  have hheld : ∀ x, a.Under t x → a.Holds .documented x := fun x hx => wf.holds_under ht hx
  constructor
  · refine Canonical.congr (fun x => (hunder x).symm) (fun x hx => ?_) fun x hx => ?_
    · exact (hab.namedVar?_frozen (hheld x ((hunder x).mp hx))).symm
    · exact (hab.shell?_frozen wf (hheld x ((hunder x).mp hx))).symm
  · exact Canonical.congr hunder (fun x hx => hab.namedVar?_frozen (hheld x hx))
      fun x hx => hab.shell?_frozen wf (hheld x hx)

/-! ## A canonical term is left alone -/

/-- Proper arguments are the same as themselves. -/
theorem ProperArguments.sameAll_self (h : a.ProperArguments t) (hx : a.Under t x) {f : String}
    {xs : List Term} (hxs : a.shell? x = some (f, xs)) : Term.sameAll xs xs = true := by
  refine Term.sameAll_iff.mpr (List.forall₂_same.mpr fun s hs => ?_)
  rw [Term.same_self]
  cases s with
  | real p => simp only [h x f xs p hx hxs hs, Bool.not_false]
  | _ => rfl

/-- A variable is the only candidate of its name under a canonical term. -/
theorem Canonical.find_var (h : a.Canonical t) {pool : Pool} (hpool : ∀ p ∈ pool, a.Under t p)
    {name : String} {type : VarType} (hx : a.Under t x)
    (hname : a.namedVar? x = some (name, type)) :
    (pool.find? (a.isVarNamed name)).getD x = x := by
  cases hfind : pool.find? (a.isVarNamed name) with
  | none => rfl
  | some p =>
    obtain ⟨type', hp⟩ := exists_namedVar? (Array.find?_some hfind)
    have hunder := hpool p (Array.mem_of_find?_eq_some hfind)
    exact h.name_unique p x hunder hx ⟨name, type', type, hp, hname⟩

/-- A compound term is the only candidate of its shell under a canonical
term. -/
theorem Canonical.candidate_eq (h : a.Canonical t) {pool : Pool}
    (hpool : ∀ p ∈ pool, a.Under t p) {f : String} {xs : List Term} (hx : a.Under t x)
    (hshell : a.shell? x = some (f, xs)) {p : Term} (hp : a.candidate? pool x = some p) :
    p = x := by
  rw [candidate?_eq hshell] at hp
  obtain ⟨ps, hps, hsame⟩ := exists_shell? (Array.find?_some hp)
  have hunder := hpool p (Array.mem_of_find?_eq_some hp)
  exact h.shell_unique p x f ps xs hunder hx hps hshell hsame

/-- Beside candidates from under a canonical term, every sub-term of it is
answered as it is, and nothing changes. -/
theorem Canonical.factorizeAgainst_eq {w : Workspace V Pool} (h : w.arena.Canonical t)
    (wf : w.arena.WellFormed .documented) (ht : w.arena.Holds .documented t)
    (hpool : ∀ p ∈ w.carried, w.arena.Under t p) (s : Term) (hs : w.arena.Under t s) :
    Ensures (factorizeAgainst s) w (fun q w' => q = s ∧ w' = w) (fun _ => False) := by
  induction s using Term.byHeight with
  | step s ih =>
    rw [Arena.factorizeAgainst_eq]
    rcases wf.cases_holds (wf.holds_under ht hs) with
      ⟨v, name, type, rfl, hname⟩ | ⟨v, f, old, rfl, hshell⟩ | hl
    · refine Ensures.bind_ok (y := w) (x := w) rfl ?_
      rw [hname]
      exact Ensures.answer ⟨h.find_var hpool hs hname, rfl⟩
    · have hargs : w.arena.args (.compound v) = .ok old := args_of_shell? hshell
      have hself := h.proper.sameAll_self hs hshell
      apply Ensures.bind_ok (WorkM.look_of_ok (f := (·.args (.compound v))) hargs)
      refine Ensures.bind (Ensures.mapM (I := (· = w)) (G := fun _ _ => True)
        (R := fun s q _ => s = q) (fun _ => trivial) (fun _ _ _ => trivial)
        (fun _ _ _ heq => heq) old ?_ w rfl) ?_
      · intro arg harg w' hw
        subst hw
        rw [if_pos (wf.args_sound hargs arg harg).2]
        refine (ih arg (wf.args_sound hargs arg harg).2 (hs.trans (.ofShell hshell harg))).mono
          ?_ fun _ hbad => hbad
        rintro q w' ⟨rfl, hw'⟩
        exact ⟨hw', trivial, rfl⟩
      · rintro new w' ⟨rfl, -, hsame⟩
        obtain rfl : old = new := by rwa [List.forall₂_eq_eq_eq] at hsame
        refine Ensures.bind_ok (x := .compound v) (y := w') ?_ ?_
        · rw [rebuilt, if_pos hself]
          rfl
        refine Ensures.bind_ok (y := w') (x := w') rfl ?_
        cases hfind : w'.arena.candidate? w'.carried (.compound v) with
        | some p => exact Ensures.answer ⟨h.candidate_eq hpool hs hshell hfind, rfl⟩
        | none =>
          rw [hself]
          exact Ensures.answer ⟨rfl, rfl⟩
    · cases s with
      | var _ | compound _ => cases hl
      | _ => exact Ensures.answer ⟨rfl, rfl⟩

/-- A canonical term is answered as it is, and nothing is built. -/
theorem Canonical.factorize_ok (h : a.Canonical t) (wf : a.WellFormed .documented)
    (ht : a.Holds .documented t) :
    Ensures (factorize t) a (fun r b => r = t ∧ a.BuildsNothing b) (fun _ => False) := by
  apply Ensures.bind (collect_ok wf ht)
  rintro pool b ⟨wfb, hb, rfl⟩
  have hext := hb.toExtends
  have hpool : ∀ p ∈ ((a.argsOrNone t).flatMap a.listing).toArray, b.Under t p := by
    intro p hp
    rw [hext.under_frozen wf ht, wf.under_iff ht, wf.listing_eq]
    exact List.mem_append_left _ (List.mem_toArray.mp hp)
  refine Ensures.bind (Ensures.beside (P := fun x c => x.1 = t ∧ c = b) ?_) ?_
  · refine (Canonical.factorizeAgainst_eq (w := ⟨b, _⟩)
      ((hext.canonical_frozen wf ht).mpr h) wfb (hb.holds_iff.mpr ht) hpool t (.refl b t)).mono
      ?_ fun _ hbad => hbad
    rintro q w ⟨rfl, rfl⟩
    exact ⟨rfl, rfl⟩
  · rintro ⟨r, pool⟩ c ⟨rfl, rfl⟩
    refine Ensures.answer ⟨rfl, ?_⟩
    rw [hb.tables]
    exact ⟨rfl, rfl⟩

/-! ## What is left alone is canonical -/

/-- An answer of factorization is what factorization makes of the term. -/
theorem Factorized.of_answer (wf : a.WellFormed .documented) (ht : a.Holds .documented t)
    (h : factorize t a = .ok r c) : Factorized a t r c :=
  (Arena.factorize_ok wf ht).of_answer h

/-- The result of factorization is canonical if its arguments are proper. -/
theorem Factorized.canonical (h : Factorized a t r c) (hproper : c.ProperArguments r) :
    c.Canonical r :=
  ⟨h.name_unique, h.shell_unique, hproper⟩

/-- What is quiet has proper arguments. -/
theorem Quiet.properArguments (h : a.Quiet t) : a.ProperArguments t := by
  intro x f xs p hx hxs hp
  have hself := h (.real p) (hx.trans (.ofShell hxs hp))
  simpa only [Term.same_self, Bool.not_eq_true'] using hself

/-- A leaf or a variable has no arguments that could be improper. -/
theorem properArguments_of_argsOrNone (h : a.argsOrNone t = []) : a.ProperArguments t := by
  intro x f xs p hx hxs hp
  rw [hx.eq_of_argsOrNone h] at hxs
  rw [← argsOrNone_of_shell? hxs, h] at hp
  cases hp

/-- A term that factorization answers as it is, is canonical. -/
theorem Factorized.canonical_of_eq (h : Factorized a t t c) (wf : a.WellFormed .documented)
    (ht : a.Holds .documented t) : a.Canonical t := by
  refine (h.ext.canonical_frozen wf ht).mp (h.canonical ?_)
  rcases h.wf.cases_holds h.held with ⟨v, -, -, rfl, -⟩ | ⟨v, -, -, rfl, -⟩ | hl
  · exact properArguments_of_argsOrNone rfl
  · exact (h.old_quiet v rfl (ht.place_lt rfl).2).properArguments
  · exact properArguments_of_argsOrNone (argsOrNone_of_isLeaf hl)

end Arena

/-- THE FIXED POINTS OF FACTORIZATION. On every term of every copy that a
host can reach it succeeds; it answers the term itself and builds nothing
exactly if the term is canonical; and what it answers is a fixed point in
turn, if its arguments are proper. -/
theorem Session.Reachable.factorize_fixed_iff {V : Type} {s : Session V}
    (hs : s.Reachable .documented) {c : Copy V} (hc : c ∈ s.copies) {t : Term} (ht : c.Owns t) :
    ∃ r b, Arena.factorize t c.arena = .ok r b ∧
      (r = t ∧ c.arena.BuildsNothing b ↔ c.arena.Canonical t) ∧
      (b.ProperArguments r →
        ∃ d, Arena.factorize r b = .ok r d ∧ b.BuildsNothing d) := by
  have wf := (hs.inOrder c hc).1
  have hheld := (hs.inOrder c hc).holds ht
  have hfactorized := Arena.factorize_ok wf hheld
  obtain ⟨r, b, hok, h⟩ := hfactorized.exists_ok
  refine ⟨r, b, hok, ⟨?_, fun hcanonical => ?_⟩, fun hproper => ?_⟩
  · rintro ⟨rfl, -⟩
    exact h.canonical_of_eq wf hheld
  · exact (hcanonical.factorize_ok wf hheld).of_answer hok
  · obtain ⟨q, d, hagain, rfl, hnothing⟩ :=
      ((h.canonical hproper).factorize_ok h.wf h.held).exists_ok
    exact ⟨d, hagain, hnothing⟩

/-- A term that is not canonical, and what it is factorized into. -/
theorem Session.factorize_fixed_sample :
    ¬Copy.sample.arena.Canonical Term.sample ∧
      ∃ r b d, Arena.factorize Term.sample Copy.sample.arena = .ok r b ∧
        Arena.factorize r b = .ok r d ∧ b.BuildsNothing d := by
  obtain ⟨r, b, hok, hfixed, hagain⟩ :=
    Session.Reachable.factorize_fixed_iff reachable_sample (List.mem_singleton_self _)
      Copy.sample_owns
  have hrun : (match Arena.factorize Term.sample Copy.sample.arena with
      | .ok r b => r != Term.sample && (b.listing r).all fun v => v.same v
      | .error _ _ => false) = true := by decide +kernel
  simp only [hok, Bool.and_eq_true, bne_iff_ne, List.all_eq_true] at hrun
  obtain ⟨hne, hself⟩ := hrun
  have horder := reachable_sample.inOrder _ (List.mem_singleton_self _)
  have h := Arena.Factorized.of_answer horder.1 (horder.holds Copy.sample_owns) hok
  have hquiet : b.Quiet r := fun v hv =>
    hself v ((h.wf.under_iff h.held).mp hv)
  obtain ⟨d, hd⟩ := hagain hquiet.properArguments
  exact ⟨fun hcanonical => hne (hfixed.mpr hcanonical).1, r, b, d, hok, hd⟩

end TermGraph
