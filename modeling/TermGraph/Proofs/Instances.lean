import TermGraph.Arena.Print
import TermGraph.Proofs.Rebuilding

/-!
# Instances — a substitution is simultaneous

`InstanceOf` says position by position what stands in a term after a frame
was put in. It leaves three questions open: what is below the place of a
variable, which compound terms are new, and what the rest of the arena looks
like. `Instantiated` answers the first two, and growth of the arena the
third.

That the values are not substituted into in turn is the first question. A
value stands where the variable stood, and below it is what is below the
value; it is read in the arena BEFORE the substitution, where nothing had
been put into it. A value may hold variables that the same frame binds.

Every node that was built stands somewhere in the answer, and not below a
value, because what is below a value is old. So it stands in the place of a
compound term, and it has the functor and the content of that term.

## What is proved

`Session.Reachable.substitute_instantiates` — on any term and any frame of
terms that a host can reach.
-/

namespace TermGraph

namespace Arena

variable {V : Type} {a b : Arena V} {frame : List Term} {t q v x y value : Term}

/-- The second term is the first one with the frame put in, all at once. The
term and the frame are read in `a`, and the answer in `b`. -/
structure Instantiated (a : Arena V) (frame : List Term) (t : Term) (b : Arena V) (q : Term) :
    Prop extends a.InstanceOf frame t b q where
  /-- A value is not substituted into. -/
  value : ∀ above below v value, a.at? t above = some v → a.BindsTo frame v value →
    b.at? q (above ++ below) = a.at? value below
  /-- A compound term that is not kept has no index. -/
  unindexed : ∀ path x y, a.at? t path = some x → x.isCompound = true →
    b.at? q path = some y → y ≠ x → b.index y = .ok .unassigned
  /-- Every node that was built stands in the place of a compound term. -/
  built : ∀ place, a.nodes.size ≤ place → place < b.nodes.size →
    ∃ path x, a.at? t path = some x ∧ x.isCompound = true ∧
      b.at? q path = some (.compound ⟨b.id, place⟩)

/-- A value that a frame binds stands in the frame. -/
theorem BindsTo.mem (h : a.BindsTo frame v value) : value ∈ frame := by
  obtain ⟨place, -, hvalue⟩ := h.placed
  exact List.mem_of_getElem? hvalue

/-- Below the place of a variable is what is below the value. -/
theorem InstanceOf.at?_value (h : a.InstanceOf frame t b q) (wf : a.WellFormed .documented)
    (hab : a.Extends b) (hframe : ∀ x ∈ frame, a.Holds .documented x) {above : List Nat}
    (hv : a.at? t above = some v) (hbound : a.BindsTo frame v value) (below : List Nat) :
    b.at? q (above ++ below) = a.at? value below := by
  obtain ⟨y, hy, hfills⟩ := h.places above v hv
  rw [at?_append, hy, hfills.bound value hbound]
  exact hab.at?_frozen wf (hframe value hbound.mem) below

/-- Where a compound term is not kept, what stands in its place has no
index. -/
theorem Substituted.index_of_ne {put : Term → Term} (h : b.Substituted put x y)
    (hx : x.isCompound = true) (hne : y ≠ x) : b.index y = .ok .unassigned := by
  cases h with
  | leaf _ => exact absurd rfl hne
  | var _ => cases hx
  | node _ _ _ _ made =>
    rcases made with rfl | ⟨hindex, -⟩
    · exact absurd rfl hne
    · exact hindex

/-- A node that was not there before stands in the place of a compound
term. -/
theorem InstanceOf.exists_compound (h : a.InstanceOf frame t b q) (wf : a.WellFormed .documented)
    (hab : a.Extends b) (ht : a.Holds .documented t)
    (hframe : ∀ x ∈ frame, a.Holds .documented x) {r : Reference} (hnew : a.nodes.size ≤ r.id)
    (hr : b.Under q (.compound r)) :
    ∃ path x, a.at? t path = some x ∧ x.isCompound = true ∧
      b.at? q path = some (.compound r) := by
  have hnot : ¬a.Holds .documented (.compound r) := by
    intro hheld
    exact absurd (hheld.place_lt (t := .compound r) rfl).2 (Nat.not_lt.mpr hnew)
  obtain ⟨path, hpath⟩ := hr
  rcases h.below path _ hpath with ⟨x, hx⟩ | ⟨above, below, v, value, rfl, hv, hbound⟩
  · refine ⟨path, x, hx, ?_, hpath⟩
    obtain ⟨y, hy, hfills⟩ := h.places path x hx
    obtain rfl : .compound r = y := Option.some.inj (hpath.symm.trans hy)
    have hheld := wf.holds_under ht ⟨path, hx⟩
    -- Anything but a compound term became something that was there before.
    cases x with
    | compound _ => rfl
    | var v =>
      by_cases hbound : ∃ value, a.BindsTo frame (.var v) value
      · obtain ⟨value, hbound⟩ := hbound
        rw [hfills.bound value hbound] at hnot
        exact absurd (hframe value hbound.mem) hnot
      · rw [hfills.unbound rfl fun value hvalue => hbound ⟨value, hvalue⟩] at hnot
        exact absurd hheld hnot
    | _ => cases hfills.leaf rfl
  · rw [h.at?_value wf hab hframe hv hbound] at hpath
    exact absurd (wf.holds_under (hframe value hbound.mem) ⟨below, hpath⟩) hnot

/-- THE EFFECT OF SUBSTITUTION on a term and a frame that the arena holds. -/
theorem substitute_instantiated (wf : a.WellFormed .documented) (ht : a.Holds .documented t)
    (hframe : ∀ x ∈ frame, a.Holds .documented x) :
    Ensures (substitute t frame) a (fun q b => a.Grows b ∧ a.Instantiated frame t b q)
      (fun _ => False) := by
  have hfill : ∀ r, a.Under t (.var r) → a.Holds .documented (a.fill frame (.var r)) := by
    intro r hr
    exact (wf.holds_under ht hr).fill hframe
  have heffect := substitute_ok wf hframe t ht wf (.refl a)
  have hbuilt := substitute_rebuilds wf t ht hfill wf (.refl a)
  refine (heffect.and hbuilt).mono ?_ fun _ h => h.1
  intro q b hend
  obtain ⟨⟨-, hab, -, hq⟩, hrebuilds⟩ := hend
  have hinstance := hq.instanceOf wf ht hab
  refine ⟨hab, { hinstance with value := ?_, unindexed := ?_, built := ?_ }⟩
  · intro above below v value hv hbound
    exact hinstance.at?_value wf hab.toExtends hframe hv hbound below
  · intro path x y hx hcompound hy hne
    rw [← hab.at?_frozen wf ht] at hx
    obtain ⟨y', hy', hxy⟩ := hq.at? hx
    obtain rfl : y' = y := Option.some.inj (hy'.symm.trans hy)
    exact hxy.index_of_ne hcompound hne
  · intro place hle hlt
    exact hinstance.exists_compound wf hab.toExtends ht hframe hle (hrebuilds.built place hle hlt)

/-- Where every named variable becomes a term without named variables, none
is left. -/
theorem Instantiated.ground (h : a.Instantiated frame t b q)
    (hground : ∀ v, a.Under t v → v.isNamedVar = true → ∃ value, a.BindsTo frame v value ∧
      ∀ x, a.Under value x → x.isNamedVar = false) :
    ∀ y, b.Under q y → y.isNamedVar = false := by
  intro y hy
  obtain ⟨path, hpath⟩ := hy
  rcases h.below path y hpath with ⟨x, hx⟩ | ⟨above, below, v, value, rfl, hv, hbound⟩
  · obtain ⟨y', hy', hfills⟩ := h.places path x hx
    obtain rfl : y' = y := Option.some.inj (hy'.symm.trans hpath)
    cases x with
    | var r =>
      obtain ⟨value, hbound, hvalue⟩ := hground _ ⟨path, hx⟩ rfl
      rw [hfills.bound value hbound]
      exact hvalue value (.refl a value)
    | compound _ =>
      have hcompound := (hfills.compound rfl).1
      cases y' with
      | var _ => cases hcompound
      | _ => rfl
    | _ =>
      rw [hfills.leaf rfl]
      rfl
  · obtain ⟨value', hbound', hvalue⟩ := hground v ⟨above, hv⟩ hbound.named
    rw [h.value above below v value' hv hbound'] at hpath
    exact hvalue y ⟨below, hpath⟩

end Arena

/-- SUBSTITUTION IS SIMULTANEOUS. On every term and every frame of terms of
every copy that a host can reach it succeeds. The answer is the term with the
frame put in, all at once; nodes that were there keep index and content; and
if the frame binds every named variable of the term to a term without named
variables, the answer has none. -/
theorem Session.Reachable.substitute_instantiates {V : Type} {s : Session V}
    (hs : s.Reachable .documented) {c : Copy V} (hc : c ∈ s.copies) {t : Term} (ht : c.Owns t)
    {frame : List Term} (hframe : ∀ x ∈ frame, c.Owns x) :
    ∃ q b, Arena.substitute t frame c.arena = .ok q b ∧ c.arena.Grows b ∧
      c.arena.Instantiated frame t b q ∧
      ((∀ v, c.arena.Under t v → v.isNamedVar = true →
          ∃ value, c.arena.BindsTo frame v value ∧
            ∀ x, c.arena.Under value x → x.isNamedVar = false) →
        ∀ y, b.Under q y → y.isNamedVar = false) := by
  have horder := hs.inOrder c hc
  have hheld : ∀ x ∈ frame, c.arena.Holds .documented x := fun x hx => horder.holds (hframe x hx)
  obtain ⟨q, b, hok, hgrows, h⟩ :=
    (Arena.substitute_instantiated horder.1 (horder.holds ht) hheld).exists_ok
  exact ⟨q, b, hok, hgrows, h, h.ground⟩

/-- The variable `X` of `f(g(X, 0.0), g(X, 0.0))` becomes `g(X, 0.0)`, in
which the same frame binds `X`; or it becomes a number. -/
theorem Session.substitute_instantiates_sample :
    (∃ q b, Arena.substitute Term.goal [.compound ⟨⟨0⟩, 2⟩] Copy.goal.arena = .ok q b ∧
      Copy.goal.arena.Instantiated [.compound ⟨⟨0⟩, 2⟩] Term.goal b q ∧
      b.text? q = some "f(g(g(X, 0.0), 0.0), g(g(X, 0.0), 0.0))") ∧
    ∃ q b, Arena.substitute Term.goal [.int 7] Copy.goal.arena = .ok q b ∧
      ∀ y, b.Under q y → y.isNamedVar = false := by
  constructor
  · have hframe : ∀ x ∈ [.compound ⟨⟨0⟩, 2⟩], Copy.goal.Owns x := by decide +kernel
    obtain ⟨q, b, hok, -, h, -⟩ := Session.Reachable.substitute_instantiates reachable_goal
      (List.mem_singleton_self _) Copy.goal_owns hframe
    have htext : (match Arena.substitute Term.goal [.compound ⟨⟨0⟩, 2⟩] Copy.goal.arena with
        | .ok q b => b.text? q
        | .error _ _ => none) = some "f(g(g(X, 0.0), 0.0), g(g(X, 0.0), 0.0))" := by
      decide +kernel
    rw [hok] at htext
    exact ⟨q, b, hok, h, htext⟩
  · have hframe : ∀ x ∈ [.int 7], Copy.goal.Owns x := by decide +kernel
    obtain ⟨q, b, hok, -, -, hground⟩ := Session.Reachable.substitute_instantiates reachable_goal
      (List.mem_singleton_self _) Copy.goal_owns hframe
    refine ⟨q, b, hok, hground fun v hv hnamed => ⟨.int 7, ⟨hnamed, ⟨0, ?_, rfl⟩, rfl⟩, ?_⟩⟩
    · exact Copy.goal_index hv hnamed
    · intro x hx
      rw [hx.eq_of_argsOrNone rfl]
      rfl

end TermGraph
