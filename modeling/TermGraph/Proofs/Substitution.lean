import TermGraph.Arena.Replace
import TermGraph.Proofs.Factorization

/-!
# Substitution — a frame put into a term

Substitution walks over a term with a frame of values and builds as it
goes, so the arena changes between one argument and the next. What it puts
in does not: the index of a variable was there before, and so was the
frame. `fill` is what a frame puts in the place of a variable, read in the
arena before, and `Substituted` is what the walk makes of a term, read in
any arena after.

A compound term is KEPT when every argument came back as the same term.
The same term is the very handle here, because a real never comes from
anything but itself; so the arguments of a term that is kept are those it
has. Otherwise it is COPIED, and the copy has its functor and its content,
and no index.

## What is proved

`substitute_ok` — on a term and a frame that an arena holds, substitution
succeeds in every arena that has grown out of it, and answers the term with
the frame put in. `Substituted.instanceOf` — that, position by position.
-/

namespace TermGraph

namespace Arena

variable {V : Type} {a b c : Arena V} {frame : List Term} {put : Term → Term}
  {s t q v x y : Term}

/-! ## Bindings -/

/-- The frame binds the named variable to the value: the variable has a
place, and the value stands there and is not a variable. -/
structure BindsTo (a : Arena V) (frame : List Term) (v value : Term) : Prop where
  named : v.isNamedVar = true
  placed : ∃ place, a.index v = .ok (.assigned place) ∧ frame[place]? = some value
  notVar : value.isVar = false

/-- What a frame puts in the place of a variable. -/
def fill (a : Arena V) (frame : List Term) (v : Term) : Term :=
  ((a.index v).toOption.bind (boundIn? frame)).getD v

theorem fill_eq {i : Index} (h : a.index v = .ok i) :
    a.fill frame v = (boundIn? frame i).getD v := by
  rw [fill, h]
  rfl

/-- A frame binds a variable to what it has for the index. -/
theorem bindsTo_iff {value : Term} (hv : v.isNamedVar = true) {i : Index}
    (h : a.index v = .ok i) : a.BindsTo frame v value ↔ boundIn? frame i = some value := by
  rw [boundIn?_eq_some_iff]
  constructor
  · rintro ⟨-, ⟨place, hplace, hvalue⟩, hvar⟩
    rw [h] at hplace
    exact ⟨⟨place, Except.ok.inj hplace, hvalue⟩, hvar⟩
  · rintro ⟨⟨place, rfl, hvalue⟩, hvar⟩
    exact ⟨hv, ⟨place, h, hvalue⟩, hvar⟩

theorem BindsTo.fill_eq {value : Term} (h : a.BindsTo frame v value) :
    a.fill frame v = value := by
  obtain ⟨place, hplace, -⟩ := h.placed
  rw [Arena.fill_eq hplace, (bindsTo_iff h.named hplace).mp h]
  rfl

/-- A held variable that is not bound stays. -/
theorem fill_of_unbound (hv : v.isNamedVar = true) (hheld : a.Holds .documented v)
    (h : ∀ value, ¬a.BindsTo frame v value) : a.fill frame v = v := by
  obtain ⟨i, hi⟩ := hheld.index
  rw [fill_eq hi]
  cases hbound : boundIn? frame i with
  | none => rfl
  | some value => exact absurd ((bindsTo_iff hv hi).mpr hbound) (h value)

/-- What is put in is held: it is the variable, or stands in the frame. -/
theorem Holds.fill {u : Use} (hv : a.Holds u v) (hframe : ∀ x ∈ frame, a.Holds u x) :
    a.Holds u (a.fill frame v) := by
  obtain ⟨i, hi⟩ := hv.index
  rw [fill_eq hi]
  cases hbound : boundIn? frame i with
  | none => exact hv
  | some value => exact hframe value (mem_of_boundIn? hbound)

/-! ## What substitution makes of a term -/

/-- The second term is the first one with other terms in the places of its
variables. A compound term is kept, or it is a copy with its content and no
index. -/
inductive Substituted (a : Arena V) (put : Term → Term) : Term → Term → Prop
  | leaf {s : Term} (hs : s.isLeaf = true) : Substituted a put s s
  | var (r : Reference) : Substituted a put (.var r) (put (.var r))
  | node {r r' : Reference} {f : String} {ss qs : List Term}
    (hs : a.shell? (.compound r) = some (f, ss)) (hq : a.shell? (.compound r') = some (f, qs))
    (length_eq : ss.length = qs.length)
    (args : ∀ (i : Nat) (s q : Term), ss[i]? = some s → qs[i]? = some q →
      Substituted a put s q)
    (made : r' = r ∨ a.index (.compound r') = .ok .unassigned ∧
      a.content? (.compound r') = a.content? (.compound r)) :
    Substituted a put (.compound r) (.compound r')

namespace Substituted

theorem ofArgs {r r' : Reference} {f : String} {ss qs : List Term}
    (hs : a.shell? (.compound r) = some (f, ss)) (hq : a.shell? (.compound r') = some (f, qs))
    (args : List.Forall₂ (a.Substituted put) ss qs)
    (made : r' = r ∨ a.index (.compound r') = .ok .unassigned ∧
      a.content? (.compound r') = a.content? (.compound r)) :
    a.Substituted put (.compound r) (.compound r') := by
  obtain ⟨hlen, hall⟩ := forall₂_iff_getElem?.mp args
  exact .node hs hq hlen hall made

/-- It stays so while the arena grows. -/
theorem grows (hab : a.Grows b) (h : a.Substituted put s q) : b.Substituted put s q := by
  induction h with
  | leaf hs => exact .leaf hs
  | var r => exact .var r
  | node hs hq hlen _ hmade ih =>
    refine .node (hab.shell?_eq hs) (hab.shell?_eq hq) hlen ih (hmade.imp_right fun h => ?_)
    obtain ⟨hindex, hcontent⟩ := h
    have hheld := holds_of_shell? hq
    refine ⟨by rw [hab.index_eq hheld, hindex], ?_⟩
    rw [hab.content?_eq hheld, hcontent, hab.content?_eq (holds_of_shell? hs)]

/-- What came back as the same term is the very handle. -/
theorem eq_of_same (h : a.Substituted put s q) (hsame : q.same s = true) : q = s := by
  cases h with
  | leaf _ => rfl
  | var r => exact (Term.eq_of_same_of_ref (Term.same_symm hsame) (r := r) rfl).symm
  | node _ _ _ _ _ => exact Term.eq_of_same_of_ref hsame rfl

theorem eq_of_sameAll {old new : List Term}
    (h : List.Forall₂ (a.Substituted put) old new) (hsame : Term.sameAll new old = true) :
    new = old := by
  have hall := Term.sameAll_iff.mp hsame
  induction h with
  | nil => rfl
  | cons hsq _ ih =>
    obtain ⟨hhead, htail⟩ := List.forall₂_cons.mp hall
    rw [hsq.eq_of_same hhead, ih (Term.sameAll_iff.mpr htail) htail]

/-- A compound term over what its arguments became. -/
theorem rebuilt (wf : a.WellFormed .documented) {r : Reference} {f : String}
    {old new : List Term} (hshell : a.shell? (.compound r) = some (f, old))
    (h : List.Forall₂ (fun s q => a.Holds .documented q ∧ a.Substituted put s q) old new) :
    Ensures (Arena.rebuilt (.compound r) old new) a
      (fun q b => b.WellFormed .documented ∧ a.Grows b ∧ b.Holds .documented q ∧
        b.Substituted put (.compound r) q) (fun _ => False) := by
  have hargs : List.Forall₂ (a.Substituted put) old new := h.imp fun _ _ h => h.2
  cases hsame : Term.sameAll new old with
  | true =>
    have heq := eq_of_sameAll hargs hsame
    rw [Arena.rebuilt, if_pos hsame]
    exact Ensures.answer ⟨wf, .refl a, holds_of_shell? hshell,
      ofArgs hshell hshell (heq ▸ hargs) (.inl rfl)⟩
  | false =>
    have hheld : ∀ q ∈ new, a.Holds .documented q := by
      intro q hq
      obtain ⟨s, -, hq, -⟩ := exists_of_forall₂ h hq
      exact hq
    obtain ⟨q, b, hok, hnew, hcontent⟩ := rebuilt_ok wf hshell h.length_eq hheld hsame
    have hold := holds_of_shell? hshell
    refine Ensures.of_ok hok ⟨hnew.wf, hnew.grows, hnew.holds, ?_⟩
    have hindex := hnew.index
    have hshell' := hnew.shell?_eq
    obtain rfl := hnew.handle
    refine ofArgs (hnew.grows.shell?_eq hshell) hshell' (hargs.imp fun _ _ => grows hnew.grows)
      (.inr ⟨hindex, ?_⟩)
    rw [hcontent, hnew.grows.content?_eq hold]

end Substituted

/-- THE EFFECT OF SUBSTITUTION, in an arena that has grown out of one which
holds the term and the values of the frame. -/
theorem substitute_ok (wf : a.WellFormed .documented)
    (hframe : ∀ x ∈ frame, a.Holds .documented x) (t : Term) :
    ∀ {b}, a.Holds .documented t → b.WellFormed .documented → a.Grows b →
      Ensures (substitute t frame) b
        (fun q c => c.WellFormed .documented ∧ b.Grows c ∧ c.Holds .documented q ∧
          c.Substituted (a.fill frame) t q) (fun _ => False) := by
  induction t using Term.byHeight with
  | step t ih =>
    intro b ht wfb hab
    rw [substitute_eq]
    rcases wf.cases_holds ht with ⟨r, name, type, rfl, -⟩ | ⟨r, f, old, rfl, hshell⟩ | hl
    · obtain ⟨i, hi⟩ := ht.index
      refine Ensures.bind_ok (look_of_ok (f := (·.index (.var r))) (x := i) ?_) ?_
      · rw [hab.index_eq ht, hi]
      · rw [← fill_eq hi]
        exact Ensures.answer ⟨wfb, .refl b,
          (ht.fill hframe).extends hab.toExtends, .var r⟩
    · have hlower := wf.args_sound (args_of_shell? hshell)
      have hshellb := hab.shell?_eq hshell
      apply Ensures.bind_ok (look_of_ok (f := (·.args (.compound r)))
        (args_of_shell? hshellb))
      -- The arena grows from one argument to the next. What is put in is read in `a`, and what
      -- came back stays what it was, so the arguments do not see each other.
      refine Ensures.bind (Ensures.mapM (I := fun c => c.WellFormed .documented ∧ b.Grows c)
        (G := Grows) (R := fun s q c => c.Holds .documented q ∧ c.Substituted (a.fill frame) s q)
        Grows.refl (fun _ h k => h.trans k)
        (fun _ _ h hq => ⟨hq.1.extends h.toExtends, hq.2.grows h⟩) old ?_ b ⟨wfb, .refl b⟩) ?_
      · intro s hs c hc
        rw [if_pos (hlower s hs).2]
        refine (ih s (hlower s hs).2 (hlower s hs).1 hc.1 (hab.trans hc.2)).mono ?_ fun _ h => h
        intro q d hend
        obtain ⟨wfd, hcd, hq⟩ := hend
        exact ⟨⟨wfd, hc.2.trans hcd⟩, hcd, hq⟩
      · intro new c hend
        obtain ⟨⟨wfc, hbc⟩, -, hnew⟩ := hend
        refine (Substituted.rebuilt wfc (hbc.shell?_eq hshellb) hnew).mono ?_ fun _ h => h
        intro q d hend
        obtain ⟨wfd, hcd, hq⟩ := hend
        exact ⟨wfd, hbc.trans hcd, hq⟩
    · cases t with
      | var _ | compound _ => cases hl
      | _ => exact Ensures.answer ⟨wfb, .refl b, ht.extends hab.toExtends, .leaf hl⟩

/-! ## Positions -/

namespace Substituted

/-- The arguments of a term that is no variable, in pairs. -/
theorem args (h : a.Substituted put s q) (hs : s.isNamedVar = false) :
    List.Forall₂ (a.Substituted put) (a.argsOrNone s) (a.argsOrNone q) := by
  cases h with
  | leaf hl =>
    rw [argsOrNone_of_isLeaf hl]
    exact .nil
  | var r => cases hs
  | node hss hqs hlen hall _ =>
    rw [argsOrNone_of_shell? hss, argsOrNone_of_shell? hqs]
    exact forall₂_iff_getElem?.mpr ⟨hlen, hall⟩

/-- Every position of the term is a position of what it became. -/
theorem at? (h : a.Substituted put s q) {path : List Nat} (hx : a.at? s path = some x) :
    ∃ y, a.at? q path = some y ∧ a.Substituted put x y := by
  induction path generalizing s q with
  | nil =>
    cases hx
    exact ⟨q, rfl, h⟩
  | cons i path ih =>
    obtain ⟨arg, harg, hrest⟩ := Option.bind_eq_some_iff.mp hx
    have hs : s.isNamedVar = false := by
      cases s with
      | var r => cases harg
      | _ => rfl
    obtain ⟨arg', harg', hargs⟩ := exists_getElem?_of_forall₂ (h.args hs) harg
    rw [Arena.at?, harg']
    exact ih hargs hrest

/-- A position that the term does not have is below a variable. -/
theorem at?_or (h : a.Substituted put s q) {path : List Nat} (hy : a.at? q path = some y) :
    (∃ x, a.at? s path = some x) ∨ ∃ above below r, path = above ++ below ∧
      a.at? s above = some (.var r) ∧ put (.var r) ≠ .var r := by
  induction path generalizing s q with
  | nil => exact .inl ⟨s, rfl⟩
  | cons i path ih =>
    obtain ⟨arg, harg, hrest⟩ := Option.bind_eq_some_iff.mp hy
    by_cases hs : s.isNamedVar = true
    · -- The variable became something that has arguments, so it is not what it was.
      cases h with
      | var r =>
        refine .inr ⟨[], i :: path, r, rfl, rfl, fun heq => ?_⟩
        rw [heq] at harg
        cases harg
      | leaf hl =>
        cases s with
        | var _ => cases hl
        | _ => cases hs
      | node _ _ _ _ _ => cases hs
    · obtain ⟨arg', harg', hargs⟩ :=
        exists_getElem?_of_forall₂ (h.args (Bool.eq_false_iff.mpr hs)).flip harg
      have hat : ∀ path, a.at? s (i :: path) = a.at? arg' path := fun path => by
        rw [Arena.at?, harg']
        rfl
      rcases ih hargs hrest with ⟨x, hx⟩ | ⟨above, below, r, rfl, hr, hne⟩
      · exact .inl ⟨x, (hat path).trans hx⟩
      · exact .inr ⟨i :: above, below, r, rfl, (hat above).trans hr, hne⟩

end Substituted

/-- What stands in an instance of a term, in the place of `x` in the term:
the value of a variable that the frame binds, and anything else as it is. A
compound term keeps functor, arity and content. The term is read in `a`,
and the instance in `b`. -/
structure Fills (a : Arena V) (frame : List Term) (b : Arena V) (x y : Term) : Prop where
  bound : ∀ value, a.BindsTo frame x value → y = value
  unbound : x.isNamedVar = true → (∀ value, ¬a.BindsTo frame x value) → y = x
  compound : x.isCompound = true → y.isCompound = true ∧ b.content? y = a.content? x ∧
    ∃ f n, a.functor x = .ok f ∧ b.functor y = .ok f ∧ a.arity x = .ok n ∧ b.arity y = .ok n
  leaf : x.isLeaf = true → y = x

/-- The second term is the first one with the frame put in. Positions that
are not those of the first are below variables that the frame binds. -/
structure InstanceOf (a : Arena V) (frame : List Term) (t : Term) (b : Arena V) (q : Term) :
    Prop where
  places : ∀ path x, a.at? t path = some x → ∃ y, b.at? q path = some y ∧ a.Fills frame b x y
  below : ∀ path y, b.at? q path = some y → (∃ x, a.at? t path = some x) ∨
    ∃ above below v value, path = above ++ below ∧ a.at? t above = some v ∧
      a.BindsTo frame v value

/-- What stands in the place of a held term. -/
theorem Substituted.fills (wf : a.WellFormed .documented) (hx : a.Holds .documented x)
    (hab : a.Grows b) (h : b.Substituted (a.fill frame) x y) : a.Fills frame b x y := by
  cases h with
  | leaf hl =>
    refine ⟨fun value hbound => ?_, fun _ _ => rfl, fun hcompound => ?_, fun _ => rfl⟩
    · have hvar := hbound.named
      cases x with
      | var _ => cases hl
      | _ => cases hvar
    · cases x with
      | control d => exact ⟨rfl, rfl, d.name, 0, rfl, rfl, rfl, rfl⟩
      | compound _ => cases hl
      | _ => cases hcompound
  | var r =>
    exact ⟨fun _ hbound => hbound.fill_eq, fun hvar => fill_of_unbound hvar hx,
      fun hcompound => (by cases hcompound), fun hl => (by cases hl)⟩
  | @node r r' f ss qs hs hq hlen _ hmade =>
    have hcontent : b.content? (.compound r') = a.content? (.compound r) := by
      rw [← hab.content?_eq hx]
      rcases hmade with rfl | ⟨-, hcontent⟩
      · rfl
      · exact hcontent
    rw [hab.shell?_frozen wf hx] at hs
    refine ⟨fun _ hbound => ?_, fun hvar => (by cases hvar), fun _ => ⟨rfl, hcontent, f, ss.length,
      functor_of_shell? hs, functor_of_shell? hq, arity_of_shell? hs, ?_⟩,
      fun hl => (by cases hl)⟩
    · cases hbound.named
    · rw [hlen]
      exact arity_of_shell? hq

/-- WHAT SUBSTITUTION ANSWERS, position by position. -/
theorem Substituted.instanceOf (wf : a.WellFormed .documented) (ht : a.Holds .documented t)
    (hab : a.Grows b) (h : b.Substituted (a.fill frame) t q) : a.InstanceOf frame t b q where
  places path x hx := by
    have hheld := wf.holds_under ht ⟨path, hx⟩
    rw [← hab.at?_frozen wf ht] at hx
    obtain ⟨y, hy, hxy⟩ := h.at? hx
    exact ⟨y, hy, hxy.fills wf hheld hab⟩
  below path y hy := by
    rcases h.at?_or hy with ⟨x, hx⟩ | ⟨above, below, r, rfl, hr, hne⟩
    · rw [hab.at?_frozen wf ht] at hx
      exact .inl ⟨x, hx⟩
    · rw [hab.at?_frozen wf ht] at hr
      by_contra hnot
      refine hne (fill_of_unbound rfl (wf.holds_under ht ⟨above, hr⟩) fun value hbound => ?_)
      exact hnot (.inr ⟨above, below, _, value, rfl, hr, hbound⟩)

end Arena

end TermGraph
