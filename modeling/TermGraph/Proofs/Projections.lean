import TermGraph.Proofs.Refusal
import TermGraph.Proofs.Substitution
import TermGraph.Results.Solutions

/-!
# Projections — solutions read as a whole and one variable at a time

Solutions of a goal are read in two ways. A variable is projected by
looking every frame up at its index, and nothing is built. The whole
solutions are the goal with every frame put in, and are built one after
another in the same arena. Whether a frame binds a variable is decided in
each of the two; `BindsTo` is what both decide.

Each whole solution is an instance of the goal by the frame, with indexes
as they were BEFORE the first one was built. Building only adds nodes, and
the indexes of the goal are those of old nodes; so no solution has an
influence on a later one, and none on a later projection of a variable.

A host may read values as types of its own. `LawfulHostType` asks of such
a type that reading a term does not depend on other terms. The types of
this library are lawful.

## What is proved

`Session.Reachable.projections_agree` — on any goal and any frames of
terms that a host can reach.
-/

namespace TermGraph

variable {V : Type}

/-! ## Values of host types -/

/-- Reading a term that the arena holds does not depend on what is added to
the arena. -/
class LawfulHostType (α : Type) [HostType α] : Prop where
  ofTerm?_frozen {V : Type} {a b : Arena V} {t : Term} (wf : a.WellFormed .documented)
    (hab : a.Extends b) (ht : a.Holds .documented t) :
    (HostType.ofTerm? b t : Option α) = HostType.ofTerm? a t

instance : LawfulHostType Term := ⟨fun _ _ _ => rfl⟩

instance : LawfulHostType String where
  ofTerm?_frozen wf hab ht := by
    simp only [HostType.ofTerm?, hab.isAtom_frozen wf ht, hab.name_frozen ht]

instance : LawfulHostType Int64 := ⟨fun _ _ _ => rfl⟩

instance : LawfulHostType Int32 := ⟨fun _ _ _ => rfl⟩

instance : LawfulHostType Binary64 := ⟨fun _ _ _ => rfl⟩

instance : LawfulHostType Bool := ⟨fun _ _ _ => rfl⟩

/-! ## Handles that may be passed -/

namespace Arena

variable {a b : Arena V} {t : Term}

/-- A handle of another arena dangles. -/
theorem IsForeign.dangles (h : a.IsForeign t) : a.Dangles t := by
  obtain ⟨r, hr, hne⟩ := h
  exact ⟨r, hr, .inl hne⟩

theorem IsForeign.extends (h : a.IsForeign t) (hab : a.Extends b) : b.IsForeign t := by
  obtain ⟨r, hr, hne⟩ := h
  exact ⟨r, hr, by rwa [hab.id]⟩

section Permitted

variable (ht : a.Permits .documented t)
include ht

theorem Extends.name_permitted (hab : a.Extends b) : b.name t = a.name t := by
  rcases ht rfl with hheld | hforeign
  · exact hab.name_frozen hheld
  · rw [hforeign.dangles.name, (hforeign.extends hab).dangles.name]

theorem Extends.varName_permitted (hab : a.Extends b) : b.varName t = a.varName t := by
  rcases ht rfl with hheld | hforeign
  · exact hab.varName_frozen hheld
  · rw [hforeign.dangles.varName, (hforeign.extends hab).dangles.varName]

theorem Grows.index_permitted (hab : a.Grows b) : b.index t = a.index t := by
  rcases ht rfl with hheld | hforeign
  · exact hab.index_eq hheld
  · rw [hforeign.dangles.index, (hforeign.extends hab.toExtends).dangles.index]

end Permitted

/-- A held variable has a name. -/
theorem WellFormed.exists_varName (wf : a.WellFormed .documented) (ht : a.Holds .documented t)
    (hvar : t.isNamedVar = true) : ∃ name, a.varName t = .ok name := by
  cases t with
  | var r =>
    obtain ⟨name, type, hname, -⟩ := wf.named ht
    exact ⟨name, varName_of_namedVar? hname⟩
  | _ => cases hvar

end Arena

namespace Solutions

variable {α β ε : Type} {a b : Arena V} {s : Solutions} {goal t v : Term}
  {frames : List (List Term)}

/-! ## One variable -/

/-- Every element has a value, and these are the values. -/
theorem readEach_eq_ok_iff {value : α → Option β} {fault : Nat → ε} {start : Nat} {xs : List α}
    {ys : List β} :
    readEach value fault start xs = .ok ys ↔ List.Forall₂ (value · = some ·) xs ys := by
  induction xs generalizing start ys with
  | nil =>
    rw [List.forall₂_nil_left_iff, readEach]
    exact ⟨fun h => (Except.ok.inj h).symm, fun h => h ▸ rfl⟩
  | cons x xs ih =>
    rw [readEach, List.forall₂_cons_left_iff]
    cases hx : value x with
    | none => exact ⟨fun h => (by cases h), fun ⟨_, _, h, _⟩ => (by cases h)⟩
    | some y =>
      constructor
      · intro h
        obtain ⟨zs, hrest, hys⟩ := bind_eq_ok_iff.mp h
        exact ⟨y, zs, rfl, ih.mp hrest, (Except.ok.inj hys).symm⟩
      · rintro ⟨z, zs, hz, hall, rfl⟩
        cases hz
        exact bind_eq_ok_iff.mpr ⟨zs, ih.mpr hall, rfl⟩

/-- Values that do not change are read as they were. -/
theorem readEach_congr {value value' : α → Option β} {fault : Nat → ε} {start : Nat}
    {xs : List α} (h : ∀ x ∈ xs, value x = value' x) :
    readEach value fault start xs = readEach value' fault start xs := by
  induction xs generalizing start with
  | nil => rfl
  | cons x xs ih =>
    rw [readEach, readEach, h x List.mem_cons_self]
    split
    · rfl
    · rw [ih fun y hy => h y (List.mem_cons_of_mem x hy)]

theorem onTerms_eq_ok_iff {m : Except TermError α} {x : α} : onTerms m = .ok x ↔ m = .ok x := by
  cases m with
  | error e => exact ⟨fun h => (by cases h), fun h => (by cases h)⟩
  | ok _ => exact ⟨fun h => (by cases h; rfl), fun h => (by cases h; rfl)⟩

/-- A projection looks for name and index first, and then for a place. -/
theorem term_eq {name : String} {i : Index} (hname : a.varName t = .ok name)
    (hindex : a.index t = .ok i) :
    s.term a t = if i.place?.isNone then .error (.notIndexed name)
      else readEach (Arena.boundIn? · i) (.unboundVar name) 0 s.frames >>=
        fun found => .ok ⟨found⟩ := by
  rw [term, hname, hindex]
  rfl

/-- A variable with a place has a value in every frame, and these are the
values. -/
theorem term_eq_ok_iff {values : Results Term} :
    s.term a t = .ok values ↔ (∃ name, a.varName t = .ok name) ∧
      ∃ i, a.index t = .ok i ∧ i.place?.isNone = false ∧
        List.Forall₂ (Arena.boundIn? · i = some ·) s.frames values.toList := by
  constructor
  · intro h
    obtain ⟨name, hname, hrest⟩ := bind_eq_ok_iff.mp h
    obtain ⟨i, hindex, -⟩ := bind_eq_ok_iff.mp hrest
    rw [onTerms_eq_ok_iff] at hname hindex
    rw [term_eq hname hindex] at h
    cases hplace : i.place?.isNone with
    | true =>
      rw [hplace] at h
      cases h
    | false =>
      rw [hplace] at h
      obtain ⟨found, hread, hvalues⟩ := bind_eq_ok_iff.mp h
      cases hvalues
      exact ⟨⟨name, hname⟩, i, hindex, hplace, readEach_eq_ok_iff.mp hread⟩
  · rintro ⟨⟨name, hname⟩, i, hindex, hplace, hall⟩
    rw [term_eq hname hindex, hplace]
    exact bind_eq_ok_iff.mpr ⟨values.toList, readEach_eq_ok_iff.mpr hall, rfl⟩

/-- Values that are projected stand in frames. -/
theorem mem_frames_of_term {values : Results Term} (h : s.term a t = .ok values) {x : Term}
    (hx : x ∈ values.toList) : ∃ frame ∈ s.frames, x ∈ frame := by
  obtain ⟨-, i, -, -, hall⟩ := term_eq_ok_iff.mp h
  obtain ⟨frame, hframe, hbound⟩ := exists_of_forall₂ hall hx
  obtain ⟨⟨place, -, hvalue⟩, -⟩ := Arena.boundIn?_eq_some_iff.mp hbound
  exact ⟨frame, hframe, List.mem_of_getElem? hvalue⟩

/-! ## Projecting later -/

/-- Growth changes no projection of a variable. -/
theorem term_grows (hab : a.Grows b) (ht : a.Permits .documented t) : s.term b t = s.term a t := by
  rw [term, term, hab.varName_permitted ht, hab.index_permitted ht]

/-- Nor one that is read as a host type. -/
theorem values_grows [HostType α] [LawfulHostType α] (wf : a.WellFormed .documented)
    (hab : a.Grows b) (hframes : ∀ frame ∈ s.frames, ∀ x ∈ frame, a.Holds .documented x)
    {x : TypedVar α} (hx : a.Permits .documented x.term) : s.values b x = s.values a x := by
  have hname : x.name b = x.name a := hab.name_permitted hx
  rw [values, values, hname, term_grows hab hx]
  cases onTerms (x.name a) with
  | error e => rfl
  | ok name =>
    cases hfound : s.term a x.term with
    | error e => rfl
    | ok found =>
      have hread : ∀ y ∈ found.toList,
          (HostType.ofTerm? b y : Option α) = HostType.ofTerm? a y := by
        intro y hy
        obtain ⟨frame, hframe, hmem⟩ := mem_frames_of_term hfound hy
        exact LawfulHostType.ofTerm?_frozen wf hab.toExtends (hframes frame hframe y hmem)
      simp only [bind, Except.bind, readEach_congr hread]

/-! ## Whole solutions -/

/-- Building ensures as part of a projection what it ensures by itself. -/
theorem onArena_ok {m : BuildM V α} {P : α → Arena V → Prop} (h : Ensures m a P fun _ => False) :
    Ensures (onArena m) a P fun _ => False := by
  obtain ⟨x, b, hok, hx⟩ := h.exists_ok
  exact Ensures.of_ok (by rw [onArena, hok]) hx

/-- THE WHOLE SOLUTIONS of a held goal, by frames of held terms. -/
theorem whole_ok (wf : a.WellFormed .documented) (hgoal : a.Holds .documented goal)
    (hframes : ∀ frame ∈ frames, ∀ x ∈ frame, a.Holds .documented x) :
    Ensures (whole ⟨some goal, frames⟩) a
      (fun rs b => a.Grows b ∧
        List.Forall₂ (fun frame q => a.InstanceOf frame goal b q) frames rs.toList)
      (fun _ => False) := by
  refine Ensures.bind (Ensures.mapM (I := fun b => b.WellFormed .documented ∧ a.Grows b)
    (G := Arena.Grows) (R := fun frame q b => b.Substituted (a.fill frame) goal q)
    Arena.Grows.refl (fun _ h k => h.trans k) (fun _ _ h hq => hq.grows h) frames ?_ a
    ⟨wf, .refl a⟩) ?_
  · -- Every frame is put into the goal as it was in `a`, whatever was built before it.
    intro frame hframe b hb
    refine onArena_ok ((Arena.substitute_ok wf (hframes frame hframe) goal hgoal hb.1 hb.2).mono
      ?_ fun _ h => h)
    intro q c hend
    obtain ⟨wfc, hbc, -, hq⟩ := hend
    exact ⟨⟨wfc, hb.2.trans hbc⟩, hbc, hq⟩
  · intro qs b hend
    obtain ⟨⟨-, hab⟩, -, hall⟩ := hend
    exact Ensures.answer ⟨hab, hall.imp fun _ _ hq => hq.instanceOf wf hgoal hab⟩

/-- A projected value stands in the whole solution, in every place of the
variable. -/
theorem at?_of_term {rs values : Results Term}
    (hwhole : List.Forall₂ (fun frame q => a.InstanceOf frame goal b q) s.frames rs.toList)
    (hv : v.isNamedVar = true) (hvalues : s.term a v = .ok values) {n : Nat} {value q : Term}
    (hvalue : values.toList[n]? = some value) (hq : rs.toList[n]? = some q) {path : List Nat}
    (hpath : a.at? goal path = some v) : b.at? q path = some value := by
  obtain ⟨-, i, hindex, -, hall⟩ := term_eq_ok_iff.mp hvalues
  obtain ⟨frame, hframe, hinstance⟩ := exists_getElem?_of_forall₂ hwhole.flip hq
  have hbound := (forall₂_iff_getElem?.mp hall).2 n frame value hframe hvalue
  obtain ⟨y, hy, hfills⟩ := hinstance.places path v hpath
  rw [hy, hfills.bound value ((Arena.bindsTo_iff hv hindex).mpr hbound)]

/-- Solutions of a goal, read as a whole and one variable at a time. The
whole solutions are `rs`; the arena was `a` before they were built, and is
`b` afterwards. -/
structure ProjectionsAgree (a : Arena V) (goal : Term) (frames : List (List Term))
    (rs : Results Term) (b : Arena V) : Prop where
  /-- There is one term for each frame, in order: the goal with the frame
  put in. -/
  whole : List.Forall₂ (fun frame q => a.InstanceOf frame goal b q) frames rs.toList
  /-- A variable of the goal that has a place has values if and only if
  every frame binds it. -/
  bound : ∀ v place, a.Under goal v → v.isNamedVar = true → a.index v = .ok (.assigned place) →
    ((∃ values, term ⟨some goal, frames⟩ a v = .ok values) ↔
      ∀ frame ∈ frames, ∃ value, a.BindsTo frame v value)
  /-- There is one value for each frame then, in order, and it stands in the
  whole solution in every place of the variable. -/
  value : ∀ v values, a.Under goal v → v.isNamedVar = true →
    term ⟨some goal, frames⟩ a v = .ok values → values.count = frames.length ∧
      ∀ (n : Nat) (value q : Term) (path : List Nat), values.toList[n]? = some value →
        rs.toList[n]? = some q → a.at? goal path = some v → b.at? q path = some value

theorem projectionsAgree {rs : Results Term} (wf : a.WellFormed .documented)
    (hgoal : a.Holds .documented goal)
    (hwhole : List.Forall₂ (fun frame q => a.InstanceOf frame goal b q) frames rs.toList) :
    ProjectionsAgree a goal frames rs b where
  whole := hwhole
  bound v place hv hnamed hindex := by
    constructor
    · rintro ⟨values, hvalues⟩ frame hframe
      obtain ⟨-, i, hi, -, hall⟩ := term_eq_ok_iff.mp hvalues
      obtain ⟨value, -, hvalue⟩ := exists_of_forall₂ hall.flip hframe
      exact ⟨value, (Arena.bindsTo_iff hnamed hi).mpr hvalue⟩
    · intro hbound
      obtain ⟨values, hall⟩ := exists_forall₂ hbound
      obtain ⟨name, hname⟩ := wf.exists_varName (wf.holds_under hgoal hv) hnamed
      exact ⟨⟨values⟩, term_eq_ok_iff.mpr ⟨⟨name, hname⟩, _, hindex, rfl,
        hall.imp fun _ _ h => (Arena.bindsTo_iff hnamed hindex).mp h⟩⟩
  value v values hv hnamed hvalues := by
    obtain ⟨-, i, -, -, hall⟩ := term_eq_ok_iff.mp hvalues
    exact ⟨hall.length_eq.symm, fun n value q path hvalue hq hpath =>
      at?_of_term (s := ⟨some goal, frames⟩) hwhole hnamed hvalues hvalue hq hpath⟩

end Solutions

/-- THE PROJECTIONS OF SOLUTIONS AGREE. Take any goal and any frames of terms
of any copy that a host can reach. The whole solutions can be built: they
are the goal with the frames put in, and what they hold in the places of a
variable are the values of the variable. Building them changes no later
projection of a variable, read as a term or as a value. -/
theorem Session.Reachable.projections_agree {s : Session V} (hs : s.Reachable .documented)
    {c : Copy V} (hc : c ∈ s.copies) {goal : Term} (hgoal : c.Owns goal)
    {frames : List (List Term)} (hframes : ∀ frame ∈ frames, ∀ x ∈ frame, c.Owns x) :
    ∃ rs b, Solutions.whole ⟨some goal, frames⟩ c.arena = .ok rs b ∧
      Solutions.ProjectionsAgree c.arena goal frames rs b ∧
      (∀ t, c.Admits .documented t →
        Solutions.term ⟨some goal, frames⟩ b t = Solutions.term ⟨some goal, frames⟩ c.arena t) ∧
      ∀ (α : Type) [HostType α] [LawfulHostType α] (x : TypedVar α),
        c.Admits .documented x.term →
          Solutions.values ⟨some goal, frames⟩ b x =
            Solutions.values ⟨some goal, frames⟩ c.arena x := by
  have horder := hs.inOrder c hc
  have hheld : ∀ frame ∈ frames, ∀ x ∈ frame, c.arena.Holds .documented x :=
    fun frame hframe x hx => horder.holds (hframes frame hframe x hx)
  obtain ⟨rs, b, hok, hgrows, hwhole⟩ :=
    (Solutions.whole_ok horder.1 (horder.holds hgoal) hheld).exists_ok
  refine ⟨rs, b, hok, Solutions.projectionsAgree horder.1 (horder.holds hgoal) hwhole,
    fun t ht => Solutions.term_grows hgrows (horder.permits ht), fun α _ _ x hx => ?_⟩
  exact Solutions.values_grows horder.1 hgrows hheld (horder.permits hx)

/-- The normal form `f(g(X, 0.0), g(X, 0.0))` of a term, with one variable at
place 0. -/
def Copy.goal : Copy Scalar := Copy.sample.after {} (.normalize Term.sample)

/-- The handle of the normal form. -/
def Term.goal : Term := .compound ⟨⟨0⟩, 6⟩

theorem Copy.goal_owns : Copy.goal.Owns Term.goal := by decide +kernel

theorem Session.reachable_goal : Session.Reachable .documented ⟨[Copy.goal], {}⟩ := by
  have hsample : Session.Reachable .documented ⟨[] ++ Copy.sample :: [], {}⟩ := reachable_sample
  exact hsample.afterAll [.normalize Term.sample] (by decide +kernel)

/-- The one variable under it is at place 0. -/
theorem Copy.goal_index {v : Term} (hv : Copy.goal.arena.Under Term.goal v)
    (hnamed : v.isNamedVar = true) : Copy.goal.arena.index v = .ok (.assigned 0) := by
  have horder := Session.reachable_goal.inOrder _ (List.mem_singleton_self _)
  have hplaces : ∀ v ∈ Copy.goal.arena.listing Term.goal, v.isNamedVar = true →
      Copy.goal.arena.index v = .ok (.assigned 0) := by decide +kernel
  exact hplaces v ((horder.1.under_iff (horder.holds Copy.goal_owns)).mp hv) hnamed

/-- Three solutions: a compound term, a whole number, and one that binds
nothing. -/
theorem Session.projections_agree_sample :
    ∃ rs b, Solutions.whole ⟨some Term.goal, [[.compound ⟨⟨0⟩, 3⟩], [.int 7], [.anon]]⟩
        Copy.goal.arena = .ok rs b ∧
      Solutions.ProjectionsAgree Copy.goal.arena Term.goal
        [[.compound ⟨⟨0⟩, 3⟩], [.int 7], [.anon]] rs b := by
  have hframes : ∀ frame ∈ [[.compound ⟨⟨0⟩, 3⟩], [.int 7], [.anon]], ∀ x ∈ frame,
      Copy.goal.Owns x := by decide +kernel
  obtain ⟨rs, b, hok, hagree, -⟩ := Session.Reachable.projections_agree reachable_goal
    (List.mem_singleton_self _) Copy.goal_owns hframes
  exact ⟨rs, b, hok, hagree⟩

end TermGraph
