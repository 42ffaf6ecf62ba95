import TermGraph.Proofs.Projections

/-!
# Precedence — which reason a projection of a variable is refused for

A projection of a variable can be refused for four reasons, and many
frames may give one. Which of the reasons is reported, and for which
frame, is a law of its own: the handle comes first, then its index, then
the frames from the first to the last; and a frame that leaves the
variable open, wherever it stands, comes before a value of another type.

`Projects` says that law for values that are terms, and `Reads` for values
of a host type, one constructor for each outcome. What is computed is what
they relate, so the outcome is always one of these, and only one.

## Where the two differ

Reading as a host type looks the NAME up first, as of any term, where the
plain projection looks a variable up. A handle that STRAYS is a variable's
and resolves to a node that is none; as a term it is foreign, and as a
variable it is of an unexpected kind. So a stray handle is refused by
both, for reasons that are worded differently. Only a host that passes
handles between copies of an arena that have parted has such a handle.

## What is proved

`Solutions.projects_in_order` — for every arena, every handle and every
list of frames.
-/

namespace TermGraph

/-- The element at a place is the first of the list with a property. -/
structure FirstAt {α : Type} (P : α → Prop) (xs : List α) (place : Nat) : Prop where
  there : ∃ x, xs[place]? = some x ∧ P x
  before : ∀ j x, j < place → xs[j]? = some x → ¬P x

theorem firstAt_cons {α : Type} {P : α → Prop} {x : α} {xs : List α} {place : Nat} :
    FirstAt P (x :: xs) place ↔
      (place = 0 ∧ P x) ∨ ∃ j, place = j + 1 ∧ ¬P x ∧ FirstAt P xs j := by
  constructor
  · rintro ⟨⟨y, hy, hP⟩, hbefore⟩
    cases place with
    | zero =>
      cases hy
      exact .inl ⟨rfl, hP⟩
    | succ j =>
      refine .inr ⟨j, rfl, hbefore 0 x (Nat.succ_pos j) rfl, ⟨y, hy, hP⟩, fun k z hk hz => ?_⟩
      exact hbefore (k + 1) z (Nat.succ_lt_succ hk) hz
  · rintro (⟨rfl, hP⟩ | ⟨j, rfl, hnot, ⟨y, hy, hP⟩, hbefore⟩)
    · exact ⟨⟨x, rfl, hP⟩, fun j _ hj => absurd hj (Nat.not_lt_zero j)⟩
    · refine ⟨⟨y, hy, hP⟩, fun k z hk hz => ?_⟩
      cases k with
      | zero =>
        cases hz
        exact hnot
      | succ k => exact hbefore k z (Nat.lt_of_succ_lt_succ hk) hz

variable {V : Type}

/-! ## Handles of variables -/

namespace Arena

variable {a : Arena V} {t : Term} {r : Reference}

/-- The handle is a singleton, or that of a variable that resolves to
one. -/
def IsVariable (a : Arena V) (t : Term) : Prop :=
  t = .anon ∨ t = .whole ∨ ∃ found, a.namedVar? t = some found

/-- The handle is that of a variable, and resolves to a node that is
none. -/
def Strays (a : Arena V) (t : Term) : Prop :=
  t.isNamedVar = true ∧ a.resolves t = true ∧ a.namedVar? t = none

/-- What is no variable has no name as one. -/
theorem varName_eq_error_iff {e : TermError} :
    a.varName t = .error e ↔ ¬a.IsVariable t ∧ e = a.notVariable t := by
  unfold varName
  split
  · simp [IsVariable]
  · simp [IsVariable]
  · next hanon hwhole =>
    have hvariable : a.IsVariable t ↔ ∃ found, a.namedVar? t = some found :=
      ⟨fun h => (h.resolve_left hanon).resolve_left hwhole, fun h => .inr (.inr h)⟩
    rw [hvariable]
    cases a.namedVar? t with
    | some found => simp
    | none => simp [eq_comm]

/-- What has a name as a variable has an index. -/
theorem exists_index_of_varName {name : String} (h : a.varName t = .ok name) :
    ∃ i, a.index t = .ok i := by
  cases t with
  | anon => exact ⟨_, rfl⟩
  | whole => exact ⟨_, rfl⟩
  | var r =>
    have hres : a.resolves (.var r) = true := by
      cases hres : a.resolves (.var r) with
      | true => rfl
      | false =>
        rw [(dangles_iff.mpr hres).varName] at h
        cases h
    exact (holds_free hres).index
  | _ => cases h

/-- The handle of a variable that does not stray has one name, as a term
and as a variable. -/
theorem name_of_not_strays (h : ¬a.Strays (.var r)) : a.name (.var r) = a.varName (.var r) := by
  have hres : a.resolves (.var r) = (a.node? r).isSome := rfl
  cases hn : a.node? r with
  | none =>
    have hdangles : a.Dangles (.var r) := dangles_iff.mpr (by rw [hres, hn]; rfl)
    rw [hdangles.name, hdangles.varName]
    rfl
  | some n =>
    cases n with
    | var name type => simp only [Arena.name, varName, namedVar?, node, hn, bind, Except.bind]
    | _ => exact absurd ⟨rfl, by rw [hres, hn]; rfl, by rw [namedVar?, hn]⟩ h

/-- The handle of a variable that strays has no name as a term. -/
theorem Strays.name (h : a.Strays (.var r)) : a.name (.var r) = .error (.foreignTerm (.var r)) := by
  obtain ⟨-, hres, hnone⟩ := h
  obtain ⟨n, hok, hn, -⟩ := (holds_free hres).node rfl
  rw [namedVar?, hn] at hnone
  rw [Arena.name, hok]
  cases n with
  | var _ _ => cases hnone
  | _ => rfl

/-- Under documented use no handle of a variable strays. -/
theorem WellFormed.not_strays (wf : a.WellFormed .documented) (h : a.Permits .documented t) :
    ¬a.Strays t := by
  rintro ⟨hvar, hres, hnone⟩
  cases t with
  | var r =>
    obtain ⟨name, type, hname, -⟩ := wf.named (h.holds hres)
    rw [hname] at hnone
    cases hnone
  | _ => cases hvar

end Arena

namespace Solutions

variable {α β ε : Type} {a : Arena V} {s : Solutions} {t : Term} {r : Reference} {place : Nat}
  {frame : List Term} {frames : List (List Term)}

/-! ## Frames, one after another -/

/-- Some element has no value, and the first one is reported. -/
theorem readEach_eq_error_iff {value : β → Option α} {fault : Nat → ε} {start : Nat} {xs : List β}
    {e : ε} : readEach value fault start xs = .error e ↔
      ∃ i, FirstAt (value · = none) xs i ∧ e = fault (start + i) := by
  induction xs generalizing start with
  | nil => exact ⟨fun h => (by cases h), fun ⟨_, ⟨⟨_, h, _⟩, _⟩, _⟩ => (by cases h)⟩
  | cons x xs ih =>
    rw [readEach]
    simp only [firstAt_cons]
    cases hx : value x with
    | none =>
      constructor
      · intro h
        cases h
        exact ⟨0, .inl ⟨rfl, rfl⟩, rfl⟩
      · rintro ⟨_, ⟨rfl, -⟩ | ⟨_, _, hnot, -⟩, rfl⟩
        · rfl
        · exact absurd rfl hnot
    | some y =>
      have hstep : (do return y :: (← readEach value fault (start + 1) xs)) = .error e ↔
          readEach value fault (start + 1) xs = .error e := by
        cases readEach value fault (start + 1) xs with
        | error _ => exact ⟨fun h => (by cases h; rfl), fun h => (by cases h; rfl)⟩
        | ok _ => exact ⟨fun h => (by cases h), fun h => (by cases h)⟩
      rw [hstep, ih]
      constructor
      · rintro ⟨i, hfirst, rfl⟩
        exact ⟨i + 1, .inr ⟨i, rfl, fun h => (by cases h), hfirst⟩, by rw [Nat.add_right_comm]; rfl⟩
      · rintro ⟨_, ⟨rfl, h⟩ | ⟨i, rfl, -, hfirst⟩, rfl⟩
        · cases h
        · exact ⟨i, hfirst, by rw [Nat.add_right_comm]; rfl⟩

/-- The frame has no such place, or holds a variable there. -/
def LeavesOpen (place : Nat) (frame : List Term) : Prop :=
  ∀ x, frame[place]? = some x → x.isVar = true

/-- The frame holds the term at the place, and it is no variable. -/
def Binds (place : Nat) (frame : List Term) (x : Term) : Prop :=
  frame[place]? = some x ∧ x.isVar = false

theorem boundIn?_eq_some_iff {x : Term} :
    Arena.boundIn? frame (.assigned place) = some x ↔ Binds place frame x := by
  simp [Arena.boundIn?_eq_some_iff, Binds]

theorem boundIn?_eq_none_iff :
    Arena.boundIn? frame (.assigned place) = none ↔ LeavesOpen place frame := by
  simp only [Option.eq_none_iff_forall_ne_some, ne_eq, boundIn?_eq_some_iff, Binds, LeavesOpen,
    not_and, Bool.not_eq_false]

/-- Every frame binds the place, and these are the values. -/
theorem readBound_eq_ok_iff {fault : Nat → ε} {start : Nat} {found : List Term} :
    readEach (Arena.boundIn? · (.assigned place)) fault start frames = .ok found ↔
      List.Forall₂ (Binds place) frames found := by
  rw [readEach_eq_ok_iff]
  simp only [boundIn?_eq_some_iff]

/-- Some frame leaves the place open, and the first one is reported. -/
theorem readBound_eq_error_iff {fault : Nat → ε} {start : Nat} {e : ε} :
    readEach (Arena.boundIn? · (.assigned place)) fault start frames = .error e ↔
      ∃ i, FirstAt (LeavesOpen place) frames i ∧ e = fault (start + i) := by
  rw [readEach_eq_error_iff]
  simp only [boundIn?_eq_none_iff]

/-- A variable with a place is looked up in every frame. -/
theorem term_of_place {name : String} (hname : a.varName t = .ok name)
    (hindex : a.index t = .ok (.assigned place)) :
    s.term a t = readEach (Arena.boundIn? · (.assigned place)) (ResultsError.unboundVar name) 0
      s.frames >>= fun found => .ok ⟨found⟩ :=
  term_eq hname hindex

/-- What is no variable is refused as such. -/
theorem term_of_no_variable {e : TermError} (h : a.varName t = .error e) :
    s.term a t = .error (.term e) := by
  rw [term, h]
  rfl

/-- WHAT THE PROJECTION OF A VARIABLE ANSWERS, in the order in which reasons
to refuse it are looked for. -/
inductive Projects (a : Arena V) (frames : List (List Term)) (t : Term) :
    Except ResultsError (Results Term) → Prop
  /-- The handle is no variable. -/
  | noVariable {e : TermError} (h : a.varName t = .error e) : Projects a frames t (.error (.term e))
  /-- The variable has no place in frames. -/
  | noPlace {name : String} {i : Index} (hname : a.varName t = .ok name)
    (hindex : a.index t = .ok i) (h : i.place? = none) :
    Projects a frames t (.error (.notIndexed name))
  /-- A solution does not bind the variable, and no earlier one does not. -/
  | unbound {name : String} {place solution : Nat} (hname : a.varName t = .ok name)
    (hindex : a.index t = .ok (.assigned place)) (h : FirstAt (LeavesOpen place) frames solution) :
    Projects a frames t (.error (.unboundVar name solution))
  /-- Every solution binds the variable, and these are the values. -/
  | values {name : String} {place : Nat} {found : List Term} (hname : a.varName t = .ok name)
    (hindex : a.index t = .ok (.assigned place)) (h : List.Forall₂ (Binds place) frames found) :
    Projects a frames t (.ok ⟨found⟩)

theorem term_projects (s : Solutions) (a : Arena V) (t : Term) :
    Projects a s.frames t (s.term a t) := by
  cases hname : a.varName t with
  | error e =>
    rw [term_of_no_variable hname]
    exact .noVariable hname
  | ok name =>
    obtain ⟨i, hindex⟩ := Arena.exists_index_of_varName hname
    cases i with
    | unassigned | anonymous =>
      rw [term_eq hname hindex]
      exact .noPlace hname hindex rfl
    | assigned place =>
      rw [term_of_place hname hindex]
      cases hread : readEach (Arena.boundIn? · (.assigned place)) (ResultsError.unboundVar name)
          0 s.frames with
      | ok found => exact .values hname hindex (readBound_eq_ok_iff.mp hread)
      | error e =>
        obtain ⟨solution, hfirst, rfl⟩ := readBound_eq_error_iff.mp hread
        rw [Nat.zero_add]
        exact .unbound hname hindex hfirst

theorem Projects.eq {answer : Except ResultsError (Results Term)}
    (h : Projects a s.frames t answer) : s.term a t = answer := by
  cases h with
  | noVariable h => exact term_of_no_variable h
  | noPlace hname hindex h =>
    rw [term_eq hname hindex, h]
    rfl
  | unbound hname hindex h =>
    rw [term_of_place hname hindex,
      readBound_eq_error_iff.mpr ⟨_, h, by rw [Nat.zero_add]⟩]
    rfl
  | values hname hindex h =>
    rw [term_of_place hname hindex, readBound_eq_ok_iff.mpr h]
    rfl

/-- The projection answers what it should, and nothing else. -/
theorem term_eq_iff {answer : Except ResultsError (Results Term)} :
    s.term a t = answer ↔ Projects a s.frames t answer :=
  ⟨fun h => h ▸ term_projects s a t, Projects.eq⟩

/-! ## Values of a host type -/

variable [HostType α]

/-- WHAT THE PROJECTION OF A TYPED VARIABLE ANSWERS. All reasons that the
projection of the variable is refused for come first. -/
inductive Reads (α : Type) [HostType α] (a : Arena V) (frames : List (List Term)) (t : Term) :
    Except ResultsError (Results α) → Prop
  /-- The handle strays. -/
  | strayed (h : a.Strays t) : Reads α a frames t (.error (.term (.foreignTerm t)))
  /-- The variable cannot be projected. -/
  | refused {e : ResultsError} (hstrays : ¬a.Strays t) (h : Projects a frames t (.error e)) :
    Reads α a frames t (.error e)
  /-- A value is of another type, and no earlier one is. -/
  | mismatch {name : String} {found : List Term} {solution : Nat} (hname : a.varName t = .ok name)
    (hfound : Projects a frames t (.ok ⟨found⟩))
    (h : FirstAt (fun x => (HostType.ofTerm? a x : Option α) = none) found solution) :
    Reads α a frames t (.error (.typeMismatch name solution (HostType.type α)))
  /-- All values are of the type, and these are they. -/
  | values {found : List Term} {values : List α} (hfound : Projects a frames t (.ok ⟨found⟩))
    (h : List.Forall₂ (HostType.ofTerm? a · = some ·) found values) :
    Reads α a frames t (.ok ⟨values⟩)

/-- A handle that strays is foreign. -/
theorem values_of_strays (h : a.Strays (.var r)) :
    s.values a (⟨.var r⟩ : TypedVar α) = .error (.term (.foreignTerm (.var r))) := by
  rw [Solutions.values, TypedVar.name, h.name]
  rfl

/-- Any other is refused for the reason that its projection is. -/
theorem values_of_term_error (hstrays : ¬a.Strays (.var r)) {e : ResultsError}
    (h : s.term a (.var r) = .error e) : s.values a (⟨.var r⟩ : TypedVar α) = .error e := by
  rw [Solutions.values, TypedVar.name, Arena.name_of_not_strays hstrays]
  cases hname : a.varName (.var r) with
  | error e' =>
    rw [term_of_no_variable hname] at h
    cases h
    rfl
  | ok name =>
    rw [h]
    rfl

/-- Once it is projected, its values are read. -/
theorem values_of_term_ok {name : String} (hname : a.varName (.var r) = .ok name)
    {found : Results Term} (h : s.term a (.var r) = .ok found) :
    s.values a (⟨.var r⟩ : TypedVar α) =
      readEach (HostType.ofTerm? a) (ResultsError.typeMismatch name · (HostType.type α)) 0
        found.toList >>= fun values => .ok ⟨values⟩ := by
  have hstrays : ¬a.Strays (.var r) := by
    rintro ⟨-, -, hnone⟩
    simp only [Arena.varName, hnone, reduceCtorEq] at hname
  rw [Solutions.values, TypedVar.name, Arena.name_of_not_strays hstrays, hname, h]
  rfl

/-- A variable that is projected has a name. -/
theorem Projects.exists_name {found : Results Term} (h : Projects a frames t (.ok found)) :
    ∃ name, a.varName t = .ok name := by
  cases h with
  | values hname _ _ => exact ⟨_, hname⟩

theorem values_reads (s : Solutions) (a : Arena V) (r : Reference) :
    Reads α a s.frames (.var r) (s.values a ⟨.var r⟩) := by
  by_cases hstrays : a.Strays (.var r)
  · rw [values_of_strays hstrays]
    exact .strayed hstrays
  have hprojects := term_projects s a (.var r)
  cases hfound : s.term a (.var r) with
  | error e =>
    rw [values_of_term_error hstrays hfound]
    exact .refused hstrays (hfound ▸ hprojects)
  | ok found =>
    rw [hfound] at hprojects
    obtain ⟨name, hname⟩ := hprojects.exists_name
    rw [values_of_term_ok hname hfound]
    cases hread : readEach (HostType.ofTerm? a : Term → Option α)
        (ResultsError.typeMismatch name · (HostType.type α)) 0 found.toList with
    | ok values => exact .values hprojects (readEach_eq_ok_iff.mp hread)
    | error e =>
      obtain ⟨solution, hfirst, rfl⟩ := readEach_eq_error_iff.mp hread
      rw [Nat.zero_add]
      exact .mismatch hname hprojects hfirst

theorem Reads.eq {answer : Except ResultsError (Results α)}
    (h : Reads α a s.frames (.var r) answer) : s.values a (⟨.var r⟩ : TypedVar α) = answer := by
  cases h with
  | strayed h => exact values_of_strays h
  | refused hstrays h => exact values_of_term_error hstrays h.eq
  | @mismatch name found solution hname hfound h =>
    have hread : readEach (HostType.ofTerm? a : Term → Option α)
        (ResultsError.typeMismatch name · (HostType.type α)) 0 found =
          .error (.typeMismatch name solution (HostType.type α)) :=
      readEach_eq_error_iff.mpr ⟨solution, h, by rw [Nat.zero_add]⟩
    rw [values_of_term_ok hname hfound.eq, hread]
    rfl
  | values hfound h =>
    obtain ⟨name, hname⟩ := hfound.exists_name
    rw [values_of_term_ok hname hfound.eq, readEach_eq_ok_iff.mpr h]
    rfl

/-- So does the projection of a typed variable. -/
theorem values_eq_iff {answer : Except ResultsError (Results α)} :
    s.values a ⟨.var r⟩ = answer ↔ Reads α a s.frames (.var r) answer :=
  ⟨fun h => h ▸ values_reads s a r, Reads.eq⟩

/-- What is known about projecting variables of an arena from solutions. -/
structure ProjectsInOrder (s : Solutions) (a : Arena V) : Prop where
  /-- A projection answers what is said above. -/
  term : ∀ t answer, s.term a t = answer ↔ Projects a s.frames t answer
  /-- The name of a variable fails exactly on what is none. -/
  noVariable : ∀ t, (∃ e, a.varName t = .error e) ↔ ¬a.IsVariable t
  /-- The singletons have no place. -/
  anon : s.term a .anon = .error (.notIndexed "_")
  whole : s.term a .whole = .error (.notIndexed ".")
  /-- A projection of a typed variable answers what is said above. -/
  values : ∀ (α : Type) [HostType α] (r : Reference) (answer : Except ResultsError (Results α)),
    s.values a ⟨.var r⟩ = answer ↔ Reads α a s.frames (.var r) answer
  /-- Handles that may be passed to a copy under documented use do not
  stray. -/
  documented : ∀ (session : Session V) (c : Copy V), session.Reachable .documented →
    c ∈ session.copies → c.arena = a → ∀ t, c.Admits .documented t → ¬a.Strays t

/-- PROJECTIONS ARE REFUSED IN ORDER. -/
theorem projects_in_order (s : Solutions) (a : Arena V) : s.ProjectsInOrder a where
  term _ _ := term_eq_iff
  noVariable t := by
    simp only [Arena.varName_eq_error_iff, exists_and_left, exists_eq, and_true]
  anon := rfl
  whole := rfl
  values _ _ _ _ := values_eq_iff
  documented session c hs hc harena t ht := by
    subst harena
    have horder := hs.inOrder c hc
    exact horder.1.not_strays (horder.permits ht)

end Solutions

/-- A handle from the one copy strays in the other. There the projection of
the variable is refused for the kind of the handle, and the projection of the
typed variable, which should be refused for the same reason, because the
handle is foreign. -/
theorem Session.projections_part :
    Session.Reachable .free ⟨[Copy.declaring, Copy.parted], {}⟩ ∧
      Term.var ⟨⟨0⟩, 0⟩ ∈ Copy.declaring.issued ∧
      Copy.parted.arena.varName (.var ⟨⟨0⟩, 0⟩) = .error (.unexpectedKind .var .var) ∧
      Solutions.term ⟨none, []⟩ Copy.parted.arena (.var ⟨⟨0⟩, 0⟩) =
        .error (.term (.unexpectedKind .var .var)) ∧
      Solutions.values ⟨none, []⟩ Copy.parted.arena (⟨.var ⟨⟨0⟩, 0⟩⟩ : TypedVar Int64) ≠
        .error (.term (.unexpectedKind .var .var)) := by
  have hforeign : Solutions.values ⟨none, []⟩ Copy.parted.arena
      (⟨.var ⟨⟨0⟩, 0⟩⟩ : TypedVar Int64) = .error (.term (.foreignTerm (.var ⟨⟨0⟩, 0⟩))) := rfl
  refine ⟨reachable_parted, by decide +kernel, rfl, rfl, ?_⟩
  rw [hforeign]
  exact fun h => by cases h

end TermGraph
