import TermGraph.Proofs.Printing
import TermGraph.Proofs.Refusal

/-!
# Rendering — printing does not fail inside a term

The printer follows the NODE behind a handle, and a reader follows the
KIND of the handle. The two may disagree: a handle of one copy of an arena
may be passed to another copy, where its place was taken by an unrelated
node. So it does not follow from what the readers promise that a printer
which has begun comes to an end; it follows from what the arena promises
about its nodes. Arguments of a compound node resolve, whatever handle led
to the node and however the arguments were come by, and they are older
than the node.

A printer of the host that is asked for a text which is not there ends the
host. Two operations ask without checking: the text of a compound term and
the signature of a goal. `compoundTextOrStop` and `goalSignatureOrStop`
are these operations with the end of the host as an outcome of its own,
and they never have it.

## What is proved

`Session.Reachable.printing_total` — for every handle and every arena that
a host can reach, whatever use it makes of handles.
-/

namespace TermGraph

theorem isSome_mapM {α β : Type} {f : α → Option β} {xs : List α}
    (h : ∀ x ∈ xs, (f x).isSome = true) : (xs.mapM f).isSome = true := by
  induction xs with
  | nil => rfl
  | cons x xs ih =>
    rw [List.forall_mem_cons] at h
    obtain ⟨y, hy⟩ := Option.isSome_iff_exists.mp h.1
    obtain ⟨ys, hys⟩ := Option.isSome_iff_exists.mp (ih h.2)
    rw [List.mapM_cons, hy, hys]
    rfl

namespace Arena

variable {V : Type} {u : Use} {a : Arena V} {t : Term}

/-! ## Texts are there -/

variable [Payload V]

/-- One level of printing succeeds on what has a view and an index, if it
does on the arguments. -/
theorem showStep_isSome {alternate : Bool} {recur : Term → Option String} {v : View V}
    {i : Index} (hview : a.view t = .ok v) (hindex : a.index t = .ok i)
    (hargs : ∀ f ts, v = .compound f ts → ∀ s ∈ ts, (recur s).isSome = true) :
    (a.showStep alternate recur t).isSome = true := by
  rw [showStep, hview]
  cases v with
  | var name =>
    rw [hindex]
    cases alternate <;> rfl
  | compound f ts =>
    cases ts with
    | nil => rfl
    | cons t ts =>
      obtain ⟨shown, hshown⟩ := Option.isSome_iff_exists.mp (isSome_mapM (hargs f _ rfl))
      simp only [hshown, bind, Option.bind, pure, Option.isSome_some]
  | _ => rfl

/-- What is held has a text, in either form. -/
theorem WellFormed.walk_isSome (wf : a.WellFormed u) (alternate : Bool) (t : Term) :
    a.Holds u t → (walk (fun _ => none) (a.showStep alternate) t).isSome = true := by
  refine Term.byHeight (P := fun t =>
    a.Holds u t → (walk (fun _ => none) (a.showStep alternate) t).isSome = true) ?_ t
  intro t ih ht
  obtain ⟨v, hview⟩ := wf.exists_view ht
  obtain ⟨i, hindex⟩ := ht.index
  rw [walk_eq]
  refine showStep_isSome hview hindex fun f ts hv s hs => ?_
  obtain ⟨hheld, hlower⟩ := wf.view_sound (hv ▸ hview) s hs
  rw [if_pos hlower]
  exact ih s hlower hheld

/-- What dangles has none. -/
theorem Dangles.walk_eq_none (h : a.Dangles t) (alternate : Bool) :
    walk (fun _ => none) (a.showStep alternate) t = none := by
  rw [walk_eq, showStep, h.view]

/-- PRINTING FAILS ON WHAT DANGLES AND ON NOTHING ELSE. -/
theorem WellFormed.isSome_walk_eq (wf : a.WellFormed .free) (alternate : Bool) (t : Term) :
    (walk (fun _ => none) (a.showStep alternate) t).isSome = a.resolves t := by
  cases hres : a.resolves t with
  | true => exact wf.walk_isSome alternate t (holds_free hres)
  | false =>
    rw [(dangles_iff.mpr hres).walk_eq_none alternate]
    rfl

theorem WellFormed.text?_isSome (wf : a.WellFormed .free) (t : Term) :
    (a.text? t).isSome = a.resolves t :=
  wf.isSome_walk_eq false t

theorem WellFormed.alternateText?_isSome (wf : a.WellFormed .free) (t : Term) :
    (a.alternateText? t).isSome = a.resolves t :=
  wf.isSome_walk_eq true t

/-! ## The operations that print -/

/-- The text of a term whose node is compound, or `none` where the host
ends, because the text that is asked for is not there. -/
def compoundTextOrStop (a : Arena V) (t : Term) : Option (Except TermError String) :=
  match a.view t with
  | .error e => some (.error e)
  | .ok (.compound _ _) => (a.text? t).map .ok
  | .ok _ => some (.error (.unexpectedKind .compound t.kind))

/-- The signature of a goal, or `none` where the host ends. -/
def goalSignatureOrStop (a : Arena V) (t : Term) : Option (Except TermError String) :=
  if t.isCompound then some (a.signature t)
  else
    match a.verify t with
    | .error e => some (.error e)
    | .ok () => (a.text? t).map fun text => .ok (text ++ "/0")

omit [Payload V] in
/-- What has a view resolves. -/
theorem resolves_of_view {v : View V} (h : a.view t = .ok v) : a.resolves t = true := by
  cases hres : a.resolves t with
  | true => rfl
  | false =>
    rw [(dangles_iff.mpr hres).view] at h
    cases h

/-- Where there is a text, asking for it answers it. -/
theorem text_of_text? {text : String} (h : a.text? t = some text) : a.text t = .ok text := by
  rw [Arena.text, h]

theorem WellFormed.exists_text? (wf : a.WellFormed .free) (h : a.resolves t = true) :
    ∃ text, a.text? t = some text :=
  Option.isSome_iff_exists.mp ((wf.text?_isSome t).trans h)

/-- The text of a compound node is there when it is asked for. -/
theorem WellFormed.compoundTextOrStop_eq (wf : a.WellFormed .free) (t : Term) :
    a.compoundTextOrStop t = some (a.compoundText t) := by
  rw [compoundTextOrStop, compoundText]
  cases hview : a.view t with
  | error e => rfl
  | ok v =>
    cases v with
    | compound f ts =>
      obtain ⟨text, htext⟩ := wf.exists_text? (resolves_of_view hview)
      simp only [htext, text_of_text? htext, Option.map_some, bind, Except.bind]
    | _ => rfl

/-- The text of a goal is there when it is asked for. -/
theorem WellFormed.goalSignatureOrStop_eq (wf : a.WellFormed .free) (t : Term) :
    a.goalSignatureOrStop t = some (a.goalSignature t) := by
  rw [goalSignatureOrStop, goalSignature]
  split
  · rfl
  · cases hres : a.resolves t with
    | false =>
      rw [(dangles_iff.mpr hres).verify]
      rfl
    | true =>
      obtain ⟨text, htext⟩ := wf.exists_text? hres
      rw [(holds_free hres).verify, htext, text_of_text? htext]
      rfl

/-- The handle is a control constant, or the node behind it is compound. -/
def DenotesCompound (a : Arena V) (t : Term) : Prop :=
  (∃ c, t = .control c) ∨
    ∃ r name signature span, t.ref? = some r ∧ a.node? r = some (.compound name signature span)

omit [Payload V] in
/-- These are the handles with a compound view. -/
theorem WellFormed.denotesCompound_iff (wf : a.WellFormed .free) :
    a.DenotesCompound t ↔ ∃ f ts, a.view t = .ok (.compound f ts) := by
  constructor
  · rintro (⟨c, rfl⟩ | ⟨r, name, signature, span, hr, hn⟩)
    · exact ⟨c.name, [], rfl⟩
    · obtain ⟨ts, hview⟩ := wf.view_of_compound hr hn
      exact ⟨name, ts, hview⟩
  · rintro ⟨f, ts, hview⟩
    rcases compound_of_view hview with ⟨c, rfl, -⟩ | ⟨r, signature, span, hr, hn, -⟩
    · exact .inl ⟨c, rfl⟩
    · exact .inr ⟨r, f, signature, span, hr, hn⟩

/-- What a compound text is refused with: the handle, if it does not
resolve, and its kind otherwise. -/
def notCompound (a : Arena V) (t : Term) : TermError :=
  if a.resolves t then .unexpectedKind .compound t.kind else .foreignTerm t

theorem WellFormed.compoundText_of_not (wf : a.WellFormed .free) (h : ¬a.DenotesCompound t) :
    a.compoundText t = .error (a.notCompound t) := by
  rw [wf.denotesCompound_iff] at h
  rw [notCompound, compoundText]
  cases hres : a.resolves t with
  | false =>
    rw [(dangles_iff.mpr hres).view]
    rfl
  | true =>
    obtain ⟨v, hview⟩ := wf.exists_view (holds_free hres)
    rw [hview] at h ⊢
    cases v with
    | compound f ts => exact absurd ⟨f, ts, rfl⟩ h
    | _ => rfl

/-- What is known about printing a handle. -/
structure Prints (a : Arena V) (t : Term) : Prop where
  /-- There is a text if and only if the handle resolves. -/
  text : (a.text? t).isSome = a.resolves t
  /-- There is an alternate text if and only if the handle resolves. -/
  alternateText : (a.alternateText? t).isSome = a.resolves t
  /-- Every argument that is printed inside has texts of its own. -/
  arguments : ∀ f ts, a.view t = .ok (.compound f ts) → ∀ s ∈ ts,
    a.resolves s = true ∧ (a.text? s).isSome = true ∧ (a.alternateText? s).isSome = true
  /-- Asking for the text of a compound term does not end the host. -/
  compoundText_total : a.compoundTextOrStop t = some (a.compoundText t)
  /-- Nor does asking for the signature of a goal. -/
  goalSignature_total : a.goalSignatureOrStop t = some (a.goalSignature t)
  /-- The text of a compound term is its text. -/
  compoundText_ok : a.DenotesCompound t →
    ∃ text, a.text? t = some text ∧ a.compoundText t = .ok text
  /-- Anything else is refused. -/
  compoundText_error : ¬a.DenotesCompound t → a.compoundText t = .error (a.notCompound t)

theorem WellFormed.prints (wf : a.WellFormed .free) (t : Term) : a.Prints t where
  text := wf.text?_isSome t
  alternateText := wf.alternateText?_isSome t
  arguments f ts hview s hs := by
    have hres := (wf.view_sound hview s hs).1.resolves
    exact ⟨hres, (wf.text?_isSome s).trans hres, (wf.alternateText?_isSome s).trans hres⟩
  compoundText_total := wf.compoundTextOrStop_eq t
  goalSignature_total := wf.goalSignatureOrStop_eq t
  compoundText_ok h := by
    obtain ⟨f, ts, hview⟩ := wf.denotesCompound_iff.mp h
    obtain ⟨text, htext⟩ := wf.exists_text? (resolves_of_view hview)
    refine ⟨text, htext, ?_⟩
    rw [compoundText, hview]
    exact text_of_text? htext
  compoundText_error := wf.compoundText_of_not

end Arena

/-- PRINTING NEVER FAILS INSIDE A TERM. On every copy that a host can reach,
however it uses handles, a handle has a text and an alternate text if and
only if it resolves. The operations that print ask for no text that is not
there. -/
theorem Session.Reachable.printing_total {V : Type} [Payload V] {u : Use} {s : Session V}
    (hs : s.Reachable u) {c : Copy V} (hc : c ∈ s.copies) (t : Term) : c.arena.Prints t :=
  (hs.inOrder c hc).1.free.prints t

/-- A variable and a payload for handles of one compound node, in a copy that
made neither. -/
theorem Session.printing_total_parted :
    Copy.parted.arena.Prints (.var ⟨⟨0⟩, 0⟩) ∧ Copy.parted.arena.Prints (.payload ⟨⟨0⟩, 1⟩) ∧
      Copy.parted.arena.text? (.payload ⟨⟨0⟩, 1⟩) = some "f(g(1))" := by
  have hmem : Copy.parted ∈ [Copy.declaring, Copy.parted] :=
    List.mem_cons_of_mem _ (List.mem_singleton_self _)
  exact ⟨Session.Reachable.printing_total reachable_parted hmem _,
    Session.Reachable.printing_total reachable_parted hmem _, by decide +kernel⟩

end TermGraph
