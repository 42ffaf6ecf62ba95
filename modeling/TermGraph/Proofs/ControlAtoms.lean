import TermGraph.Proofs.Factorization
import TermGraph.Proofs.History

/-!
# Control atoms — when the handle is enough

A control constant is a handle, and a solver that meets an atom called `!`,
`true` or `false` would like to know it by the handle. Building by name
sees to it, wherever the name comes from: a compound term without
arguments is never a node if a control constant has its functor, also when
the arguments were taken away from a term that had some.

Text is the exception. A text that is coerced is a plain atom whatever it
says, so `true` as a text and `true` as a truth value are two handles, and
from then on both can stand in terms.

No other operation makes such an atom, and no algorithm makes one out of
something else. A caller who has one got it from a text, here or on
another arena; that is the only way to have a handle which nobody handed
out.

## What is proved

`Session.History.control_atoms` — in every history, an atom called as a
control constant is the constant, or it is the plain atom of that name and
some call read the name as a text. `Session.control_atoms_differ` — so
handles are not enough.
-/

namespace TermGraph

/-- A call read the name of the constant as a text, or was passed the plain
atom of that name, which no copy had handed out. -/
def Control.Spelled {V : Type} (k : Control) (calls : List (Call V)) : Prop :=
  ∃ call ∈ calls, k.name ∈ call.op.texts ∨ call.Forges (.atom k.name)

/-- The names of all control constants but one are allowed for plain atoms;
that one is allowed if it was spelled. -/
def Vocabulary.spelled {V : Type} (k : Control) (calls : List (Call V)) : Vocabulary where
  vars _ := True
  atoms name := name = k.name → k.Spelled calls
  ordinary name hname heq := by
    rw [heq, Control.ofName?_name] at hname
    cases hname

namespace Arena

variable {V : Type} {a : Arena V} {x : Term}

/-- An atom called as a control constant is the constant or a plain atom,
and not a node. -/
theorem WellFormed.control_or_atom (wf : a.WellFormed .documented) {k : Control}
    (hatom : a.isAtom x = true) (hname : a.name x = .ok k.name) :
    x = .control k ∨ x = .atom k.name := by
  cases x with
  | atom name =>
    cases hname
    exact .inr rfl
  | control c => exact .inl (congrArg Term.control (control_eq_of_name (Except.ok.inj hname)))
  | compound r =>
    unfold isAtom at hatom
    cases hargs : a.args (.compound r) with
    | error e => simp only [hargs, Bool.false_eq_true] at hatom
    | ok ts =>
      simp only [hargs, List.isEmpty_iff] at hatom
      subst hatom
      have hfunctor : a.functor (.compound r) = .ok k.name := hname
      exact absurd rfl (wf.control_ne (c := k) (by rw [shell?, hfunctor, hargs]))
  | _ => cases hatom

/-- The name of a control constant, read as a text, is a plain atom in every
arena. -/
theorem ofText_control (a : Arena V) (k : Control) : ofText k.name a = .ok (.atom k.name) a := by
  cases k <;> rfl

end Arena

namespace Session

variable {V : Type} {s : Session V} {calls : List (Call V)} {minted : List String} {c : Copy V}

/-- THE NAME OF A CONTROL CONSTANT GIVES THE CONSTANT, UNLESS IT WAS A TEXT.
In every history of documented use, on every copy: an atom that was handed
out, or that stands under what was handed out, and that is called as a
control constant, is the constant; or it is the plain atom of that name,
and some call read the name as a text. And a text always has that effect,
whatever the arena. -/
theorem History.control_atoms (h : History .documented calls minted s) (hc : c ∈ s.copies)
    (k : Control) :
    (∀ t ∈ c.issued, ∀ x, c.arena.Under t x → c.arena.isAtom x = true →
      c.arena.name x = .ok k.name → x = .control k ∨ x = .atom k.name ∧ k.Spelled calls) ∧
    ∀ a : Arena V, (HostValue.text k.name).toTerm a = .ok (.atom k.name) a := by
  refine ⟨fun t ht x hx hatom hname => ?_, fun a => Arena.ofText_control a k⟩
  have hwithin := h.within (v := .spelled k calls) (fun _ _ => trivial)
    (fun _ _ _ _ => trivial) (fun call hcall text htext heq => ?_)
    (fun call hcall t hforged name heq hname => ?_) c hc
  · refine ((h.inOrder c hc).1.control_or_atom hatom hname).imp_right fun heq => ⟨heq, ?_⟩
    exact hwithin.1.under (hwithin.2 t ht) hx k.name heq rfl
  · exact ⟨call, hcall, .inl (heq ▸ htext)⟩
  · subst heq hname
    exact ⟨call, hcall, .inr hforged⟩

end Session

/-- Every atom called as a control constant is the constant, among what was
handed out and under it. -/
def Copy.ControlsCanonical {V : Type} (c : Copy V) : Prop :=
  ∀ t ∈ c.issued, ∀ x, c.arena.Under t x → c.arena.isAtom x = true →
    ∀ k : Control, c.arena.name x = .ok k.name → x = .control k

/-- The operations that make `true(X)`, take its argument away, and read the
text `true`. -/
def Operation.truths : List (Operation Scalar) :=
  [.declareVar "X" .any, .compound "true" [.var ⟨⟨0⟩, 0⟩], .withArguments (.compound ⟨⟨0⟩, 1⟩) [],
    .coerce (.text "true")]

/-- The copy on which they ran. -/
def Copy.truths : Copy Scalar := ((Copy.blank ⟨0⟩).afterAll {} Operation.truths).1

theorem Session.reachable_truths : Session.Reachable .documented ⟨[Copy.truths], {}⟩ :=
  reachable_alone ⟨0⟩ Operation.truths (by decide +kernel)

/-- Both atoms called `true` in a history: the constant and the plain
atom. -/
theorem Session.control_atoms_sample :
    ∃ calls minted, Session.History .documented calls minted ⟨[Copy.truths], {}⟩ ∧
      ∀ x ∈ [Term.control .yes, .atom "true"],
        x = .control .yes ∨ x = .atom "true" ∧ Control.yes.Spelled calls := by
  obtain ⟨calls, minted, h⟩ := reachable_truths.exists_history
  refine ⟨calls, minted, h, fun x hx => ?_⟩
  have hissued : ∀ x ∈ [Term.control .yes, .atom "true"],
      x ∈ Copy.truths.issued ∧ Copy.truths.arena.isAtom x = true ∧
        Copy.truths.arena.name x = .ok "true" := by decide +kernel
  obtain ⟨hmem, hatom, hname⟩ := hissued x hx
  exact (h.control_atoms (List.mem_singleton_self _) .yes).1 x hmem x (.refl _ x) hatom hname

/-- HANDLES ARE NOT ENOUGH: the text `true` is an atom called `true`, and
not the constant. -/
theorem Session.control_atoms_differ :
    ¬∀ s : Session Scalar, s.Reachable .documented → ∀ c ∈ s.copies, c.ControlsCanonical := by
  intro hclaim
  have hcanonical := hclaim _ reachable_truths _ (List.mem_singleton_self _)
  have heq := hcanonical (.atom "true") (by decide +kernel) _ (.refl _ _) rfl .yes rfl
  cases heq

end TermGraph
