import Mathlib.Data.List.Forall2
import TermGraph.Arena.Descent

/-!
# Outcomes — what a computation guarantees, however it ends

A computation of this library ends with an answer or with an error, and in
both cases it leaves a state behind. `Ensures` says what holds of each of
the two endings. One notion serves two purposes:

- SAFETY: the state is in order after an error too, so both conditions are
  the same invariant;
- SUCCESS: the condition on errors is `False`, so there is an answer.

Each way of putting computations together has one law: one after another,
and along a list. The laws for lists are the inductions of all traversals;
a traversal states what one element does and no more. `Concludes` is the
same with the error at hand, for computations that pass on errors of the
host.

`Keeps` is about all states for which a condition holds: the computation
keeps it, and its answers meet a condition of their own.
-/

namespace TermGraph

variable {ε σ α β γ : Type}

/-- An element of the second list has a partner in the first. -/
theorem exists_of_forall₂ {α β : Type} {R : α → β → Prop} {xs : List α} {ys : List β}
    (h : List.Forall₂ R xs ys) {y : β} (hy : y ∈ ys) : ∃ x ∈ xs, R x y := by
  induction h with
  | nil => cases hy
  | cons hxy _ ih =>
    rcases List.mem_cons.mp hy with rfl | hy
    · exact ⟨_, List.mem_cons_self, hxy⟩
    · obtain ⟨x, hx, hxy⟩ := ih hy
      exact ⟨x, List.mem_cons_of_mem _ hx, hxy⟩

/-- Partners stand at the same place. -/
theorem exists_getElem?_of_forall₂ {α β : Type} {R : α → β → Prop} {xs : List α} {ys : List β}
    (h : List.Forall₂ R xs ys) {i : Nat} {x : α} (hx : xs[i]? = some x) :
    ∃ y, ys[i]? = some y ∧ R x y := by
  induction h generalizing i with
  | nil => cases hx
  | cons hxy _ ih =>
    cases i with
    | zero =>
      cases hx
      exact ⟨_, rfl, hxy⟩
    | succ i => exact ih hx

/-- Lists of one length are partners if what stands at the same place is. -/
theorem forall₂_iff_getElem? {α β : Type} {R : α → β → Prop} {xs : List α} {ys : List β} :
    List.Forall₂ R xs ys ↔ xs.length = ys.length ∧
      ∀ (i : Nat) (x : α) (y : β), xs[i]? = some x → ys[i]? = some y → R x y := by
  constructor
  · intro h
    refine ⟨h.length_eq, fun i x y hx hy => ?_⟩
    obtain ⟨y', hy', hxy⟩ := exists_getElem?_of_forall₂ h hx
    rw [hy] at hy'
    cases hy'
    exact hxy
  · rintro ⟨hlen, hall⟩
    exact List.forall₂_iff_get.mpr ⟨hlen, fun i hi hi' =>
      hall i _ _ (List.getElem?_eq_getElem hi) (List.getElem?_eq_getElem hi')⟩

/-- A list has partners as soon as every element has one. -/
theorem exists_forall₂ {α β : Type} {R : α → β → Prop} {xs : List α} (h : ∀ x ∈ xs, ∃ y, R x y) :
    ∃ ys, List.Forall₂ R xs ys := by
  induction xs with
  | nil => exact ⟨[], .nil⟩
  | cons x xs ih =>
    obtain ⟨y, hy⟩ := h x List.mem_cons_self
    obtain ⟨ys, hys⟩ := ih fun z hz => h z (List.mem_cons_of_mem x hz)
    exact ⟨y :: ys, .cons hy hys⟩

/-- The computation, started in `s`, ends with an answer for which `P`
holds or with an error for which `B` holds. -/
def Ensures (m : EStateM ε σ α) (s : σ) (P : α → σ → Prop) (B : σ → Prop) : Prop :=
  match m s with
  | .ok x s' => P x s'
  | .error _ s' => B s'

/-- The elements of a list are related to the elements of another one, each
in the state that the one before has left. -/
inductive Threaded (R : σ → α → β → σ → Prop) : σ → List α → List β → σ → Prop
  | nil (s : σ) : Threaded R s [] [] s
  | cons {s s₁ s₂ : σ} {x : α} {y : β} {xs : List α} {ys : List β} (head : R s x y s₁)
    (tail : Threaded R s₁ xs ys s₂) : Threaded R s (x :: xs) (y :: ys) s₂

/-- The relation may be one between what is seen of the states. -/
theorem Threaded.map {τ : Type} {R : σ → α → β → σ → Prop} {S : τ → α → β → τ → Prop}
    {g : σ → τ} (hRS : ∀ s x y s', R s x y s' → S (g s) x y (g s')) {s s' : σ}
    {xs : List α} {ys : List β} (h : Threaded R s xs ys s') :
    Threaded S (g s) xs ys (g s') := by
  induction h with
  | nil s => exact .nil (g s)
  | cons head _ ih => exact .cons (hRS _ _ _ _ head) ih

/-- What each step keeps is kept. -/
theorem Threaded.keeps {R : σ → α → β → σ → Prop} {I : σ → Prop} {s s' : σ} {xs : List α}
    {ys : List β} (h : Threaded R s xs ys s')
    (hR : ∀ x ∈ xs, ∀ s y s', I s → R s x y s' → I s') (hs : I s) : I s' := by
  induction h with
  | nil s => exact hs
  | cons head _ ih =>
    refine ih (fun x hx => hR x (List.mem_cons_of_mem _ hx)) ?_
    exact hR _ List.mem_cons_self _ _ _ hs head

/-- Two steps answer if the first one does, and the second one after it. -/
theorem bind_eq_ok_iff {m : Except ε α} {f : α → Except ε β} {y : β} :
    m >>= f = .ok y ↔ ∃ x, m = .ok x ∧ f x = .ok y := by
  cases m with
  | error e => exact ⟨fun h => (by cases h), fun ⟨_, h, _⟩ => (by cases h)⟩
  | ok x =>
    refine ⟨fun h => ⟨x, rfl, h⟩, fun ⟨x', h, hy⟩ => ?_⟩
    cases h
    exact hy

/-- Reading the state hands it on. -/
theorem bind_get (f : σ → EStateM ε σ β) (s : σ) : (get >>= f) s = f s s := rfl

/-- A computation that answers hands its answer on. -/
theorem bind_of_ok {m : EStateM ε σ α} {f : α → EStateM ε σ β} {s s' : σ} {x : α}
    (h : m s = .ok x s') : (m >>= f) s = f x s' := by
  show EStateM.bind m f s = _
  rw [EStateM.bind, h]

/-- A computation that fails ends what it begins. -/
theorem bind_of_error {m : EStateM ε σ α} {f : α → EStateM ε σ β} {s s' : σ} {e : ε}
    (h : m s = .error e s') : (m >>= f) s = .error e s' := by
  show EStateM.bind m f s = _
  rw [EStateM.bind, h]

namespace Ensures

variable {m : EStateM ε σ α} {s : σ} {P P' : α → σ → Prop} {B B' : σ → Prop}

theorem of_ok {x : α} {s' : σ} (h : m s = .ok x s') (hx : P x s') : Ensures m s P B := by
  rw [Ensures, h]
  exact hx

theorem of_error {e : ε} {s' : σ} (h : m s = .error e s') (hs : B s') :
    Ensures m s P B := by
  rw [Ensures, h]
  exact hs

/-- A computation that cannot fail answers. -/
theorem exists_ok (h : Ensures m s P fun _ => False) : ∃ x s', m s = .ok x s' ∧ P x s' := by
  unfold Ensures at h
  split at h
  · next x s' heq => exact ⟨x, s', heq, h⟩
  · exact h.elim

/-- An answer meets the condition on answers. -/
theorem of_answer (h : Ensures m s P B) {x : α} {s' : σ} (heq : m s = .ok x s') :
    P x s' := by
  rw [Ensures, heq] at h
  exact h

/-- The state left by an error meets the condition on errors. -/
theorem of_failure (h : Ensures m s P B) {e : ε} {s' : σ} (heq : m s = .error e s') :
    B s' := by
  rw [Ensures, heq] at h
  exact h

theorem mono (h : Ensures m s P B) (hgood : ∀ x s', P x s' → P' x s')
    (hbad : ∀ s', B s' → B' s') : Ensures m s P' B' := by
  unfold Ensures at h ⊢
  split
  · next x s' heq => exact hgood x s' (by rw [heq] at h; exact h)
  · next e s' heq => exact hbad s' (by rw [heq] at h; exact h)

/-- What is ensured twice is ensured together. -/
theorem and (h : Ensures m s P B) (k : Ensures m s P' B') :
    Ensures m s (fun x s' => P x s' ∧ P' x s') (fun s' => B s' ∧ B' s') := by
  unfold Ensures at h k ⊢
  split
  · next x s' heq =>
    rw [heq] at h k
    exact ⟨h, k⟩
  · next e s' heq =>
    rw [heq] at h k
    exact ⟨h, k⟩

theorem answer {x : α} (h : P x s) : Ensures (pure x : EStateM ε σ α) s P B := h

theorem refusal {e : ε} (h : B s) : Ensures (throw e : EStateM ε σ α) s P B := h

/-- One computation after another: the second starts where the first
answered. -/
theorem bind {f : α → EStateM ε σ β} {after : β → σ → Prop} (h : Ensures m s P B)
    (hf : ∀ x s', P x s' → Ensures (f x) s' after B) : Ensures (m >>= f) s after B := by
  show match EStateM.bind m f s with
    | .ok x s' => after x s'
    | .error _ s' => B s'
  unfold EStateM.bind
  cases heq : m s with
  | ok x s' =>
    rw [Ensures, heq] at h
    exact hf x s' h
  | error e s' =>
    rw [Ensures, heq] at h
    exact h

/-- A computation that answers `x` in `s'` runs what follows from there. -/
theorem bind_ok {f : α → EStateM ε σ β} {after : β → σ → Prop} {x : α} {y : σ}
    (h : m s = .ok x y) (hf : Ensures (f x) y after B) : Ensures (m >>= f) s after B :=
  bind (P := fun x' s' => x' = x ∧ s' = y) (of_ok h ⟨rfl, rfl⟩) (by
    intro _ _ hend
    obtain ⟨rfl, rfl⟩ := hend
    exact hf)

/-! ## Along a list -/

/-- A computation for each element, from left to right: the invariant is
indexed by the elements that are done. -/
theorem forM {f : α → EStateM ε σ PUnit} {I : List α → σ → Prop} (xs : List α)
    (hf : ∀ done x, (∃ rest, xs = done ++ x :: rest) → ∀ s, I done s →
      Ensures (f x) s (fun _ s' => I (done ++ [x]) s') B)
    (h : I [] s) : Ensures (xs.forM f) s (fun _ s' => I xs s') B := by
  suffices ∀ rest done s, xs = done ++ rest → I done s →
      Ensures (rest.forM f) s (fun _ s' => I xs s') B from this xs [] s rfl h
  intro rest
  induction rest with
  | nil =>
    intro done s hxs hinv
    rw [List.append_nil] at hxs
    exact answer (hxs ▸ hinv)
  | cons x rest ih =>
    intro done s hxs hinv
    apply bind (hf done x ⟨rest, hxs⟩ s hinv)
    intro _ s' hinv'
    exact ih (done ++ [x]) s' (by rw [hxs, List.append_assoc, List.singleton_append]) hinv'

/-- The same for a fold: the invariant speaks of the value carried along
too. -/
theorem foldlM {f : γ → α → EStateM ε σ γ} {I : List α → γ → σ → Prop} (xs : List α) {c : γ}
    (hf : ∀ done x, (∃ rest, xs = done ++ x :: rest) → ∀ c s, I done c s →
      Ensures (f c x) s (fun c' s' => I (done ++ [x]) c' s') B)
    (h : I [] c s) : Ensures (xs.foldlM f c) s (fun c' s' => I xs c' s') B := by
  suffices ∀ rest done c s, xs = done ++ rest → I done c s →
      Ensures (rest.foldlM f c) s (fun c' s' => I xs c' s') B from this xs [] c s rfl h
  intro rest
  induction rest with
  | nil =>
    intro done c s hxs hinv
    rw [List.append_nil] at hxs
    exact answer (hxs ▸ hinv)
  | cons x rest ih =>
    intro done c s hxs hinv
    rw [List.foldlM_cons]
    apply bind (hf done x ⟨rest, hxs⟩ c s hinv)
    intro c' s' hinv'
    exact ih (done ++ [x]) c' s' (by rw [hxs, List.append_assoc, List.singleton_append]) hinv'

/-- A computation for each element, with the answers in a list. Every step
keeps the invariant and only lets the state grow; what relates an element
to its answer must survive growth. -/
theorem mapM {f : α → EStateM ε σ β} {I : σ → Prop} {G : σ → σ → Prop}
    {R : α → β → σ → Prop} (refl : ∀ s, G s s)
    (trans : ∀ {s₁ s₂ s₃}, I s₂ → G s₁ s₂ → G s₂ s₃ → G s₁ s₃)
    (stable : ∀ {x y s s'}, I s → I s' → G s s' → R x y s → R x y s') (xs : List α)
    (hf : ∀ x ∈ xs, ∀ s, I s →
      Ensures (f x) s (fun y s' => I s' ∧ G s s' ∧ R x y s') B) :
    ∀ s, I s →
      Ensures (xs.mapM f) s
        (fun ys s' => I s' ∧ G s s' ∧ List.Forall₂ (R · · s') xs ys) B := by
  induction xs with
  | nil =>
    intro s hinv
    exact answer ⟨hinv, refl s, .nil⟩
  | cons x xs ih =>
    intro s hinv
    rw [List.mapM_cons]
    apply bind (hf x List.mem_cons_self s hinv)
    intro y s₁ hend
    obtain ⟨hinv₁, hgrow₁, hrel⟩ := hend
    apply bind (ih (fun z hz => hf z (List.mem_cons_of_mem x hz)) s₁ hinv₁)
    intro ys s₂ hend
    obtain ⟨hinv₂, hgrow₂, hrels⟩ := hend
    exact answer ⟨hinv₂, trans hinv₁ hgrow₁ hgrow₂, .cons (stable hinv₁ hinv₂ hgrow₂ hrel) hrels⟩

/-- The same, where an element and its answer are related to the states
before and after. -/
theorem mapM_threaded {f : α → EStateM ε σ β} {I : σ → Prop} {R : σ → α → β → σ → Prop}
    (xs : List α)
    (hf : ∀ x ∈ xs, ∀ s, I s → Ensures (f x) s (fun y s' => I s' ∧ R s x y s') B) :
    ∀ s, I s → Ensures (xs.mapM f) s (fun ys s' => I s' ∧ Threaded R s xs ys s') B := by
  induction xs with
  | nil =>
    intro s hinv
    exact answer ⟨hinv, .nil s⟩
  | cons x xs ih =>
    intro s hinv
    rw [List.mapM_cons]
    apply bind (hf x List.mem_cons_self s hinv)
    intro y s₁ hend
    obtain ⟨hinv₁, hrel⟩ := hend
    apply bind (ih (fun z hz => hf z (List.mem_cons_of_mem x hz)) s₁ hinv₁)
    intro ys s₂ hend
    obtain ⟨hinv₂, hrels⟩ := hend
    exact answer ⟨hinv₂, .cons hrel hrels⟩

end Ensures

/-! ## Which error -/

/-- As `Ensures`, with the error at hand: the computation, started in `s`,
ends with an answer for which `P` holds or with an error for which `B`
holds. -/
def Concludes (m : EStateM ε σ α) (s : σ) (P : α → σ → Prop) (B : ε → σ → Prop) : Prop :=
  match m s with
  | .ok x s' => P x s'
  | .error e s' => B e s'

namespace Concludes

variable {m : EStateM ε σ α} {s s' : σ} {P P' : α → σ → Prop} {B C : ε → σ → Prop}

theorem of_ok {x : α} (h : m s = .ok x s') (hx : P x s') : Concludes m s P B := by
  rw [Concludes, h]
  exact hx

theorem of_error {e : ε} (h : m s = .error e s') (he : B e s') : Concludes m s P B := by
  rw [Concludes, h]
  exact he

theorem mono (h : Concludes m s P B) (hgood : ∀ x s', P x s' → P' x s')
    (hbad : ∀ e s', B e s' → C e s') : Concludes m s P' C := by
  unfold Concludes at h ⊢
  split
  · next x s' hok => exact hgood x s' (by rwa [hok] at h)
  · next e s' herror => exact hbad e s' (by rwa [herror] at h)

/-- One computation after another. An error of the first is the error of
both. -/
theorem bind {f : α → EStateM ε σ β} {Q : β → σ → Prop} (h : Concludes m s P B)
    (hB : ∀ e s', B e s' → C e s') (hf : ∀ x s', P x s' → Concludes (f x) s' Q C) :
    Concludes (m >>= f) s Q C := by
  unfold Concludes at h
  split at h
  · next x s' hok =>
    rw [Concludes, bind_of_ok hok]
    exact hf x s' h
  · next e s' herror =>
    rw [Concludes, bind_of_error herror]
    exact hB e s' h

/-- A computation that answers runs what follows from there. -/
theorem bind_ok {f : α → EStateM ε σ β} {Q : β → σ → Prop} {x : α} (h : m s = .ok x s')
    (hf : Concludes (f x) s' Q C) : Concludes (m >>= f) s Q C := by
  rw [Concludes, bind_of_ok h]
  exact hf

end Concludes

/-! ## Conditions that are kept -/

/-- From every state in which `I` holds the computation ends in one where
`I` holds, and an answer meets `Q`. -/
def Keeps (I : σ → Prop) (Q : α → Prop) (m : EStateM ε σ α) : Prop :=
  ∀ s, I s → Ensures m s (fun x s' => I s' ∧ Q x) I

namespace Keeps

variable {I : σ → Prop} {Q Q' : α → Prop} {R : β → Prop} {m : EStateM ε σ α}

theorem answer {x : α} (h : Q x) : Keeps I Q (pure x : EStateM ε σ α) :=
  fun _ hs => Ensures.answer ⟨hs, h⟩

theorem refusal {e : ε} : Keeps I Q (throw e : EStateM ε σ α) :=
  fun _ hs => Ensures.refusal hs

theorem mono (h : Keeps I Q m) (hQ : ∀ x, Q x → Q' x) : Keeps I Q' m :=
  fun s hs => (h s hs).mono (fun _ _ hx => ⟨hx.1, hQ _ hx.2⟩) fun _ h => h

theorem bind {f : α → EStateM ε σ β} (h : Keeps I Q m) (hf : ∀ x, Q x → Keeps I R (f x)) :
    Keeps I R (m >>= f) :=
  fun s hs => (h s hs).bind fun x s' hx => hf x hx.2 s' hx.1

/-- What reads the state may use that `I` holds of it. -/
theorem get {f : σ → EStateM ε σ β} (h : ∀ s, I s → Keeps I R (f s)) :
    Keeps I R (MonadStateOf.get >>= f) := by
  intro s hs
  show Ensures (f s) s _ _
  exact h s hs s hs

end Keeps

/-! ## Reading and carrying -/

section Workspace

variable {V : Type}

/-- A reader answers and changes nothing. -/
theorem Arena.look_of_ok {f : Arena V → Except TermError α} {a : Arena V} {x : α}
    (h : f a = .ok x) : Arena.look f a = .ok x a := by
  rw [Arena.look, h]

/-- A reader that fails changes nothing either. -/
theorem Arena.look_of_error {f : Arena V → Except TermError α} {a : Arena V} {e : TermError}
    (h : f a = .error e) : Arena.look f a = .error e a := by
  rw [Arena.look, h]

/-- What a reader of the arena ensures. -/
theorem Ensures.look {f : Arena V → Except TermError α} {a : Arena V}
    {P : α → Arena V → Prop} {B : Arena V → Prop} (hgood : ∀ x, f a = .ok x → P x a)
    (hbad : B a) : Ensures (Arena.look f) a P B := by
  cases h : f a with
  | ok x => exact .of_ok (Arena.look_of_ok h) (hgood x h)
  | error e => exact .of_error (Arena.look_of_error h) hbad

/-- A reader keeps everything. -/
theorem Keeps.look {f : Arena V → Except TermError α} {I : Arena V → Prop} {Q : α → Prop}
    (h : ∀ a x, I a → f a = .ok x → Q x) : Keeps I Q (Arena.look f) :=
  fun a ha => Ensures.look (fun x hx => ⟨ha, h a x ha hx⟩) ha

variable {σ : Type}

theorem WorkM.look_of_ok {f : Arena V → Except TermError α} {w : Workspace V σ} {x : α}
    (h : f w.arena = .ok x) : WorkM.look f w = .ok x w := by
  rw [WorkM.look, h]

theorem WorkM.look_of_error {f : Arena V → Except TermError α} {w : Workspace V σ}
    {e : TermError} (h : f w.arena = .error e) : WorkM.look f w = .error e w := by
  rw [WorkM.look, h]

/-- Reading the workspace is reading its arena. -/
theorem WorkM.look_eq_onArena (f : Arena V → Except TermError α) :
    WorkM.look (σ := σ) f = WorkM.onArena (Arena.look f) := by
  funext ⟨a, x⟩
  rw [WorkM.look, WorkM.onArena, Arena.look]
  cases f a <;> rfl

/-- What a reader of the workspace ensures. -/
theorem Ensures.lookW {f : Arena V → Except TermError α} {w : Workspace V σ}
    {P : α → Workspace V σ → Prop} {B : Workspace V σ → Prop}
    (hgood : ∀ x, f w.arena = .ok x → P x w) (hbad : B w) :
    Ensures (WorkM.look f) w P B := by
  cases h : f w.arena with
  | ok x => exact .of_ok (WorkM.look_of_ok h) (hgood x h)
  | error e => exact .of_error (WorkM.look_of_error h) hbad

/-- Work on the arena alone leaves what is carried as it was. -/
theorem Ensures.onArena {m : BuildM V α} {w : Workspace V σ} {P : α → Arena V → Prop}
    {B : Arena V → Prop} (h : Ensures m w.arena P B) :
    Ensures (WorkM.onArena m) w (fun x w' => P x w'.arena ∧ w'.carried = w.carried)
      (fun w' => B w'.arena ∧ w'.carried = w.carried) := by
  obtain ⟨a, c⟩ := w
  unfold Ensures at h ⊢
  rw [WorkM.onArena]
  cases heq : m a with
  | ok x b =>
    rw [heq] at h
    exact ⟨h, rfl⟩
  | error e b =>
    rw [heq] at h
    exact ⟨h, rfl⟩

/-- A run beside a first value ends as the run on the workspace does. -/
theorem Ensures.beside {m : WorkM V σ α} {a : Arena V} {c : σ}
    {P : α × σ → Arena V → Prop} {B : Arena V → Prop}
    (h : Ensures m ⟨a, c⟩ (fun x w => P (x, w.carried) w.arena) (fun w => B w.arena)) :
    Ensures (m.beside c) a P B := by
  unfold Ensures at h ⊢
  rw [WorkM.beside]
  cases heq : m ⟨a, c⟩ with
  | ok x w =>
    rw [heq] at h
    exact h
  | error e w =>
    rw [heq] at h
    exact h

end Workspace

end TermGraph
