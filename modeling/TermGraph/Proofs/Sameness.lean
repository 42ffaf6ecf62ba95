import Mathlib.Data.List.Forall2
import TermGraph.Arena.Equality
import TermGraph.Proofs.Outcome
import TermGraph.Proofs.Subterms

/-!
# Sameness — identity of handles, place by place

Identity of handles is a PARTIAL equivalence: symmetric and transitive,
and reflexive except on the reals that are not numbers. Where a real is
involved it is coarser than `=`, because it takes the two zeros for one;
everywhere else it is `=`.

A TWIN of a handle is a handle that may stand in its place: the same term,
or the very same handle. Twins differ in the sign of a zero at most.

## What is proved

`sameAll_iff` and `pairwiseAll_iff` — the two comparisons of lists are
pairwise relations. `hasShell_congr` — looking for a shell does not
distinguish argument lists that are the same.
-/

namespace TermGraph

/-- Lists that are related in pairs, one relation after another. -/
theorem forall₂_comp {α β γ : Type} {R : α → β → Prop} {S : β → γ → Prop} {T : α → γ → Prop}
    {xs : List α} {ys : List β} {zs : List γ} (h : List.Forall₂ R xs ys)
    (k : List.Forall₂ S ys zs) (hRS : ∀ x y z, R x y → S y z → T x z) : List.Forall₂ T xs zs := by
  induction h generalizing zs with
  | nil =>
    cases k
    exact .nil
  | cons hxy _ ih =>
    cases k with
    | cons hyz hrest => exact .cons (hRS _ _ _ hxy hyz) (ih hrest)

/-- What is known of the elements of the two lists may be used in pairs. -/
theorem forall₂_imp_of_mem {α β : Type} {R S : α → β → Prop} {xs : List α} {ys : List β}
    (h : List.Forall₂ R xs ys) (hRS : ∀ x y, x ∈ xs → y ∈ ys → R x y → S x y) :
    List.Forall₂ S xs ys := by
  induction h with
  | nil => exact .nil
  | cons hxy _ ih =>
    exact .cons (hRS _ _ List.mem_cons_self List.mem_cons_self hxy) (ih fun x y hx hy =>
      hRS x y (List.mem_cons_of_mem _ hx) (List.mem_cons_of_mem _ hy))

namespace Binary64

/-- The format's equality is transitive. -/
theorem numEq_trans {x y z : Binary64} (h : x.numEq y = true) (k : y.numEq z = true) :
    x.numEq z = true := by
  simp only [numEq, Bool.and_eq_true, Bool.or_eq_true, Bool.not_eq_true', decide_eq_true_eq]
    at h k ⊢
  obtain ⟨⟨hx, _⟩, hxy⟩ := h
  obtain ⟨⟨_, hz⟩, hyz⟩ := k
  refine ⟨⟨hx, hz⟩, ?_⟩
  rcases hxy with rfl | ⟨hx0, hy0⟩
  · exact hyz
  · rcases hyz with rfl | ⟨_, hz0⟩
    · exact .inr ⟨hx0, hy0⟩
    · exact .inr ⟨hx0, hz0⟩

end Binary64

namespace Term

variable {s t x : Term}

theorem same_symm (h : s.same t = true) : t.same s = true := by
  rw [same_comm]
  exact h

/-- Identity is equality of handles, or of two reals as numbers. -/
theorem same_cases (h : s.same t = true) :
    s = t ∨ ∃ p q, s = .real p ∧ t = .real q ∧ p.numEq q = true := by
  unfold same at h
  split at h
  · next p q => exact .inr ⟨p, q, rfl, rfl, h⟩
  · exact .inl (of_decide_eq_true h)

theorem same_trans (h : s.same t = true) (k : t.same x = true) : s.same x = true := by
  rcases same_cases h with rfl | ⟨p, q, rfl, rfl, hpq⟩
  · exact k
  · rcases same_cases k with rfl | ⟨q', z, hq, rfl, hqz⟩
    · exact hpq
    · cases hq
      exact Binary64.numEq_trans hpq hqz

/-- A handle that is the same as another one is the same as itself. -/
theorem same_self_of_same (h : s.same t = true) : s.same s = true :=
  same_trans h (same_symm h)

/-- Nodes are the same only as themselves. -/
theorem eq_of_same_of_ref (h : s.same t = true) {r : Reference} (hr : s.ref? = some r) : s = t := by
  rcases same_cases h with rfl | ⟨p, q, rfl, -⟩
  · rfl
  · cases hr

/-- The handle may stand in the place of the other. -/
def Twin (s t : Term) : Prop := s.same t = true ∨ s = t

theorem Twin.symm (h : s.Twin t) : t.Twin s := by
  rcases h with h | rfl
  · exact .inl (same_symm h)
  · exact .inr rfl

theorem Twin.trans (h : s.Twin t) (k : t.Twin x) : s.Twin x := by
  rcases h with h | rfl
  · rcases k with k | rfl
    · exact .inl (same_trans h k)
    · exact .inl h
  · exact k

/-- Twins are one handle, or two reals that are the same number. -/
theorem Twin.cases (h : s.Twin t) :
    s = t ∨ ∃ p q, s = .real p ∧ t = .real q ∧ p.numEq q = true := by
  rcases h with h | rfl
  · exact same_cases h
  · exact .inl rfl

/-- What is the same as a twin is the same as the handle. -/
theorem Twin.same (h : s.Twin t) (k : t.same x = true) : s.same x = true := by
  rcases h with h | rfl
  · exact same_trans h k
  · exact k

/-- A node has no other twin. -/
theorem Twin.eq_of_ref (h : s.Twin t) {r : Reference} (hr : s.ref? = some r) : s = t := by
  rcases h with h | rfl
  · exact eq_of_same_of_ref h hr
  · rfl

/-! ## Lists -/

/-- The lists are the same exactly when their terms are, in pairs. -/
theorem sameAll_iff {ss ts : List Term} :
    sameAll ss ts = true ↔ List.Forall₂ (fun s t => s.same t = true) ss ts := by
  induction ss generalizing ts with
  | nil => cases ts <;> simp [sameAll]
  | cons s ss ih => cases ts <;> simp [sameAll, ih]

theorem sameAll_comm (ss ts : List Term) : sameAll ss ts = sameAll ts ss := by
  induction ss generalizing ts with
  | nil => cases ts <;> rfl
  | cons s ss ih =>
    cases ts with
    | nil => rfl
    | cons t ts => rw [sameAll, sameAll, same_comm, ih]

theorem sameAll_symm {ss ts : List Term} (h : sameAll ss ts = true) : sameAll ts ss = true := by
  rw [sameAll_comm]
  exact h

theorem sameAll_trans {ss ts xs : List Term} (h : sameAll ss ts = true)
    (k : sameAll ts xs = true) : sameAll ss xs = true := by
  induction ss generalizing ts xs with
  | nil =>
    cases ts with
    | nil => exact k
    | cons _ _ => cases h
  | cons s ss ih =>
    cases ts with
    | nil => cases h
    | cons t ts =>
      cases xs with
      | nil => cases k
      | cons x xs =>
        simp only [sameAll, Bool.and_eq_true] at h k ⊢
        exact ⟨same_trans h.1 k.1, ih h.2 k.2⟩

theorem sameAll_self_of_sameAll {ss ts : List Term} (h : sameAll ss ts = true) :
    sameAll ss ss = true :=
  sameAll_trans h (sameAll_symm h)

/-- Lists that are the same compare alike with every list. -/
theorem sameAll_congr {ss ts : List Term} (h : sameAll ss ts = true) (xs : List Term) :
    sameAll xs ss = sameAll xs ts := by
  rw [Bool.eq_iff_iff]
  exact ⟨fun k => sameAll_trans k h, fun k => sameAll_trans k (sameAll_symm h)⟩

end Term

/-- The comparison of two lists holds exactly when it holds in pairs. -/
theorem pairwiseAll_iff {α β : Type} {related : α → β → Bool} {xs : List α} {ys : List β} :
    pairwiseAll related xs ys = true ↔ List.Forall₂ (fun x y => related x y = true) xs ys := by
  induction xs generalizing ys with
  | nil => cases ys <;> simp [pairwiseAll]
  | cons x xs ih => cases ys <;> simp [pairwiseAll, ih]

/-- Two comparisons that agree on the elements agree on the lists. -/
theorem pairwiseAll_congr {α β : Type} {f g : α → β → Bool} {xs : List α} {ys : List β}
    (h : ∀ x ∈ xs, ∀ y ∈ ys, f x y = g x y) : pairwiseAll f xs ys = pairwiseAll g xs ys := by
  induction xs generalizing ys with
  | nil => cases ys <;> rfl
  | cons x xs ih =>
    cases ys with
    | nil => rfl
    | cons y ys =>
      rw [pairwiseAll, pairwiseAll, h x List.mem_cons_self y List.mem_cons_self, ih]
      exact fun z hz z' hz' => h z (List.mem_cons_of_mem x hz) z' (List.mem_cons_of_mem y hz')

namespace Arena

variable {V : Type} {a : Arena V} {s t : Term} {f g : String} {ts us : List Term}

/-- Two comparisons that agree on the arguments agree on the shapes. -/
theorem sameShape_congr {f g : Term → Term → Bool}
    (h : ∀ x ∈ a.argsOrNone s, ∀ y ∈ a.argsOrNone t, f x y = g x y) :
    a.sameShape f s t = a.sameShape g s t := by
  unfold sameShape
  split
  · next _ xs _ ys hs ht =>
    rw [argsOrNone_of_shell? hs, argsOrNone_of_shell? ht] at h
    rw [pairwiseAll_congr h]
  · rfl

/-- Looking for a shell does not distinguish arguments that are the
same. -/
theorem hasShell_congr (a : Arena V) (f : String) (h : Term.sameAll ts us = true) :
    a.hasShell f ts = a.hasShell f us := by
  funext t
  simp only [hasShell, Term.sameAll_congr h]

/-- A term has a shell exactly when its own is the same. -/
theorem hasShell_of_shell? (h : a.shell? t = some (g, us)) :
    a.hasShell f ts t = (g == f && Term.sameAll us ts) := by
  unfold shell? at h
  split at h
  · next name args hname hargs =>
    cases h
    rw [hasShell, hname, hargs]
  · cases h

/-- What has a name has it to read. -/
theorem exists_namedVar? {name : String} (h : a.isVarNamed name t = true) :
    ∃ type, a.namedVar? t = some (name, type) := by
  unfold isVarNamed at h
  split at h
  · next found type hfound =>
    rw [beq_iff_eq] at h
    subst h
    exact ⟨type, hfound⟩
  · cases h

/-- What has a shell has one to read. -/
theorem exists_shell? (h : a.hasShell f ts t = true) :
    ∃ us, a.shell? t = some (f, us) ∧ Term.sameAll us ts = true := by
  unfold hasShell at h
  split at h
  · cases h
  · next name hname =>
    split at h
    · rw [Bool.and_false] at h
      cases h
    · next us hus =>
      simp only [Bool.and_eq_true, beq_iff_eq] at h
      exact ⟨us, by rw [shell?, hname, hus, h.1], h.2⟩

end Arena

end TermGraph
