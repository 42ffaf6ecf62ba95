import TermGraph.Proofs.Normalization
import TermGraph.Proofs.Printing

/-!
# Normal text — when a normal form prints like the term

Normalization is meant to change what is shared and nothing that is shown.
It does so for every term but one kind. Sharing compares arguments by
IDENTITY, and the two zeros are identical although they print differently:
of two compound terms that differ in the sign of a zero, one takes the
place of the other, and its sign is shown in both places.

`SignsAgree` says that a term is not of that kind, and it is the exact
condition. It is about compound terms: a zero that is an argument stays as
it is in a term that is copied.

## What is proved

`Session.Reachable.normalize_text_iff` — on any term a host can reach, the
text of the normal form is the text of the term if and only if the signs
agree.
-/

namespace TermGraph

namespace Arena

variable {V : Type} {a b c d : Arena V} {t n r x y : Term}

/-- Compound terms under the term that are written alike up to the signs of
zeros are written alike. -/
def SignsAgree (a : Arena V) (t : Term) : Prop :=
  ∀ v v', a.Under t (.compound v) → a.Under t (.compound v') →
    a.ReadsLike (.compound v) (.compound v') → a.ReadsAs (.compound v) (.compound v')

namespace Factorized

variable (h : Factorized a t r c)
include h

/-- Under a factorized term, what is written alike up to signs is one
term. -/
theorem same_of_readsLike (hx : c.Under r x) (hy : c.Under r y) (hxy : c.ReadsLike x y) :
    x.same y = true := by
  have hshared : c.SharedAmong (c.Under r) := ⟨h.name_unique, h.shell_unique⟩
  exact hshared.same_of_readsLike (fun _ hx arg harg => hx.trans (.arg harg (.refl c arg)))
    hxy hx hy

/-- A factorized term is written like the term if and only if signs
agree. -/
theorem readsAs_iff (wf : a.WellFormed .documented) (ht : a.Holds .documented t) :
    c.ReadsAs t r ↔ a.SignsAgree t := by
  have hheld : ∀ v, a.Under t (.compound v) → a.Holds .documented (.compound v) :=
    fun v hv => wf.holds_under ht hv
  constructor
  · -- Both terms are written like what stands in their places, and that is one term.
    intro hreads v v' hv hv' hlike
    obtain ⟨x, hx, hvx⟩ := Matches.exists_under hreads ((h.ext.under_frozen wf ht).mpr hv)
    obtain ⟨y, hy, hvy⟩ := Matches.exists_under hreads ((h.ext.under_frozen wf ht).mpr hv')
    rw [← h.ext.readsLike_frozen wf (hheld v hv) (hheld v' hv')] at hlike
    rw [← h.ext.readsAs_frozen wf (hheld v hv) (hheld v' hv')]
    have hxlike : c.ReadsLike x (.compound v') :=
      Matches.comp (ReadsAs.symm hvx) hlike (fun _ _ _ h k => SameName.trans h k)
        fun _ _ _ h k => h ▸ k
    have hxy : c.ReadsLike x y :=
      Matches.comp hxlike hvy (fun _ _ _ h k => SameName.trans h k) fun _ _ _ h k => k ▸ h
    cases hvx with
    | leaf hl _ _ => cases hl
    | node hs hq hlen hall =>
      have heq := Term.eq_of_same_of_ref (h.same_of_readsLike hx hy hxy) rfl
      rw [← heq] at hvy
      exact ReadsAs.trans (.node hs hq hlen hall) (ReadsAs.symm hvy)
  · intro hsigns
    apply h.made.readsAs
    intro v v' hv hv' hlike
    rw [h.ext.readsLike_frozen wf (hheld v hv) (hheld v' hv')] at hlike
    rw [h.ext.readsAs_frozen wf (hheld v hv) (hheld v' hv')]
    exact hsigns v v' hv hv' hlike

/-- Its text is the text of the term under the same condition. -/
theorem wording_eq_iff [Payload V] (wf : a.WellFormed .documented)
    (ht : a.Holds .documented t) : c.wording r = c.wording t ↔ a.SignsAgree t := by
  have hmatches : c.Matches c.SameName Term.Twin t r :=
    Matches.imp h.made.tracks (.refl c) (fun _ _ hp => hp.sameName) fun _ _ hl => hl
  rw [← h.readsAs_iff wf ht, ← hmatches.wording_eq_iff h.wf, eq_comm]

end Factorized

end Arena

/-- NORMALIZATION PRESERVES THE TEXT, BUT FOR SIGNS OF ZEROS. On every term
of every copy that a host can reach, the term and its normal form have
texts, and they are one text if and only if the signs agree. -/
theorem Session.Reachable.normalize_text_iff {V : Type} [Payload V] {s : Session V}
    (hs : s.Reachable .documented) {c : Copy V} (hc : c ∈ s.copies) {t : Term} (ht : c.Owns t) :
    ∃ n d x y, Arena.normalize t c.arena = .ok n d ∧ c.arena.text? t = some x ∧
      d.text? n = some y ∧ (y = x ↔ c.arena.SignsAgree t) := by
  have wf := (hs.inOrder c hc).1
  have hheld := (hs.inOrder c hc).holds ht
  obtain ⟨n, d, hok, b, h⟩ := (Arena.normalize_ok wf hheld).exists_ok
  refine ⟨n, d, _, _, hok, wf.text?_eq_wording hheld, h.numbered.wf.text?_eq_wording h.held, ?_⟩
  rw [h.numbered.marks.wording_eq, ← h.factorized.wording_eq_iff wf hheld,
    h.factorized.ext.wording_frozen wf h.factorized.wf hheld]

/-- A term whose signs do not agree. -/
theorem Session.normalize_text_sample :
    ∃ n d x y, Arena.normalize Term.sample Copy.sample.arena = .ok n d ∧
      Copy.sample.arena.text? Term.sample = some x ∧ d.text? n = some y ∧
      (y = x ↔ Copy.sample.arena.SignsAgree Term.sample) :=
  Session.Reachable.normalize_text_iff reachable_sample (List.mem_singleton_self _)
    Copy.sample_owns

/-- So not every normal form prints like the term: `f(g(X, 0.0), g(X, -0.0))`
becomes `f(g(X, 0.0), g(X, 0.0))`. -/
theorem Session.normalize_text_differs :
    ¬∀ s : Session Scalar, s.Reachable .documented → ∀ c ∈ s.copies, ∀ t, c.Owns t →
      ∀ n d, Arena.normalize t c.arena = .ok n d → d.text? n = c.arena.text? t := by
  intro hclaim
  have hterm : Copy.sample.arena.text? Term.sample = some "f(g(X, 0.0), g(X, -0.0))" := by
    decide +kernel
  have hnormal : (match Arena.normalize Term.sample Copy.sample.arena with
      | .ok n d => d.text? n
      | .error _ _ => none) = some "f(g(X, 0.0), g(X, 0.0))" := by decide +kernel
  split at hnormal
  · next n d hok =>
    rw [hclaim _ reachable_sample _ (List.mem_singleton_self _) _ Copy.sample_owns n d hok,
      hterm] at hnormal
    exact absurd (Option.some.inj hnormal) (by decide)
  · cases hnormal

end TermGraph
