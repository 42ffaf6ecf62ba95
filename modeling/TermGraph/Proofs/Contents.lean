import TermGraph.Proofs.Effects
import TermGraph.Proofs.Factorization

/-!
# Contents — where the values of a factorized term come from

A value attached to a compound term is no part of its tree. Factorization
copies compound terms, and a copy has the value of what it is a copy of; but
a copy that resembles a candidate is dropped, and the candidate stands in its
place, with a value of its own. Which value survives is a question about the
pool.

The answer is that every compound term in the result has the value of SOME
source that it resembles. `Made` says enough for that: a term is only ever
shared with a source, or with something a source was made into. Two terms
resemble each other if they are written alike but for the signs of zeros.

At the root nothing is lost. Whatever the root is shared with comes from a
source that resembles the whole term, and a proper sub-term is smaller than
the term; so that source is the term itself.

## What is proved

`Resembles.eq_of_under` — the size argument. `Made.inherits` — where a value
comes from. `Session.Reachable.factorize_contents` — both, for any term that
a host can reach, and that values which were there stay.
-/

namespace TermGraph

/-- Lists of the same lengths, put together in pairs. -/
theorem length_flatMap_eq {α β γ : Type} {f : α → List γ} {g : β → List γ} {xs : List α}
    {ys : List β} (h : List.Forall₂ (fun x y => (f x).length = (g y).length) xs ys) :
    (xs.flatMap f).length = (ys.flatMap g).length := by
  induction h with
  | nil => rfl
  | cons hhead _ ih =>
    rw [List.flatMap_cons, List.flatMap_cons, List.length_append, List.length_append, hhead, ih]

namespace Arena

variable {V : Type} {a b c : Arena V} {src : Term → Prop} {pick : String → Option Term}
  {s t q r x y : Term}

/-! ## Resemblance -/

/-- The two terms are written alike, with variables read by name, but for the
signs of zeros. -/
def Resembles (a : Arena V) : Term → Term → Prop := a.Matches a.SameName Term.Twin

/-- A held term resembles itself. -/
theorem Resembles.refl (wf : a.WellFormed .documented) (ht : a.Holds .documented t) :
    a.Resembles t t := by
  refine wf.inductionUnder (P := fun t => a.Resembles t t) ?_ ht
  intro t ht ih
  rcases wf.cases_holds ht with ⟨r, name, type, rfl, hname⟩ | ⟨r, f, ts, rfl, hshell⟩ | hl
  · exact .var ⟨name, type, type, hname, hname⟩
  · rw [argsOrNone_of_shell? hshell] at ih
    exact Matches.ofArgs hshell hshell (List.forall₂_same.mpr ih)
  · exact .leaf hl hl (.inr rfl)

theorem Resembles.symm (h : a.Resembles s q) : a.Resembles q s :=
  Matches.symm h (fun _ _ hv => SameName.symm hv) fun _ _ hl => hl.symm

theorem Resembles.trans (h : a.Resembles s x) (k : a.Resembles x q) : a.Resembles s q :=
  Matches.comp h k (fun _ _ _ h k => SameName.trans h k) fun _ _ _ h k => h.trans k

/-- What tracks a term resembles it. -/
theorem Tracks.resembles (h : a.Tracks src pick s q) : a.Resembles s q :=
  Matches.imp h (.refl a) (fun _ _ hv => hv.sameName) fun _ _ hl => hl

/-- What resembles a compound term is compound. -/
theorem Resembles.isCompound (h : a.Resembles s q) (hq : q.isCompound = true) :
    s.isCompound = true := by
  cases h with
  | var _ => cases hq
  | node _ _ _ _ => rfl
  | leaf _ _ htwin =>
    rcases htwin.cases with rfl | ⟨p, p', rfl, rfl, -⟩
    · exact hq
    · cases hq

/-! ## Sizes -/

/-- Fewer positions are listed for an argument than for the term. -/
theorem WellFormed.length_listing_lt (wf : a.WellFormed u) (hs : s ∈ a.argsOrNone t) :
    (a.listing s).length < (a.listing t).length := by
  have hsub : (a.listing s).Sublist ((a.argsOrNone t).flatMap a.listing) := by
    rw [List.flatMap_def]
    exact List.sublist_flatten_of_mem (List.mem_map_of_mem hs)
  have hle := hsub.length_le
  rw [wf.listing_eq t, List.length_append, List.length_singleton]
  omega

/-- A proper sub-term is smaller than the term. -/
theorem WellFormed.eq_or_length_lt (wf : a.WellFormed u) (ht : a.Holds u t) (hx : a.Under t x) :
    x = t ∨ (a.listing x).length < (a.listing t).length := by
  refine wf.inductionUnder
    (P := fun t => a.Under t x → x = t ∨ (a.listing x).length < (a.listing t).length) ?_ ht hx
  intro t _ ih hx
  rcases hx.cases with rfl | ⟨arg, harg, hx⟩
  · exact .inl rfl
  · have hlt := wf.length_listing_lt harg
    rcases ih arg harg hx with rfl | hless
    · exact .inr hlt
    · exact .inr (Nat.lt_trans hless hlt)

/-- Matching terms have the same size. -/
theorem Matches.length_listing {vars leaf : Term → Term → Prop} (wf : a.WellFormed .documented)
    (h : a.Matches vars leaf s q) : (a.listing s).length = (a.listing q).length := by
  refine h.byArgs ?_ ?_ ?_
  · intro r r' _
    rw [wf.listing_eq, wf.listing_eq]
    rfl
  · intro s q hs hq _
    rw [wf.listing_eq s, wf.listing_eq q, argsOrNone_of_isLeaf hs, argsOrNone_of_isLeaf hq]
    rfl
  · intro r r' f ss qs hs hq _ ih
    rw [wf.listing_eq (.compound r), wf.listing_eq (.compound r'), argsOrNone_of_shell? hs,
      argsOrNone_of_shell? hq, List.length_append, List.length_append, length_flatMap_eq ih]
    rfl

/-- No proper sub-term resembles the term. -/
theorem Resembles.eq_of_under (wf : a.WellFormed .documented) (ht : a.Holds .documented t)
    (h : a.Resembles t x) (hx : a.Under t x) : x = t := by
  rcases wf.eq_or_length_lt ht hx with heq | hlt
  · exact heq
  · rw [Matches.length_listing wf h] at hlt
    exact absurd hlt (Nat.lt_irrefl _)

/-! ## Where a value comes from -/

/-- The term has the value of a source that it resembles. -/
def Inherits (a : Arena V) (src : Term → Prop) (y : Term) : Prop :=
  ∃ x, src x ∧ a.content? y = a.content? x ∧ a.Resembles x y

/-- Every node of the compound kind that is under what was made has the value
of a source. -/
theorem Made.inherits (wf : a.WellFormed .documented)
    (held : ∀ s, src s → a.Holds .documented s)
    (below : ∀ s, src s → ∀ arg ∈ a.argsOrNone s, src arg) (h : a.Made src pick s q) :
    ∀ r, a.Under q (.compound r) → a.Inherits src (.compound r) := by
  induction h with
  | leaf hs =>
    intro r hr
    cases hr.eq_of_argsOrNone (argsOrNone_of_isLeaf hs)
    cases hs
  | var _ _ _ _ _ =>
    intro r hr
    cases hr.eq_of_argsOrNone argsOrNone_var
  | copied hsrc hs hq hlen hall hindex hcontent ih =>
    intro r hr
    rcases hr.cases with heq | ⟨arg, harg, hr⟩
    · cases heq
      have hmade := Made.copied hsrc hs hq hlen hall hindex hcontent
      exact ⟨_, hsrc, hcontent, hmade.tracks.resembles⟩
    · rw [argsOrNone_of_shell? hq] at harg
      obtain ⟨_, -, harg⟩ := exists_of_forall₂ (forall₂_iff_getElem?.mpr ⟨hlen, ih⟩) harg
      exact harg r hr
  | @shared _ r' _ _ _ _ x _ _ _ _ _ _ _ hx _ _ ihorigin =>
    intro r hr
    -- The candidate is a source itself, or it was made of one.
    by_cases heq : x = .compound r'
    · rw [← heq] at hr
      have hsrc : src (.compound r) := hr.inherit below hx
      exact ⟨_, hsrc, rfl, .refl wf (held _ hsrc)⟩
    · exact ihorigin heq r hr

/-- What factorization does to contents: the answer `r`, in the arena `b`,
has the value of the term; every compound term under it has the value of a
sub-term that it resembles; and values that were there stay. -/
structure KeepsContents (a : Arena V) (t r : Term) (b : Arena V) : Prop where
  root : t.isCompound = true → r.isCompound = true ∧ b.content? r = a.content? t
  below : ∀ y, b.Under r y → y.isCompound = true → ∃ x, a.Under t x ∧ x.isCompound = true ∧
    b.content? y = a.content? x ∧ b.Resembles x y
  old : ∀ place, place < a.nodes.size → b.contents.get? place = a.contents.get? place

/-- A factorized term keeps contents, if those of old nodes were kept. -/
theorem Factorized.keepsContents (h : Factorized a t r b) (wf : a.WellFormed .documented)
    (ht : a.Holds .documented t) {ix : Nat → Prop} (htouches : Touches ix nowhere a b) :
    a.KeepsContents t r b := by
  have hcontent : ∀ x, a.Holds .documented x → b.content? x = a.content? x :=
    fun x hx => htouches.content?_eq hx fun _ _ hp => hp
  have hheld : ∀ s, a.Under t s → a.Holds .documented s := fun s hs => wf.holds_under ht hs
  have hargs : ∀ s, a.Under t s → ∀ arg ∈ b.argsOrNone s, a.Under t arg := by
    intro s hs arg harg
    rw [h.ext.argsOrNone_frozen wf (hheld s hs)] at harg
    exact hs.trans (.arg harg (.refl a arg))
  have hroot := h.made.tracks.resembles
  have hinherits := h.made.inherits h.wf (fun s hs => (hheld s hs).extends h.ext) hargs
  have hbelow : ∀ y, b.Under r y → y.isCompound = true → ∃ x, a.Under t x ∧
      x.isCompound = true ∧ b.content? y = a.content? x ∧ b.Resembles x y := by
    intro y hy hcompound
    cases y with
    | compound v =>
      obtain ⟨x, hx, heq, hlike⟩ := hinherits v hy
      rw [hcontent x (hheld x hx)] at heq
      exact ⟨x, hx, hlike.isCompound rfl, heq, hlike⟩
    | control d =>
      -- A control constant is its own and only twin, and nothing is attached to it.
      obtain ⟨x, hx, htwin⟩ := h.exists_twin wf ht hy rfl
      rcases htwin.cases with rfl | ⟨p, p', -, hp, -⟩
      · exact ⟨_, hx, rfl, rfl, .leaf rfl rfl htwin⟩
      · cases hp
    | _ => cases hcompound
  refine ⟨fun hcompound => ?_, hbelow, fun place hlt => htouches.contents place hlt fun hp => hp⟩
  have hr : r.isCompound = true := hroot.symm.isCompound hcompound
  obtain ⟨x, hx, -, heq, hlike⟩ := hbelow r (.refl b r) hr
  have hunder : b.Under t x := (h.ext.under_frozen wf ht).mpr hx
  obtain rfl := (hroot.trans hlike.symm).eq_of_under h.wf (ht.extends h.ext) hunder
  exact ⟨hr, heq⟩

end Arena

/-- CONTENTS THROUGH FACTORIZATION. On every term of every copy that a host
can reach it succeeds; the answer has the value of the term; every compound
term under the answer has the value of a sub-term that it resembles; and the
value of every node that was there stays. -/
theorem Session.Reachable.factorize_contents {V : Type} {s : Session V}
    (hs : s.Reachable .documented) {c : Copy V} (hc : c ∈ s.copies) {t : Term} (ht : c.Owns t) :
    ∃ r b, Arena.factorize t c.arena = .ok r b ∧ c.arena.KeepsContents t r b := by
  have wf := (hs.inOrder c hc).1
  have hheld := (hs.inOrder c hc).holds ht
  have htouches := Arena.factorize_touches wf hheld.permits
  obtain ⟨r, b, hok, h⟩ := (Arena.factorize_ok wf hheld).exists_ok
  exact ⟨r, b, hok, h.keepsContents wf hheld (htouches.of_answer hok).1⟩

/-- The operations that build `f(g(X, 0.0), g(X, -0.0))` and attach a value
to each of its compound terms. -/
def Operation.labelled : List (Operation Scalar) :=
  Operation.sample ++ [.attach (.compound ⟨⟨0⟩, 2⟩) (.text "first"),
    .attach (.compound ⟨⟨0⟩, 3⟩) (.text "second"), .attach Term.sample (.text "whole")]

/-- The copy in which they ran. -/
def Copy.labelled : Copy Scalar := ((Copy.blank ⟨0⟩).afterAll {} Operation.labelled).1

theorem Session.reachable_labelled : Session.Reachable .documented ⟨[Copy.labelled], {}⟩ :=
  reachable_alone ⟨0⟩ Operation.labelled (by decide +kernel)

/-- Of two values that come together one is kept; the value of the term
is. -/
theorem Session.factorize_contents_sample :
    ∃ r b, Arena.factorize Term.sample Copy.labelled.arena = .ok r b ∧
      Copy.labelled.arena.KeepsContents Term.sample r b ∧ r ≠ Term.sample ∧
      b.content? r = some (.text "whole") ∧
      (b.argsOrNone r).map b.content? = [some (.text "first"), some (.text "first")] := by
  obtain ⟨r, b, hok, h⟩ := Session.Reachable.factorize_contents reachable_labelled
    (List.mem_singleton_self _) (t := Term.sample) (by decide +kernel)
  have hrun : (match Arena.factorize Term.sample Copy.labelled.arena with
      | .ok r b => decide (r ≠ Term.sample ∧ b.content? r = some (.text "whole") ∧
          (b.argsOrNone r).map b.content? = [some (.text "first"), some (.text "first")])
      | .error _ _ => false) = true := by decide +kernel
  rw [hok] at hrun
  exact ⟨r, b, hok, h, of_decide_eq_true hrun⟩

end TermGraph
