import Mathlib.Data.List.Forall2
import TermGraph.Arena.Print
import TermGraph.Proofs.Collecting
import TermGraph.Proofs.Matching

/-!
# Printing — what the text of a term says about the term

A term that the arena holds has a text, and the text is put together from
those of its arguments. `Arena.wording` is that text, without the case of
a handle that does not resolve.

The text of a term is far from unique: an atom prints as it stands, so its
name may look like anything. But two terms that MATCH, with variables of
one name and with twins for leaves, can differ in a single way, and that
way shows. Twins that are not one handle are the two zeros, which begin
with different characters. So printing matching terms side by side, the
texts agree until the first such pair, and there they part for good,
whatever follows.

## What is proved

`ReadsAs.wording_eq` — terms that are written alike have one text.
`Matches.wording_eq_iff` — of matching terms, only those do.
-/

namespace TermGraph

/-! ## Texts that part for good -/

/-- The two texts can only agree, whatever follows them, if `P` holds; and
then what follows agrees. -/
def Decides (P : Prop) (x y : String) : Prop :=
  ∀ u v : List Char, x.toList ++ u = y.toList ++ v → P ∧ u = v

namespace Decides

variable {P Q : Prop} {x x' y y' : String}

theorem of_eq (h : P) (hxy : x = y) : Decides P x y := by
  subst hxy
  exact fun u v huv => ⟨h, List.append_cancel_left huv⟩

/-- Texts that begin with different characters never agree. -/
theorem of_head_ne {c d : Char} {cs ds : List Char} (hx : x.toList = c :: cs)
    (hy : y.toList = d :: ds) (hcd : c ≠ d) : Decides P x y := by
  intro u v huv
  rw [hx, hy] at huv
  exact absurd (List.cons.inj huv).1 hcd

theorem mono (h : Decides P x y) (hPQ : P → Q) : Decides Q x y := by
  intro u v huv
  obtain ⟨hP, heq⟩ := h u v huv
  exact ⟨hPQ hP, heq⟩

/-- One text after another. -/
theorem append (h : Decides P x y) (k : Decides Q x' y') :
    Decides (P ∧ Q) (x ++ x') (y ++ y') := by
  intro u v huv
  rw [String.toList_append, String.toList_append, List.append_assoc, List.append_assoc] at huv
  obtain ⟨hP, hrest⟩ := h _ _ huv
  obtain ⟨hQ, heq⟩ := k u v hrest
  exact ⟨⟨hP, hQ⟩, heq⟩

/-- Texts of two lists of the same length, with a separator between. -/
theorem intercalate {α : Type} {R : α → α → Prop} {f : α → String} (separator : String)
    {ss qs : List α} (h : List.Forall₂ (fun s q => Decides (R s q) (f s) (f q)) ss qs) :
    Decides (List.Forall₂ R ss qs) (separator.intercalate (ss.map f))
      (separator.intercalate (qs.map f)) := by
  induction h with
  | nil => exact of_eq .nil rfl
  | cons hsq hrest ih =>
    cases hrest with
    | nil =>
      rw [List.map_cons, List.map_cons, List.map_nil, String.intercalate_singleton,
        String.intercalate_singleton]
      exact hsq.mono fun hR => .cons hR .nil
    | cons _ _ =>
      simp only [List.map_cons, String.intercalate_cons_cons] at ih ⊢
      have hseparator : Decides True separator separator := of_eq trivial rfl
      apply ((hsq.append hseparator).append ih).mono
      rintro ⟨⟨hR, -⟩, hRs⟩
      exact .cons hR hRs

/-- Texts that are one text agree. -/
theorem holds (h : Decides P x y) (hxy : x = y) : P :=
  (h [] [] (by rw [hxy])).1

end Decides

/-! ## The two zeros -/

namespace Binary64

/-- There are two patterns of zero. -/
theorem isZero_cases {x : Binary64} (h : x.isZero = true) :
    x = ⟨0⟩ ∨ x = ⟨0x8000000000000000⟩ := by
  obtain ⟨bits⟩ := x
  have hmod : bits.toNat % signBit = 0 := of_decide_eq_true h
  have hlt : bits.toNat < 2 * signBit := bits.toNat_lt
  have hbits : bits.toNat = 0 ∨ bits.toNat = signBit := by
    unfold signBit at hmod hlt ⊢
    omega
  rcases hbits with h | h
  · exact .inl (congrArg mk (UInt64.toNat_inj.mp h))
  · exact .inr (congrArg mk (UInt64.toNat_inj.mp h))

/-- Numbers that are equal without being one pattern are written with
different first characters. -/
theorem decides_termText {x y : Binary64} (h : x.numEq y = true) :
    Decides (x = y) x.termText y.termText := by
  by_cases hxy : x = y
  · exact .of_eq hxy (by rw [hxy])
  have hzeros : x.isZero = true ∧ y.isZero = true := by
    simpa [numEq, hxy] using (Bool.and_eq_true_iff.mp h).2
  have hplus : (termText ⟨0⟩).toList = '0' :: ['.', '0'] := by decide +kernel
  have hminus : (termText ⟨0x8000000000000000⟩).toList = '-' :: ['0', '.', '0'] := by
    decide +kernel
  rcases isZero_cases hzeros.1 with rfl | rfl <;> rcases isZero_cases hzeros.2 with rfl | rfl
  · exact absurd rfl hxy
  · exact .of_head_ne hplus hminus (by decide)
  · exact .of_head_ne hminus hplus (by decide)
  · exact absurd rfl hxy

end Binary64

theorem mapM_eq_some_map {α β : Type} {f : α → Option β} {g : α → β} {xs : List α}
    (h : ∀ x ∈ xs, f x = some (g x)) : xs.mapM f = some (xs.map g) := by
  induction xs with
  | nil => rfl
  | cons x xs ih =>
    rw [List.mapM_cons, h x List.mem_cons_self, ih fun y hy => h y (List.mem_cons_of_mem x hy)]
    rfl

/-- The text of a compound term, given those of its arguments. -/
def Text.application (functor : String) : List String → String
  | [] => functorText functor
  | shown => functorText functor ++ "(" ++ String.intercalate ", " shown ++ ")"

namespace Arena

variable {V : Type} {u : Use} {a b : Arena V} {t s q : Term}

/-! ## The text of a term that is held -/

/-- A compound handle that can be opened is seen with its functor and its
arguments. -/
theorem view_of_shell? {r : Reference} {f : String} {ts : List Term}
    (h : a.shell? (.compound r) = some (f, ts)) :
    a.view (.compound r) = .ok (.compound f ts) := by
  obtain ⟨name, signature, span, hn, hspan⟩ :=
    WellFormed.exists_span (args_of_shell? h)
  simp only [shell?, functor, args, node, hn, operandsOf, hspan, bind, Except.bind] at h
  cases h
  simp only [view, node, hn, operandsOf, hspan, bind, Except.bind, pure, Except.pure]

variable [Payload V]

/-- The text of a term that has one. -/
def wording (a : Arena V) (t : Term) : String := (a.text? t).getD ""

theorem text?_of_namedVar? {r : Reference} {name : String} {type : VarType}
    (h : a.namedVar? (.var r) = some (name, type)) : a.text? (.var r) = some name := by
  simp only [namedVar?] at h
  split at h
  · next found _ hn =>
    cases h
    rw [text?_eq, showStep]
    simp only [view, node, hn, bind, Except.bind]
    rfl
  · cases h

theorem text?_of_payloadValue? {r : Reference} {v : V}
    (h : a.payloadValue? (.payload r) = some v) :
    a.text? (.payload r) = some (Payload.text v) := by
  simp only [payloadValue?] at h
  split at h
  · next value hn =>
    cases h
    rw [text?_eq, showStep]
    simp only [view, node, hn, bind, Except.bind]
  · cases h

/-- The text of a compound term whose arguments have texts. -/
theorem text?_of_shell? (wf : a.WellFormed u) {r : Reference} {f : String} {ts : List Term}
    (h : a.shell? (.compound r) = some (f, ts))
    (hargs : ∀ s ∈ ts, a.text? s = some (a.wording s)) :
    a.text? (.compound r) = some (Text.application f (ts.map a.wording)) := by
  rw [text?_eq, showStep, view_of_shell? h]
  cases ts with
  | nil => rfl
  | cons t ts =>
    have hlower : ∀ s ∈ t :: ts, (if s.height < (Term.compound r).height then a.text? s else none) =
        some (a.wording s) := by
      intro s hs
      rw [if_pos (wf.args_sound (args_of_shell? h) s hs).2]
      exact hargs s hs
    simp only [mapM_eq_some_map hlower, bind, Option.bind]
    rfl

/-- Every term that the arena holds has a text. -/
theorem WellFormed.text?_eq_wording (wf : a.WellFormed .documented)
    (ht : a.Holds .documented t) : a.text? t = some (a.wording t) := by
  suffices ∃ x, a.text? t = some x by
    obtain ⟨x, hx⟩ := this
    rw [wording, hx]
    rfl
  refine wf.inductionUnder (P := fun t => ∃ x, a.text? t = some x) ?_ ht
  intro t ht ih
  rcases wf.cases_holds ht with ⟨r, name, type, rfl, hname⟩ | ⟨r, f, ts, rfl, hshell⟩ | hl
  · exact ⟨name, text?_of_namedVar? hname⟩
  · refine ⟨_, text?_of_shell? wf hshell fun s hs => ?_⟩
    obtain ⟨x, hx⟩ := ih s (by rwa [argsOrNone_of_shell? hshell])
    rw [wording, hx]
    rfl
  · cases t with
    | var _ | compound _ => cases hl
    | payload r =>
      obtain ⟨⟨v, hv⟩, -⟩ := wf.carried ht
      exact ⟨_, text?_of_payloadValue? hv⟩
    | _ => exact ⟨_, text?_eq a _⟩

/-- The text of a compound term that is held. -/
theorem WellFormed.wording_compound (wf : a.WellFormed .documented) {r : Reference} {f : String}
    {ts : List Term} (h : a.shell? (.compound r) = some (f, ts)) :
    a.wording (.compound r) = Text.application f (ts.map a.wording) := by
  have hargs : ∀ s ∈ ts, a.text? s = some (a.wording s) := fun s hs =>
    wf.text?_eq_wording (wf.args_sound (args_of_shell? h) s hs).1
  rw [wording, text?_of_shell? wf h hargs]
  rfl

theorem wording_of_namedVar? {r : Reference} {name : String} {type : VarType}
    (h : a.namedVar? (.var r) = some (name, type)) : a.wording (.var r) = name := by
  rw [wording, text?_of_namedVar? h]
  rfl

/-! ## Texts never change -/

/-- Under documented use the text of a handle is the same in every
extension. -/
theorem Extends.wording_frozen (wf : a.WellFormed .documented) (wf' : b.WellFormed .documented)
    (hab : a.Extends b) (ht : a.Holds .documented t) : b.wording t = a.wording t := by
  refine wf.inductionUnder (P := fun t => b.wording t = a.wording t) ?_ ht
  intro t ht ih
  rcases wf.cases_holds ht with ⟨r, name, type, rfl, hname⟩ | ⟨r, f, ts, rfl, hshell⟩ | hl
  · rw [wording_of_namedVar? hname, wording_of_namedVar? (hab.namedVar?_eq hname)]
  · rw [argsOrNone_of_shell? hshell] at ih
    rw [wf.wording_compound hshell, wf'.wording_compound (hab.shell?_eq hshell),
      List.map_congr_left ih]
  · cases t with
    | var _ | compound _ => cases hl
    | payload r =>
      obtain ⟨⟨v, hv⟩, -⟩ := wf.carried ht
      rw [wording, wording, text?_of_payloadValue? hv,
        text?_of_payloadValue? (hab.payloadValue?_eq hv)]
    | _ => rfl

/-- Indexes are no part of the text. -/
theorem Marks.wording_eq {mark : Term → Option Index} (h : a.Marks mark b) :
    b.wording t = a.wording t := by
  rw [h.tables]
  rfl

/-! ## Matching terms and their texts -/

/-- Terms that are written alike have one text. -/
theorem ReadsAs.wording_eq (wf : a.WellFormed .documented) (h : a.ReadsAs s q) :
    a.wording s = a.wording q := by
  refine Matches.byArgs (P := fun s q => a.wording s = a.wording q) h ?_ ?_ ?_
  · intro r r' hend
    obtain ⟨name, type, type', hs, hq⟩ := hend
    rw [wording_of_namedVar? hs, wording_of_namedVar? hq]
  · rintro s q - - rfl
    rfl
  · intro r r' f ss qs hs hq _ ih
    have hmaps : ss.map a.wording = qs.map a.wording := by
      rw [← List.forall₂_eq_eq_eq, List.forall₂_map_left_iff, List.forall₂_map_right_iff]
      exact ih
    rw [wf.wording_compound hs, wf.wording_compound hq, hmaps]

/-- Applications of one functor decide what their arguments decide. -/
theorem decides_application {R : Term → Term → Prop} (f : String) {ss qs : List Term}
    (h : List.Forall₂ (fun s q => Decides (R s q) (a.wording s) (a.wording q)) ss qs) :
    Decides (List.Forall₂ R ss qs) (Text.application f (ss.map a.wording))
      (Text.application f (qs.map a.wording)) := by
  have hall := Decides.intercalate ", " h
  cases h with
  | nil => exact .of_eq .nil rfl
  | cons hsq hrest =>
    have hsame (x : String) : Decides True x x := .of_eq trivial rfl
    apply (((hsame (Text.functorText f ++ "(")).append hall).append (hsame ")")).mono
    rintro ⟨⟨-, hRs⟩, -⟩
    exact hRs

/-- Matching terms with one text are written alike. -/
theorem Matches.decides (wf : a.WellFormed .documented)
    (h : a.Matches a.SameName Term.Twin s q) :
    Decides (a.ReadsAs s q) (a.wording s) (a.wording q) := by
  refine h.byArgs ?_ ?_ ?_
  · intro r r' hname
    have hreads : a.ReadsAs (.var r) (.var r') := .var hname
    exact .of_eq hreads (hreads.wording_eq wf)
  · intro s q hs hq htwin
    rcases htwin.cases with rfl | ⟨x, y, rfl, rfl, hxy⟩
    · exact .of_eq (.leaf hs hq rfl) rfl
    · exact (Binary64.decides_termText hxy).mono fun heq => .leaf hs hq (congrArg Term.real heq)
  · intro r r' f ss qs hs hq _ ih
    rw [wf.wording_compound hs, wf.wording_compound hq]
    exact (decides_application f ih).mono fun hall => .ofArgs hs hq hall

/-- So of matching terms those with one text are the ones written alike. -/
theorem Matches.wording_eq_iff (wf : a.WellFormed .documented)
    (h : a.Matches a.SameName Term.Twin s q) : a.wording s = a.wording q ↔ a.ReadsAs s q :=
  ⟨(h.decides wf).holds, fun hreads => hreads.wording_eq wf⟩

end Arena

end TermGraph
