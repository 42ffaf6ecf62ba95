import TermGraph.Proofs.Subterms
import TermGraph.Proofs.Session

/-!
# Signatures — what a signature says, and what it is a signature of

A functor may contain slashes and digits, so it may look like a signature
itself. Reading is unambiguous all the same: the arity is written in decimal
and has no slash, so the LAST slash is the one that was put between them.

Reading is asked of any text, and not of signatures only. Which texts have
a functor and which have an arity is a matter of their form:
`functor_eq_ok_iff` and `arity_eq_ok_iff` say which, and nothing else is
read.

The empty functor is the one that does not read back, because a slash in
the first place is refused. Two signatures still differ whenever their
functors or arities do (`text_inj`), with the empty functor among them.

## What is proved

`Session.Reachable.signatures_decode` — of atoms and compound terms on any
copy a host can reach, however it uses handles.
-/

namespace TermGraph

namespace Signature

variable {s f g : String} {n m : Nat} {cs : List Char}

/-! ## The last slash -/

/-- A split is at a slash, and no slash comes after it. -/
theorem splitLastSlash_eq_some_iff {before after : List Char} :
    splitLastSlash cs = some (before, after) ↔ cs = before ++ '/' :: after ∧ '/' ∉ after := by
  constructor
  · intro h
    induction cs generalizing before with
    | nil => cases h
    | cons c rest ih =>
      rw [splitLastSlash] at h
      cases hrest : splitLastSlash rest with
      | some parts =>
        rw [hrest] at h
        cases h
        obtain ⟨heq, hnot⟩ := ih hrest
        exact ⟨by rw [heq, List.cons_append], hnot⟩
      | none =>
        rw [hrest] at h
        dsimp only at h
        split at h
        · next hc =>
          cases h
          exact ⟨by rw [hc, List.nil_append], splitLastSlash_eq_none_iff.mp hrest⟩
        · cases h
  · rintro ⟨rfl, hnot⟩
    exact splitLastSlash_append hnot

/-- The two parts of a text are those of its last split, and the first one is
not empty. -/
theorem split_eq_ok_iff_splitLastSlash {rest : String} :
    split s = .ok (f, rest) ↔
      f ≠ "" ∧ splitLastSlash s.toList = some (f.toList, rest.toList) := by
  have hempty : f = "" ↔ f.toList = [] := String.toList_eq_nil_iff.symm
  rw [split, Ne, hempty]
  constructor
  · intro h
    split at h
    · next c before after hsplit =>
      cases h
      rw [String.toList_ofList, String.toList_ofList, hsplit]
      exact ⟨List.cons_ne_nil c before, rfl⟩
    · cases h
  · rintro ⟨hne, hsplit⟩
    rw [hsplit]
    cases hf : f.toList with
    | nil => exact absurd hf hne
    | cons c before =>
      dsimp only
      rw [← hf, String.ofList_toList, String.ofList_toList]

/-- The two parts of a signature. -/
theorem split_eq_ok_iff {rest : String} :
    split s = .ok (f, rest) ↔ f ≠ "" ∧ s = f ++ "/" ++ rest ∧ '/' ∉ rest.toList := by
  have hform : s = f ++ "/" ++ rest ↔ s.toList = f.toList ++ '/' :: rest.toList := by
    rw [← String.toList_inj, String.toList_append, String.toList_append, List.append_assoc]
    rfl
  rw [split_eq_ok_iff_splitLastSlash, splitLastSlash_eq_some_iff, hform]

/-- A text that has no two parts is reported as it is. -/
theorem split_eq_error {e : TermError} (h : split s = .error e) : e = .invalidSignature s := by
  rw [split] at h
  split at h
  · cases h
  · cases h
    rfl

/-- A text has no two parts if it has no slash, or if its last one comes
first. -/
theorem exists_split_eq_error_iff :
    (∃ e, split s = .error e) ↔
      '/' ∉ s.toList ∨ ∃ rest, s.toList = '/' :: rest ∧ '/' ∉ rest := by
  rw [split]
  cases hsplit : splitLastSlash s.toList with
  | none => simp [splitLastSlash_eq_none_iff.mp hsplit]
  | some parts =>
    obtain ⟨before, after⟩ := parts
    obtain ⟨hlist, hnot⟩ := splitLastSlash_eq_some_iff.mp hsplit
    rw [hlist]
    cases before with
    | nil => simp [hnot]
    | cons c before =>
      constructor
      · rintro ⟨e, h⟩
        cases h
      · rintro (h | ⟨rest, heq, hrest⟩)
        · exact absurd (List.mem_append_right _ List.mem_cons_self) h
        · cases heq
          exact absurd (List.mem_append_right _ List.mem_cons_self) hrest

/-! ## The functor -/

/-- THE FUNCTOR OF A TEXT is what comes before its last slash. -/
theorem functor_eq_ok_iff :
    functor s = .ok f ↔ f ≠ "" ∧ ∃ rest, s = f ++ "/" ++ rest ∧ '/' ∉ rest.toList := by
  have hparts : functor s = .ok f ↔ ∃ rest, split s = .ok (f, rest) := by
    rw [functor]
    cases split s with
    | error e => simp [Except.map]
    | ok parts =>
      obtain ⟨g, rest⟩ := parts
      simp [Except.map]
  simp only [hparts, split_eq_ok_iff, exists_and_left]

theorem functor_eq_error_iff {e : TermError} : functor s = .error e ↔ split s = .error e := by
  rw [functor]
  cases split s <;> simp [Except.map]

/-! ## The arity -/

/-- The characters are digits, at least one, for this number of 64 bits. -/
def DigitsDenote (digits : List Char) (n : Nat) : Prop :=
  digits ≠ [] ∧ (∀ c ∈ digits, '0' ≤ c ∧ c ≤ '9') ∧ Nat.ofDigitChars 10 digits 0 = n ∧
    n < UInt64.size

/-- The same after an optional plus sign. -/
def DenotesArity (cs : List Char) (n : Nat) : Prop :=
  DigitsDenote cs n ∨ ∃ digits, cs = '+' :: digits ∧ DigitsDenote digits n

theorem isDigit_iff (c : Char) : c.isDigit = true ↔ '0' ≤ c ∧ c ≤ '9' := by
  simp only [Char.isDigit, Bool.and_eq_true, decide_eq_true_eq, ge_iff_le, Char.le_def]

/-- Digits denote their value, and nothing else denotes anything. -/
theorem digitsValue?_eq_some_iff :
    digitsValue? m cs = some n ↔
      (∀ c ∈ cs, '0' ≤ c ∧ c ≤ '9') ∧ Nat.ofDigitChars 10 cs m = n := by
  induction cs generalizing m with
  | nil => simp [digitsValue?]
  | cons c rest ih =>
    rw [digitsValue?, List.forall_mem_cons, Nat.ofDigitChars_cons, Nat.mul_comm 10 m]
    by_cases hdigit : c.isDigit = true
    · rw [if_pos hdigit, ih, and_assoc]
      exact (and_iff_right ((isDigit_iff c).mp hdigit)).symm
    · rw [if_neg hdigit, and_assoc]
      simp [mt (isDigit_iff c).mpr hdigit]

/-- The number of 64 bits that a list of characters denotes. -/
theorem digitsDenote_iff : DigitsDenote cs n ↔
    cs ≠ [] ∧ (digitsValue? 0 cs).filter (· < UInt64.size) = some n := by
  rw [DigitsDenote, Option.filter_eq_some_iff, digitsValue?_eq_some_iff, decide_eq_true_eq,
    and_assoc]

theorem number?_eq_some_iff : number? s = some n ↔ DenotesArity s.toList n := by
  unfold number? DenotesArity
  generalize s.toList = cs
  rw [digitsDenote_iff]
  cases cs with
  | nil => simp
  | cons c rest =>
    by_cases hc : c = '+'
    · -- A plus sign is no digit, so the digits can only be those after it.
      subst hc
      have hplus : digitsValue? 0 ('+' :: rest) = none := rfl
      dsimp only
      rw [hplus]
      simp only [List.cons.injEq, true_and, exists_eq_left', digitsDenote_iff]
      cases rest <;> simp
    · simp [hc]

/-- THE ARITY OF A TEXT is what the characters after its last slash
denote. -/
theorem arity_eq_ok_iff :
    arity s = .ok n ↔ ∃ f rest, f ≠ "" ∧ s = f ++ "/" ++ rest ∧ '/' ∉ rest.toList ∧
      DenotesArity rest.toList n := by
  have hparts : arity s = .ok n ↔
      ∃ parts : String × String, split s = .ok parts ∧ number? parts.2 = some n := by
    rw [arity, bind_eq_ok_iff]
    refine exists_congr fun parts => and_congr_right fun _ => ?_
    obtain ⟨f, rest⟩ := parts
    dsimp only
    cases number? rest <;> simp
  simp only [hparts, Prod.exists, split_eq_ok_iff, number?_eq_some_iff, and_assoc]

/-- A text without an arity is reported as it is. -/
theorem arity_eq_error {e : TermError} (h : arity s = .error e) : e = .invalidSignature s := by
  rw [arity] at h
  cases hsplit : split s with
  | error e' =>
    rw [hsplit] at h
    cases h
    exact split_eq_error hsplit
  | ok parts =>
    rw [hsplit] at h
    simp only [bind, Except.bind] at h
    cases hnumber : number? parts.2 with
    | none =>
      rw [hnumber] at h
      cases h
      rfl
    | some n =>
      rw [hnumber] at h
      cases h

/-! ## Signatures of functors and arities -/

theorem toList_toString (n : Nat) : (toString n).toList = Nat.toDigits 10 n := by
  rw [Nat.toString_eq_repr, Nat.toList_repr]

/-- A number in decimal is all digits. -/
theorem digit_of_mem_toString {c : Char} (hc : c ∈ (toString n).toList) : '0' ≤ c ∧ c ≤ '9' := by
  rw [toList_toString] at hc
  exact (isDigit_iff c).mp (Nat.isDigit_of_mem_toDigits (by decide) (Nat.le_refl 10) hc)

theorem slash_notMem_toString (n : Nat) : '/' ∉ (toString n).toList :=
  fun h => absurd (digit_of_mem_toString h) (by decide)

theorem ofDigitChars_toString (n : Nat) : Nat.ofDigitChars 10 (toString n).toList 0 = n := by
  rw [toList_toString, Nat.ofDigitChars_toDigits (by decide) (Nat.le_refl 10)]

/-- A number in decimal is read as itself, if it has 64 bits. -/
theorem number?_toString (n : Nat) :
    number? (toString n) = if n < UInt64.size then some n else none := by
  have hvalue (m : Nat) : number? (toString n) = some m ↔ n = m ∧ m < UInt64.size := by
    rw [number?_eq_some_iff]
    constructor
    · rintro (⟨-, -, hn, hlt⟩ | ⟨digits, hplus, -⟩)
      · rw [ofDigitChars_toString] at hn
        exact ⟨hn, hlt⟩
      · have hmem : '+' ∈ (toString n).toList := hplus ▸ List.mem_cons_self
        exact absurd (digit_of_mem_toString hmem) (by decide)
    · rintro ⟨rfl, hlt⟩
      refine .inl ⟨?_, fun c hc => digit_of_mem_toString hc, ofDigitChars_toString n, hlt⟩
      rw [toList_toString]
      exact Nat.toDigits_ne_nil
  split
  · next hlt => exact (hvalue n).mpr ⟨rfl, hlt⟩
  · next hge =>
    refine Option.eq_none_iff_forall_ne_some.mpr fun m hm => ?_
    obtain ⟨rfl, hlt⟩ := (hvalue m).mp hm
    exact hge hlt

/-- A signature is split where it was put together. -/
theorem split_text (hf : f ≠ "") : split (text f n) = .ok (f, toString n) :=
  split_eq_ok_iff.mpr ⟨hf, rfl, slash_notMem_toString n⟩

theorem functor_text (hf : f ≠ "") : functor (text f n) = .ok f := by
  rw [functor, split_text hf]
  rfl

theorem arity_text (hf : f ≠ "") :
    arity (text f n) =
      if n < UInt64.size then .ok n else .error (.invalidSignature (text f n)) := by
  rw [arity, split_text hf]
  simp only [bind, Except.bind, number?_toString]
  by_cases hlt : n < UInt64.size
  · rw [if_pos hlt, if_pos hlt]
  · rw [if_neg hlt, if_neg hlt]

/-- A SIGNATURE IS THAT OF ONE FUNCTOR AND ONE ARITY. The functor may be
empty. -/
theorem text_inj : text f n = text g m ↔ f = g ∧ n = m := by
  have hlist (f : String) (n : Nat) :
      (text f n).toList = f.toList ++ '/' :: (toString n).toList := by
    rw [text, String.toList_append, String.toList_append, List.append_assoc]
    rfl
  constructor
  · intro h
    have hsplit := congrArg (fun s => splitLastSlash s.toList) h
    simp only [hlist, splitLastSlash_append (slash_notMem_toString _), Option.some.injEq,
      Prod.mk.injEq, String.toList_inj] at hsplit
    refine ⟨hsplit.1, ?_⟩
    rw [← ofDigitChars_toString n, hsplit.2, ofDigitChars_toString]
  · rintro ⟨rfl, rfl⟩
    rfl

/-- What every text is read as. -/
structure ReadsText (s : String) : Prop where
  functor_fails : (∃ e, functor s = .error e) ↔
    '/' ∉ s.toList ∨ ∃ rest, s.toList = '/' :: rest ∧ '/' ∉ rest
  functor_reads : ∀ f, functor s = .ok f ↔
    f ≠ "" ∧ ∃ rest, s = f ++ "/" ++ rest ∧ '/' ∉ rest.toList
  arity_reads : ∀ n, arity s = .ok n ↔ ∃ f rest, functor s = .ok f ∧ s = f ++ "/" ++ rest ∧
    '/' ∉ rest.toList ∧ DenotesArity rest.toList n
  refused : ∀ e, functor s = .error e ∨ arity s = .error e → e = .invalidSignature s

theorem readsText (s : String) : ReadsText s where
  functor_fails := by
    simp only [functor_eq_error_iff, exists_split_eq_error_iff]
  functor_reads f := functor_eq_ok_iff
  arity_reads n := by
    rw [arity_eq_ok_iff]
    refine exists_congr fun f => exists_congr fun rest => ?_
    constructor
    · rintro ⟨hf, hs, hnot, hn⟩
      exact ⟨functor_eq_ok_iff.mpr ⟨hf, rest, hs, hnot⟩, hs, hnot, hn⟩
    · rintro ⟨hf, hs, hnot, hn⟩
      exact ⟨(functor_eq_ok_iff.mp hf).1, hs, hnot, hn⟩
  refused e := by
    rintro (h | h)
    · exact split_eq_error (functor_eq_error_iff.mp h)
    · exact arity_eq_error h

end Signature

/-! ## Atoms and compound terms -/

namespace Arena

variable {V : Type} {u : Use} {a b : Arena V} {t q : Term}

/-- The term is an atom or a compound term of the arena. -/
def IsApplication (a : Arena V) (t : Term) : Prop :=
  a.Holds .documented t ∧ (t.isCompound = true ∨ t.isPlainAtom = true)

/-- An atom or a compound term has the signature of its name and its
arity. -/
theorem WellFormed.signature_text (wf : a.WellFormed u) (h : a.IsApplication t) :
    ∃ f n, a.name t = .ok f ∧ a.arity t = .ok n ∧ a.signature t = .ok (Signature.text f n) := by
  obtain ⟨hheld, hkind⟩ := h
  cases t with
  | atom f => exact ⟨f, 0, rfl, rfl, rfl⟩
  | control k => exact ⟨k.name, 0, rfl, rfl, rfl⟩
  | compound r =>
    obtain ⟨f, ts, signature, hf, hts, hsignature, hshell⟩ := wf.shell hheld
    rw [hshell.signature_eq] at hsignature
    exact ⟨f, ts.length, hf, by rw [arity, hts]; rfl, hsignature⟩
  | _ => rcases hkind with hkind | hkind <;> cases hkind

/-- The signature of the term is read back as its name, unless there is
none, and as its arity. Numbers have 64 bits, and a longer list of arguments
does not fit into memory. -/
structure DecodesAs (a : Arena V) (t : Term) (f : String) (n : Nat) (text : String) : Prop where
  name : a.name t = .ok f
  arity : a.arity t = .ok n
  signature : a.signature t = .ok text
  functor_read : f ≠ "" → Signature.functor text = .ok f
  arity_read : f ≠ "" → Signature.arity text =
    if n < UInt64.size then .ok n else .error (.invalidSignature text)

theorem WellFormed.decodes (wf : a.WellFormed u) (h : a.IsApplication t) :
    ∃ f n text, a.DecodesAs t f n text := by
  obtain ⟨f, n, hname, harity, hsignature⟩ := wf.signature_text h
  exact ⟨f, n, Signature.text f n, hname, harity, hsignature, Signature.functor_text,
    Signature.arity_text⟩

/-- Signatures are equal exactly if names and arities are. -/
theorem WellFormed.signature_eq_iff (wfa : a.WellFormed u) (wfb : b.WellFormed u)
    (ht : a.IsApplication t) (hq : b.IsApplication q) :
    a.signature t = b.signature q ↔ a.name t = b.name q ∧ a.arity t = b.arity q := by
  obtain ⟨f, n, hname, harity, hsignature⟩ := wfa.signature_text ht
  obtain ⟨g, m, hname', harity', hsignature'⟩ := wfb.signature_text hq
  simp only [hname, harity, hsignature, hname', harity', hsignature', Except.ok.injEq,
    Signature.text_inj]

end Arena

/-! ## Sessions -/

/-- SIGNATURES ENCODE AND DECODE. Of every atom and every compound term that
a copy holds, the signature is read back as the name and the arity, whatever
characters the name has, unless there are none. Signatures are equal exactly
if names and arities are, empty names included. And every text, signature or
not, is read by its last slash and by the digits after it. -/
theorem Session.Reachable.signatures_decode {V : Type} {u : Use} {s : Session V}
    (hs : s.Reachable u) :
    (∀ c ∈ s.copies, ∀ t, c.arena.IsApplication t →
      ∃ f n text, c.arena.DecodesAs t f n text) ∧
    (∀ c ∈ s.copies, ∀ d ∈ s.copies, ∀ t q, c.arena.IsApplication t → d.arena.IsApplication q →
      (c.arena.signature t = d.arena.signature q ↔
        c.arena.name t = d.arena.name q ∧ c.arena.arity t = d.arena.arity q)) ∧
    ∀ text, Signature.ReadsText text := by
  have wf {c : Copy V} (hc : c ∈ s.copies) : c.arena.WellFormed u := (hs.inOrder c hc).1
  refine ⟨fun c hc t ht => (wf hc).decodes ht, fun c hc d hd t q ht hq => ?_,
    Signature.readsText⟩
  exact (wf hc).signature_eq_iff (wf hd) ht hq

/-- A copy that holds a compound term whose functor looks like a
signature. -/
def Copy.slashed : Copy Scalar :=
  ((Copy.blank ⟨0⟩).afterAll {} [.compound "a/7" [.atom "x"]]).1

/-- The signature `a/7/1` is read back as `a/7` with one argument. -/
theorem Session.signatures_decode_sample :
    Copy.slashed.arena.DecodesAs (.compound ⟨⟨0⟩, 0⟩) "a/7" 1 "a/7/1" := by
  have hs : Session.Reachable .documented ⟨[Copy.slashed], {}⟩ :=
    reachable_alone ⟨0⟩ [.compound "a/7" [.atom "x"]] (by decide +kernel)
  have happlication : Copy.slashed.arena.IsApplication (.compound ⟨⟨0⟩, 0⟩) :=
    ⟨(hs.inOrder _ (List.mem_singleton_self _)).holds (by decide +kernel), .inl rfl⟩
  obtain ⟨f, n, text, h⟩ :=
    (Session.Reachable.signatures_decode hs).1 _ (List.mem_singleton_self _) _ happlication
  have hname : Copy.slashed.arena.name (.compound ⟨⟨0⟩, 0⟩) = .ok "a/7" := by decide +kernel
  have harity : Copy.slashed.arena.arity (.compound ⟨⟨0⟩, 0⟩) = .ok 1 := by decide +kernel
  have htext : Copy.slashed.arena.signature (.compound ⟨⟨0⟩, 0⟩) = .ok "a/7/1" := by
    decide +kernel
  cases h.name.symm.trans hname
  cases h.arity.symm.trans harity
  cases h.signature.symm.trans htext
  exact h

end TermGraph
