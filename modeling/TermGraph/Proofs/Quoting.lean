import TermGraph.Text.Quoted

/-!
# Quoting — functors that can be read back

A functor that is not bare is written between single quotes. Writing goes
one character at a time, and makes two of a quote and of a line end.
Reading has to look at TWO characters at a time, because a quote between
the quotes is only ever half of a pair, and a backslash may begin one.

That is unambiguous for the quotes: whatever the text, and also where it
has runs of quotes or begins or ends with one, the quotes that are written
between the outer ones come in adjacent pairs (`QuotedBody`). And what is
quoted is never taken for something bare, because no bare functor begins
with a quote.

## What is not promised

A backslash is written as itself. So a backslash before an `n` and a line
end are written alike, and reading takes both for the line end:
`readBody_quotedChars_iff` says that these places are the only ones where
a text is not read back.

## What is proved

`functorText_readable` — which functors stay as they are, how the others
are written, and what reading gives back.
-/

namespace TermGraph

namespace Text

/-! ## The written forms -/

/-- A character that may follow the first one of a bare functor: an ASCII
letter, a digit or an underscore. -/
def FollowsInBare (c : Char) : Prop :=
  'A' ≤ c ∧ c ≤ 'Z' ∨ 'a' ≤ c ∧ c ≤ 'z' ∨ '0' ≤ c ∧ c ≤ '9' ∨ c = '_'

/-- The texts that are functors without quotes. -/
inductive BareFunctor : List Char → Prop
  | cut : BareFunctor ['!']
  | word {first : Char} {rest : List Char} (small : 'a' ≤ first ∧ first ≤ 'z')
    (following : ∀ c ∈ rest, FollowsInBare c) : BareFunctor (first :: rest)

/-- What may stand between two quotes: quotes in adjacent pairs, and no line
end. -/
inductive QuotedBody : List Char → Prop
  | nil : QuotedBody []
  | pair {rest : List Char} (tail : QuotedBody rest) : QuotedBody ('\'' :: '\'' :: rest)
  | other {c : Char} {rest : List Char} (quote : c ≠ '\'') (feed : c ≠ '\n') (back : c ≠ '\r')
    (tail : QuotedBody rest) : QuotedBody (c :: rest)

/-- Reads what stands between two quotes, from left to right: two quotes for
one, and a backslash with the letter of a line end for the line end. -/
def readBody : List Char → List Char
  | '\'' :: '\'' :: rest => '\'' :: readBody rest
  | '\\' :: 'n' :: rest => '\n' :: readBody rest
  | '\\' :: 'r' :: rest => '\r' :: readBody rest
  | c :: rest => c :: readBody rest
  | [] => []

/-- Somewhere a backslash stands before the letter of a line end. -/
def LooksEscaped (cs : List Char) : Prop := ['\\', 'n'] <:+: cs ∨ ['\\', 'r'] <:+: cs

/-! ## Bare functors -/

theorem isBareChar_iff (c : Char) : isBareChar c = true ↔ FollowsInBare c := by
  show (decide ('A' ≤ c ∧ c ≤ 'Z') || (decide ('a' ≤ c) && decide (c ≤ 'z')) ||
    (decide ('0' ≤ c) && decide (c ≤ '9')) || c == '_') = true ↔ _
  simp only [Bool.or_eq_true, Bool.and_eq_true, decide_eq_true_eq, beq_iff_eq, FollowsInBare,
    or_assoc]

theorem isLower_iff (c : Char) : c.isLower = true ↔ 'a' ≤ c ∧ c ≤ 'z' := by
  show (decide ('a' ≤ c) && decide (c ≤ 'z')) = true ↔ _
  rw [Bool.and_eq_true, decide_eq_true_eq, decide_eq_true_eq]

/-- Bare functors are those of the grammar. -/
theorem isBare_iff (s : String) : isBare s = true ↔ BareFunctor s.toList := by
  have hcut : s = "!" ↔ s.toList = "!".toList := String.toList_inj.symm
  rw [isBare, Bool.or_eq_true, beq_iff_eq, hcut]
  constructor
  · intro h
    rcases h with h | h
    · rw [h]
      exact .cut
    · split at h
      · cases h
      · next first rest hlist =>
        rw [hlist]
        rw [Bool.and_eq_true, isLower_iff, List.all_eq_true] at h
        exact .word h.1 fun c hc => (isBareChar_iff c).mp (h.2 c hc)
  · generalize s.toList = cs
    intro h
    cases h with
    | cut => exact .inl rfl
    | @word first rest small following =>
      right
      show (first.isLower && rest.all isBareChar) = true
      rw [Bool.and_eq_true, isLower_iff, List.all_eq_true]
      exact ⟨small, fun c hc => (isBareChar_iff c).mpr (following c hc)⟩

instance (cs : List Char) : Decidable (BareFunctor cs) :=
  decidable_of_iff (isBare (String.ofList cs) = true) (by rw [isBare_iff, String.toList_ofList])

/-! ## The body between the quotes -/

/-- What a character becomes between quotes. -/
theorem quotedChar_cases (c : Char) :
    c = '\'' ∨ c = '\n' ∨ c = '\r' ∨
      (c ≠ '\'' ∧ c ≠ '\n' ∧ c ≠ '\r' ∧ quotedChar c = [c]) := by
  unfold quotedChar
  split
  · exact .inl ‹_›
  · split
    · exact .inr (.inl ‹_›)
    · split
      · exact .inr (.inr (.inl ‹_›))
      · exact .inr (.inr (.inr ⟨‹_›, ‹_›, ‹_›, rfl⟩))

/-- Whatever is written between quotes may stand there. -/
theorem quotedBody_quotedChars (cs : List Char) : QuotedBody (cs.flatMap quotedChar) := by
  induction cs with
  | nil => exact .nil
  | cons c rest ih =>
    rw [List.flatMap_cons]
    rcases quotedChar_cases c with rfl | rfl | rfl | ⟨hquote, hfeed, hback, hself⟩
    · exact .pair ih
    · refine .other (by decide) (by decide) (by decide) ?_
      exact .other (by decide) (by decide) (by decide) ih
    · refine .other (by decide) (by decide) (by decide) ?_
      exact .other (by decide) (by decide) (by decide) ih
    · rw [hself]
      exact .other hquote hfeed hback ih

/-- A character that begins no pair stands for itself. -/
theorem readBody_cons {c : Char} {rest : List Char} (hquote : c ≠ '\'')
    (hescape : c = '\\' → rest.head? ≠ some 'n' ∧ rest.head? ≠ some 'r') :
    readBody (c :: rest) = c :: readBody rest := by
  rw [readBody]
  · rintro rest rfl rfl
    exact hquote rfl
  · rintro rest rfl rfl
    exact (hescape rfl).1 rfl
  · rintro rest rfl rfl
    exact (hescape rfl).2 rfl

/-- The letter of a line end begins what is written for a text if it begins
the text. -/
theorem head?_quotedChars {d : Char} (hd : d = 'n' ∨ d = 'r') (cs : List Char) :
    (cs.flatMap quotedChar).head? = some d ↔ cs.head? = some d := by
  cases cs with
  | nil => exact Iff.rfl
  | cons c rest =>
    rw [List.flatMap_cons]
    rcases quotedChar_cases c with rfl | rfl | rfl | ⟨-, -, -, hself⟩
    · rcases hd with rfl | rfl <;> simp [quotedChar]
    · rcases hd with rfl | rfl <;> simp [quotedChar]
    · rcases hd with rfl | rfl <;> simp [quotedChar]
    · rw [hself]
      rfl

theorem looksEscaped_cons {c : Char} {rest : List Char} :
    LooksEscaped (c :: rest) ↔
      c = '\\' ∧ (rest.head? = some 'n' ∨ rest.head? = some 'r') ∨ LooksEscaped rest := by
  have hpair (d : Char) : ['\\', d] <+: c :: rest ↔ c = '\\' ∧ rest.head? = some d := by
    rw [List.cons_prefix_cons, eq_comm]
    cases rest <;> simp [eq_comm]
  rw [LooksEscaped, List.infix_cons_iff, List.infix_cons_iff, hpair, hpair, LooksEscaped,
    and_or_left]
  exact or_or_or_comm ..

/-- A TEXT IS READ BACK exactly if no backslash in it stands before the
letter of a line end. -/
theorem readBody_quotedChars_iff (cs : List Char) :
    readBody (cs.flatMap quotedChar) = cs ↔ ¬LooksEscaped cs := by
  induction cs with
  | nil => simp [readBody, LooksEscaped]
  | cons c rest ih =>
    rw [List.flatMap_cons, looksEscaped_cons, not_or, ← ih]
    rcases quotedChar_cases c with rfl | rfl | rfl | ⟨hquote, -, -, hself⟩
    · simp [quotedChar, readBody]
    · simp [quotedChar, readBody]
    · simp [quotedChar, readBody]
    · rw [hself, List.singleton_append]
      by_cases hescape : c = '\\' ∧ (rest.head? = some 'n' ∨ rest.head? = some 'r')
      · -- What is read begins with a line end, and the text with a backslash.
        obtain ⟨rfl, hhead⟩ := hescape
        cases rest with
        | nil => simp at hhead
        | cons d rest =>
          rcases hhead with hd | hd <;> cases hd <;> simp [quotedChar, readBody]
      · have hhead (hc : c = '\\') : (rest.flatMap quotedChar).head? ≠ some 'n' ∧
            (rest.flatMap quotedChar).head? ≠ some 'r' := by
          rw [Ne, Ne, head?_quotedChars (.inl rfl), head?_quotedChars (.inr rfl), ← not_or]
          exact fun h => hescape ⟨hc, h⟩
        rw [readBody_cons hquote hhead, List.cons.injEq]
        simp [hescape]

/-! ## Functors -/

/-- What is quoted stands between two quotes, and is longer than it was. -/
theorem toList_quoted (s : String) :
    (quoted s).toList = '\'' :: s.toList.flatMap quotedChar ++ ['\''] :=
  String.toList_ofList

theorem functorText_of_bare {s : String} (h : BareFunctor s.toList) : functorText s = s := by
  rw [functorText, if_pos ((isBare_iff s).mpr h)]

theorem functorText_of_not_bare {s : String} (h : ¬BareFunctor s.toList) :
    functorText s = quoted s := by
  rw [functorText, if_neg (mt (isBare_iff s).mp h)]

/-- No bare functor begins with a quote. -/
theorem BareFunctor.head?_ne {cs : List Char} (h : BareFunctor cs) : cs.head? ≠ some '\'' := by
  cases h with
  | cut => decide
  | word small _ =>
    intro hhead
    cases hhead
    exact absurd small (by decide)

/-- What is quoted begins with a quote. -/
theorem head?_quoted (s : String) : (quoted s).toList.head? = some '\'' := by
  rw [toList_quoted]
  rfl

/-- No character is dropped. -/
theorem length_le_quotedChars (cs : List Char) : cs.length ≤ (cs.flatMap quotedChar).length := by
  induction cs with
  | nil => exact Nat.le_refl 0
  | cons c rest ih =>
    have hone : 1 ≤ (quotedChar c).length := by
      rcases quotedChar_cases c with rfl | rfl | rfl | ⟨-, -, -, hself⟩
      · decide
      · decide
      · decide
      · rw [hself]
        exact Nat.le_refl 1
    rw [List.flatMap_cons, List.length_append, List.length_cons]
    omega

/-- So quoting changes every text, by the outer quotes at least. -/
theorem quoted_ne (s : String) : quoted s ≠ s := by
  intro h
  have hlength := congrArg (fun t => t.toList.length) h
  have hle := length_le_quotedChars s.toList
  simp only [toList_quoted, List.cons_append, List.length_cons, List.length_append] at hlength
  omega

/-- A text without a backslash has none before a letter. -/
theorem not_looksEscaped {cs : List Char} (h : '\\' ∉ cs) : ¬LooksEscaped cs := by
  rintro (hfound | hfound)
  · exact h (hfound.subset List.mem_cons_self)
  · exact h (hfound.subset List.mem_cons_self)

/-- Texts that are written alike are equal, if reading gives both back. -/
theorem functorText_inj {s t : String} (hs : ¬LooksEscaped s.toList)
    (ht : ¬LooksEscaped t.toList) (h : functorText s = functorText t) : s = t := by
  by_cases hbare : BareFunctor s.toList <;> by_cases hbare' : BareFunctor t.toList
  · rwa [functorText_of_bare hbare, functorText_of_bare hbare'] at h
  · rw [functorText_of_bare hbare, functorText_of_not_bare hbare'] at h
    exact absurd (h ▸ head?_quoted t) hbare.head?_ne
  · rw [functorText_of_not_bare hbare, functorText_of_bare hbare'] at h
    exact absurd (h ▸ head?_quoted s) hbare'.head?_ne
  · rw [functorText_of_not_bare hbare, functorText_of_not_bare hbare'] at h
    have hlist := congrArg String.toList h
    rw [toList_quoted, toList_quoted] at hlist
    have hbody := List.append_cancel_right (List.cons.inj hlist).2
    apply String.toList_inj.mp
    rw [← (readBody_quotedChars_iff _).mpr hs, hbody, (readBody_quotedChars_iff _).mpr ht]

/-- FUNCTORS CAN BE READ BACK. A functor is written as it is exactly if it
is bare. Any other one is written between two quotes, with the quotes
between these in adjacent pairs and without a line end; and if it has no
backslash, reading from left to right gives it back. So two functors without
a backslash that are written alike are one. -/
theorem functorText_readable :
    (∀ s, functorText s = s ↔ BareFunctor s.toList) ∧
      (∀ s, ¬BareFunctor s.toList → ∃ body, (functorText s).toList = '\'' :: body ++ ['\''] ∧
        QuotedBody body ∧ ('\\' ∉ s.toList → readBody body = s.toList)) ∧
      ∀ s t, '\\' ∉ s.toList → '\\' ∉ t.toList → functorText s = functorText t → s = t := by
  refine ⟨fun s => ⟨fun h => ?_, functorText_of_bare⟩, fun s hs => ?_, fun s t hs ht h => ?_⟩
  · refine Decidable.byContradiction fun hs => ?_
    exact quoted_ne s ((functorText_of_not_bare hs).symm.trans h)
  · refine ⟨s.toList.flatMap quotedChar, ?_, quotedBody_quotedChars _, fun hplain => ?_⟩
    · rw [functorText_of_not_bare hs, toList_quoted]
    · exact (readBody_quotedChars_iff _).mpr (not_looksEscaped hplain)
  · exact functorText_inj (not_looksEscaped hs) (not_looksEscaped ht) h

/-- A functor with quotes at both ends, a run of them, and a line end. -/
theorem functorText_readable_sample :
    functorText "\x27\n\x27\x27" = "\x27\x27\x27\\n\x27\x27\x27\x27\x27" ∧
      ∃ body, (functorText "\x27\n\x27\x27").toList = '\'' :: body ++ ['\''] ∧
        QuotedBody body ∧ readBody body = "\x27\n\x27\x27".toList := by
  obtain ⟨body, hwritten, hbody, hread⟩ :=
    functorText_readable.2.1 "\x27\n\x27\x27" (by decide)
  exact ⟨by decide, body, hwritten, hbody, hread (by decide)⟩

end Text

end TermGraph
