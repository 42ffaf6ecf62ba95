import TermGraph.Proofs.Session
import TermGraph.Proofs.Vocabulary

/-!
# Histories — what a host has done

A reachable session says what there is, and not how it came about. A
HISTORY says both: which operations ran, each with the session it ran in,
and which names were minted. A host may also mint a name alone and make no
variable of it; no copy changes then, and only the supply moves on.

So a history is where the question can be asked who brought a name into an
arena. The answer is by a vocabulary: if everything that was spelled,
minted or passed in is within one, then so is everything that there is.
What a copy has handed out before needs no question, because it was within
the vocabulary when it was handed out.

## What is proved

`Session.History.within` — the law of vocabularies for whole histories.
`Session.Reachable.exists_history` — every reachable session has one.
-/

namespace TermGraph

/-- A call of an operation: the session before it, and the operation. -/
structure Call (V : Type) where
  before : Session V
  op : Operation V

/-- The caller passes a handle that no copy has handed out. -/
def Call.Forges {V : Type} (call : Call V) (t : Term) : Prop :=
  t ∈ call.op.given ∧ ∀ c ∈ call.before.copies, t ∉ c.issued

namespace Session

variable {V : Type} {u : Use} {s : Session V} {calls : List (Call V)} {minted : List String}

/-- The calls that were made and the names that were minted on the way to a
session, the latest first. -/
inductive History (u : Use) : List (Call V) → List String → Session V → Prop
  | start : History u [] [] start
  /-- An arena is created. -/
  | create {calls : List (Call V)} {minted : List String} {s : Session V}
    (h : History u calls minted s) (id : ArenaId) :
    History u calls minted { s with copies := .blank id :: s.copies }
  /-- A copy is taken. -/
  | copy {calls : List (Call V)} {minted : List String} {s : Session V} {c : Copy V}
    (h : History u calls minted s) (hc : c ∈ s.copies) :
    History u calls minted { s with copies := c :: s.copies }
  /-- An operation runs on a copy. -/
  | operate {calls : List (Call V)} {minted : List String} {before after : List (Copy V)}
    {c : Copy V} {supply : NameSupply} (op : Operation V)
    (h : History u calls minted ⟨before ++ c :: after, supply⟩)
    (hgiven : ∀ t ∈ op.given, c.Admits u t) :
    History u (⟨⟨before ++ c :: after, supply⟩, op⟩ :: calls) (op.minted supply ++ minted)
      ⟨before ++ c.after supply op :: after, op.supplyAfter supply⟩
  /-- A name is minted, and no variable made of it. -/
  | mint {calls : List (Call V)} {minted : List String} {s : Session V}
    (h : History u calls minted s) :
    History u calls (s.supply.name :: minted) { s with supply := s.supply.next }

/-- Every reachable session has a history. -/
theorem Reachable.exists_history (hs : s.Reachable u) :
    ∃ calls minted, History u calls minted s := by
  induction hs with
  | start => exact ⟨[], [], .start⟩
  | step _ move ih =>
    obtain ⟨calls, minted, h⟩ := ih
    cases move with
    | create _ id => exact ⟨_, _, .create h id⟩
    | copy _ hc => exact ⟨_, _, .copy h hc⟩
    | operate op hgiven => exact ⟨_, _, .operate op h hgiven⟩

namespace History

/-- Every copy is in order, as in a reachable session. -/
theorem inOrder (h : History u calls minted s) : ∀ c ∈ s.copies, c.InOrder u := by
  induction h with
  | start => exact fun _ hc => by cases hc
  | create _ id ih => exact (Step.create _ id).inOrder ih
  | copy _ hc ih => exact (Step.copy _ hc).inOrder ih
  | operate op _ hgiven ih => exact (Step.operate op hgiven).inOrder ih
  | mint _ ih => exact ih

/-- EVERYTHING THERE IS IS WITHIN A VOCABULARY, if what was spelled and
minted is, and what was passed in without having been handed out. -/
theorem within {v : Vocabulary} (h : History u calls minted s)
    (hminted : ∀ name ∈ minted, v.vars name)
    (hnames : ∀ call ∈ calls, ∀ name ∈ call.op.names, v.vars name)
    (htexts : ∀ call ∈ calls, ∀ text ∈ call.op.texts, v.atoms text)
    (hforged : ∀ call ∈ calls, ∀ t, call.Forges t → t.Within v) :
    ∀ c ∈ s.copies, c.arena.Within v ∧ ∀ t ∈ c.issued, t.Within v := by
  induction h with
  | start => exact fun _ hc => by cases hc
  | create _ id ih =>
    intro c hc
    rcases List.mem_cons.mp hc with rfl | hc
    · exact ⟨.empty id, List.forall_mem_nil _⟩
    · exact ih hminted hnames htexts hforged c hc
  | copy _ hc' ih =>
    intro c hc
    rcases List.mem_cons.mp hc with rfl | hc
    · exact ih hminted hnames htexts hforged c hc'
    · exact ih hminted hnames htexts hforged c hc
  | @operate calls minted before after c supply op _ _ ih =>
    rw [List.forall_mem_cons] at hnames htexts hforged
    rw [List.forall_mem_append] at hminted
    have hbefore := ih hminted.2 hnames.2 htexts.2 hforged.2
    have hc := hbefore c (List.mem_append_right _ List.mem_cons_self)
    have hcovers : v.Covers (op.minted supply ++ op.names) op.texts op.given := by
      refine ⟨List.forall_mem_append.mpr ⟨hminted.1, hnames.1⟩, htexts.1, fun t ht => ?_⟩
      by_cases hissued : ∃ d ∈ before ++ c :: after, t ∈ d.issued
      · obtain ⟨d, hd, hmem⟩ := hissued
        exact (hbefore d hd).2 t hmem
      · exact hforged.1 t ⟨ht, fun d hd hmem => hissued ⟨d, hd, hmem⟩⟩
    have hrun := op.run_within hc.1 hcovers
    intro d hd
    rcases List.mem_append.mp hd with hd | hd
    · exact hbefore d (List.mem_append_left _ hd)
    · rcases List.mem_cons.mp hd with rfl | hd
      · exact ⟨hrun.1, List.forall_mem_append.mpr ⟨hrun.2, hc.2⟩⟩
      · exact hbefore d (List.mem_append_right _ (List.mem_cons_of_mem _ hd))
  | mint _ ih => exact ih (List.forall_mem_cons.mp hminted).2 hnames htexts hforged

end History

end Session

end TermGraph
