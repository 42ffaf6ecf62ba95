import TermGraph.Arena.Build

/-!
# Descent — one recursion for every traversal

Everything that walks a term graph walks it in the same direction: from a
compound term to its arguments. An argument is older than the compound
term that holds it, so its place is smaller, and a walk that starts at
place `n` goes at most `n` levels down.

`walk` is that recursion, written once. A traversal is given by a STEP:
what to do with one term, when the answer for other terms can be asked
for. The recursion is structural on the number of levels left, so there is
no termination question and no invariant to carry. It asks for the answer
of lower terms only; `stop` is the answer where a step asks for another.

## What is proved

`walk_eq` — the number of levels never shows. A walk is its step, applied
to the walk of every lower term, for every step and whatever the tables of
an arena hold. What a well-formed arena adds is only that the terms asked
for ARE lower.

Some traversals build nodes or grow a list of candidates on their way.
They run on a `Workspace`: an arena, and beside it whatever else the
traversal carries.
-/

namespace TermGraph

section Walk

variable {β : Type} (stop : Term → β) (step : (Term → β) → Term → β)

/-- At most `levels` levels of a traversal. -/
@[specialize] def descend : Nat → Term → β
  | 0, t => stop t
  | levels + 1, t =>
    step (fun lower => if lower.height < t.height then descend levels lower else stop lower) t

/-- The traversal of a term by its step. -/
@[inline] def walk (t : Term) : β := descend stop step t.height t

variable {stop step}

/-- Levels beyond the height of a term change nothing. -/
theorem descend_eq_of_height_le {levels more : Nat} {t : Term} (h : t.height ≤ levels)
    (hm : t.height ≤ more) : descend stop step levels t = descend stop step more t := by
  induction levels using Nat.strongRecOn generalizing more t with
  | ind levels ih =>
    have hpos := t.height_pos
    match levels, more with
    | 0, _ => omega
    | _, 0 => omega
    | n + 1, m + 1 =>
      simp only [descend]
      congr 1
      funext lower
      split
      · exact ih n (Nat.lt_succ_self n) (by omega) (by omega)
      · rfl

/-- THE EQUATION OF A WALK: the step, over the walks of lower terms. -/
theorem walk_eq (t : Term) :
    walk stop step t =
      step (fun lower => if lower.height < t.height then walk stop step lower else stop lower) t := by
  obtain ⟨n, hn⟩ : ∃ n, t.height = n + 1 := ⟨t.height - 1, by have := t.height_pos; omega⟩
  simp only [walk, hn, descend]
  congr 1
  funext lower
  split
  · exact descend_eq_of_height_le (by omega) (Nat.le_refl _)
  · rfl

end Walk

/-- An arena, and what a traversal carries beside it. -/
structure Workspace (V σ : Type) where
  arena : Arena V
  carried : σ

/-- A computation on a workspace that can fail and keeps the workspace when
it does. -/
abbrev WorkM (V σ : Type) := EStateM TermError (Workspace V σ)

namespace WorkM

variable {V σ α : Type}

/-- Works on the arena alone. -/
def onArena (m : BuildM V α) : WorkM V σ α := fun w =>
  match w with
  | ⟨arena, carried⟩ =>
    match m arena with
    | .ok x arena => .ok x ⟨arena, carried⟩
    | .error e arena => .error e ⟨arena, carried⟩

/-- Reads the arena. -/
def look (read : Arena V → Except TermError α) : WorkM V σ α := fun w =>
  match read w.arena with
  | .ok x => .ok x w
  | .error e => .error e w

/-- Changes what is carried. -/
def carry (change : σ → σ) : WorkM V σ Unit := fun w =>
  match w with
  | ⟨arena, carried⟩ => .ok () ⟨arena, change carried⟩

/-- Runs on an arena, beside a first value to carry, and answers what is
carried in the end. A failure drops what was carried and keeps the
arena. -/
def beside (m : WorkM V σ α) (carried : σ) : BuildM V (α × σ) := fun arena =>
  match m ⟨arena, carried⟩ with
  | .ok x w => .ok (x, w.carried) w.arena
  | .error e w => .error e w.arena

end WorkM

end TermGraph
