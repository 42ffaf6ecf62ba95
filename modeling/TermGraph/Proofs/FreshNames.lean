import TermGraph.Proofs.History
import TermGraph.Proofs.Normalization

/-!
# Fresh names — fresh among those that were minted

The supply never mints a name twice, whatever arenas the variables are
made in. It does not look at any arena, though, and a name that it mints
is an ordinary text. A caller who spells `_2` before the supply has come
to it has a variable of that name, and the one that is minted later is
called the same.

This matters because factorization goes by names. Two variables under one
term become one exactly if they have one name. So a variable that bears a
minted name is kept apart from every older one, as long as nobody spelled
the name before it was minted; and if somebody did, the two are one
variable in the normal form.

Whether a caller spelled a name can be read off the calls. No other way
for it to get into an arena is left: a copy of a variable, a rebuilt term
and a normal form have the names that were there.

## What is proved

`Session.History.mints_fresh` — what a minted name is worth, in every
history. `Session.minted_name_differs` — it may be that of an older
variable.
-/

namespace TermGraph

namespace Arena

variable {V : Type} {a b d : Arena V} {t r n x y : Term} {p q : List Nat}
  {name name' : String} {type type' : VarType}

/-! ## Variables that are merged -/

/-- Where a variable stood there is a variable of the same name. -/
theorem Factorized.exists_named (h : Factorized a t r b) (wf : a.WellFormed .documented)
    (ht : a.Holds .documented t) (hp : a.at? t p = some x)
    (hx : a.namedVar? x = some (name, type)) :
    ∃ z type', b.at? r p = some z ∧ b.namedVar? z = some (name, type') := by
  have hrel := Matches.positions h.made.tracks p
  rw [h.ext.at?_frozen wf ht, hp] at hrel
  cases x with
  | var v =>
    cases hz : b.at? r p with
    | none =>
      rw [hz] at hrel
      cases hrel
    | some z =>
      rw [hz] at hrel
      cases hrel with
      | some hmatch =>
        obtain ⟨v', rfl, hpicked⟩ := hmatch.ofVar
        obtain ⟨found, type₁, type₂, hfound, hz'⟩ := hpicked.sameName
        rw [h.ext.namedVar?_eq hx] at hfound
        cases hfound
        exact ⟨_, type₂, rfl, hz'⟩
  | _ => cases hx

/-- FACTORIZATION MERGES TWO VARIABLES exactly if they have one name. -/
theorem Factorized.merged_iff (h : Factorized a t r b) (wf : a.WellFormed .documented)
    (ht : a.Holds .documented t) (hp : a.at? t p = some x) (hq : a.at? t q = some y)
    (hx : a.namedVar? x = some (name, type)) (hy : a.namedVar? y = some (name', type')) :
    b.at? r p = b.at? r q ↔ name' = name := by
  obtain ⟨z, type₁, hz, hzn⟩ := h.exists_named wf ht hp hx
  obtain ⟨z', type₂, hz', hzn'⟩ := h.exists_named wf ht hq hy
  rw [hz, hz', Option.some.injEq]
  constructor
  · rintro rfl
    rw [hzn] at hzn'
    cases hzn'
    rfl
  · rintro rfl
    exact h.name_unique z z' ⟨p, hz⟩ ⟨q, hz'⟩ ⟨name', type₁, type₂, hzn, hzn'⟩

/-- In the results of factorizing and of normalizing the term, the places of
the two variables are taken by one variable exactly if the condition
holds. -/
structure MergesIff (a : Arena V) (t x y : Term) (P : Prop) : Prop where
  factorize : ∃ r b, Arena.factorize t a = .ok r b ∧ ∀ p q,
    a.at? t p = some x → a.at? t q = some y → (b.at? r p = b.at? r q ↔ P)
  normalize : ∃ n d, Arena.normalize t a = .ok n d ∧ ∀ p q,
    a.at? t p = some x → a.at? t q = some y → (d.at? n p = d.at? n q ↔ P)

/-- Variables are merged by name. -/
theorem WellFormed.mergesIff (wf : a.WellFormed .documented) (ht : a.Holds .documented t)
    (hx : a.namedVar? x = some (name, type)) (hy : a.namedVar? y = some (name', type')) :
    a.MergesIff t x y (name' = name) := by
  obtain ⟨r, b, hr, hfactorized⟩ := (factorize_ok wf ht).exists_ok
  obtain ⟨n, d, hn, c, hnormalized⟩ := (normalize_ok wf ht).exists_ok
  refine ⟨⟨r, b, hr, fun p q hp hq => hfactorized.merged_iff wf ht hp hq hx hy⟩,
    ⟨n, d, hn, fun p q hp hq => ?_⟩⟩
  rw [hnormalized.numbered.marks.tables, at?_reindexed, at?_reindexed]
  exact hnormalized.factorized.merged_iff wf ht hp hq hx hy

end Arena

/-! ## Names that are minted -/

/-- A name that an operation mints is the next one of the supply, and the
supply moves on. -/
theorem Operation.mem_minted {V : Type} {supply : NameSupply} {op : Operation V} {name : String}
    (h : name ∈ op.minted supply) :
    name = supply.name ∧ supply.last < (op.supplyAfter supply).last := by
  cases op with
  | freshVar α => exact ⟨List.mem_singleton.mp h, Nat.lt_succ_self _⟩
  | _ => cases h

/-- No operation takes the supply back. -/
theorem Operation.last_le_supplyAfter {V : Type} (supply : NameSupply) (op : Operation V) :
    supply.last ≤ (op.supplyAfter supply).last := by
  cases op with
  | freshVar α => exact Nat.le_succ _
  | _ => exact Nat.le_refl _

namespace Session

variable {V : Type} {u : Use} {s : Session V} {calls : List (Call V)} {minted : List String}

/-- What was minted is behind the supply. -/
theorem History.minted_behind (h : History u calls minted s) :
    ∀ name ∈ minted, ∃ earlier : NameSupply, name = earlier.name ∧ earlier.last < s.supply.last := by
  induction h with
  | start => exact List.forall_mem_nil _
  | create _ _ ih => exact ih
  | copy _ _ ih => exact ih
  | @operate _ _ _ _ _ supply op _ _ ih =>
    refine List.forall_mem_append.mpr ⟨fun name hname => ?_, fun name hname => ?_⟩
    · obtain ⟨heq, hlt⟩ := op.mem_minted hname
      exact ⟨supply, heq, hlt⟩
    · obtain ⟨earlier, heq, hlt⟩ := ih name hname
      exact ⟨earlier, heq, Nat.lt_of_lt_of_le hlt (op.last_le_supplyAfter supply)⟩
  | @mint _ _ s _ ih =>
    refine List.forall_mem_cons.mpr ⟨⟨s.supply, rfl, Nat.lt_succ_self _⟩, fun name hname => ?_⟩
    obtain ⟨earlier, heq, hlt⟩ := ih name hname
    exact ⟨earlier, heq, Nat.lt_succ_of_lt hlt⟩

/-- The next name was not minted before. -/
theorem History.name_not_minted (h : History u calls minted s) : s.supply.name ∉ minted := by
  intro hmem
  obtain ⟨earlier, heq, hlt⟩ := h.minted_behind _ hmem
  rw [NameSupply.name_injective heq] at hlt
  exact Nat.lt_irrefl _ hlt

/-- The name of a variable was minted, or some caller spelled it. -/
theorem History.minted_or_spelled (h : History u calls minted s) {c : Copy V} (hc : c ∈ s.copies)
    {x : Term} {name : String} {type : VarType} (hx : c.arena.namedVar? x = some (name, type)) :
    name ∈ minted ∨ ∃ call ∈ calls, name ∈ call.op.names := by
  let v : Vocabulary :=
    { vars := fun name => name ∈ minted ∨ ∃ call ∈ calls, name ∈ call.op.names
      atoms := fun _ => True
      ordinary := fun _ _ => trivial }
  have hwithin := h.within (v := v) (fun _ hname => .inl hname)
    (fun call hcall _ hname => .inr ⟨call, hcall, hname⟩) (fun _ _ _ _ => trivial)
    (fun _ _ _ _ _ _ => trivial) c hc
  exact hwithin.1.namedVar? hx

/-- What the next name of the supply is worth, after the calls and with the
names that were minted. -/
structure MintsFresh (s : Session V) (calls : List (Call V)) (minted : List String) : Prop where
  /-- It was not minted before. -/
  unminted : s.supply.name ∉ minted
  /-- A variable that has it already, on whatever copy, has it from a caller
  who spelled it. -/
  spelled : ∀ c ∈ s.copies, ∀ (x : Term) (type : VarType),
    c.arena.namedVar? x = some (s.supply.name, type) →
      ∃ call ∈ calls, s.supply.name ∈ call.op.names
  /-- A fresh variable gets it. -/
  fresh : ∀ c ∈ s.copies, ∀ (α : Type) [HostType α], ∃ x,
    (c.after s.supply (.freshVar α)).issued = x :: c.issued ∧
      (c.after s.supply (.freshVar α)).arena.namedVar? x = some (s.supply.name, HostType.type α)
  /-- Whatever happens later, a variable that bears it is merged with a
  variable that was there exactly if the older one has the same name. -/
  merged : ∀ c ∈ s.copies, ∀ calls' minted' s', History .documented calls' minted' s' →
    ∀ d ∈ s'.copies, c.arena.Extends d.arena → ∀ t, d.Owns t →
      ∀ (x y : Term) (type type' : VarType) (name : String),
        d.arena.namedVar? x = some (s.supply.name, type) →
        c.arena.namedVar? y = some (name, type') →
          d.arena.MergesIff t x y (name = s.supply.name)

/-- A MINTED NAME IS FRESH AMONG MINTED NAMES, and among all names unless a
caller spelled it. Only then are variables merged by it. -/
theorem History.mints_fresh (h : History .documented calls minted s) :
    s.MintsFresh calls minted where
  unminted := h.name_not_minted
  spelled c hc x type hx := (h.minted_or_spelled hc hx).resolve_left h.name_not_minted
  fresh c hc α _ := by
    refine ⟨.var ⟨c.arena.id, c.arena.nodes.size⟩, rfl, ?_⟩
    have hnode := Arena.node?_withNode (a := c.arena) (.var s.supply.name (HostType.type α))
    show Arena.namedVar? (c.arena.withNode (.var s.supply.name (HostType.type α))) _ = _
    simp only [Arena.namedVar?, hnode]
  merged c hc calls' minted' s' h' d hd hext t ht x y type type' name hx hy := by
    have horder := h'.inOrder d hd
    exact horder.1.mergesIff (horder.holds ht) hx (hext.namedVar?_eq hy)

end Session

/-- A copy with a variable that is called `_2`. -/
def Copy.spelled : Copy Scalar := ((Copy.blank ⟨0⟩).afterAll {} [.declareVar "_2" .any]).1

theorem Session.reachable_spelled : Session.Reachable .documented ⟨[Copy.spelled], {}⟩ :=
  reachable_alone ⟨0⟩ [.declareVar "_2" .any] (by decide +kernel)

/-- A session in which the next name is `_2`. -/
theorem Session.mints_fresh_sample :
    ∃ calls minted, Session.History .documented calls minted ⟨[Copy.spelled], {}⟩ ∧
      Session.MintsFresh ⟨[Copy.spelled], {}⟩ calls minted := by
  obtain ⟨calls, minted, h⟩ := reachable_spelled.exists_history
  exact ⟨calls, minted, h, h.mints_fresh⟩

/-- A MINTED NAME NEED NOT BE NEW: it may be that of an older variable. -/
theorem Session.minted_name_differs :
    ¬∀ (calls : List (Call Scalar)) (minted : List String) (s : Session Scalar),
      Session.History .documented calls minted s → ∀ c ∈ s.copies,
        ∀ (x : Term) (name : String) (type : VarType),
          c.arena.namedVar? x = some (name, type) → s.supply.name ≠ name := by
  intro hclaim
  obtain ⟨calls, minted, h⟩ := reachable_spelled.exists_history
  exact hclaim calls minted _ h _ (List.mem_singleton_self _) (.var ⟨⟨0⟩, 0⟩) "_2" .any
    (by decide +kernel) (by decide +kernel)

end TermGraph
