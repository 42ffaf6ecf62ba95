import TermGraph.Proofs.Factorization

/-!
# Common pools — sharing across terms

A host may collect several terms into ONE pool, and then factorize the
terms against it, in any order and as often as it likes. The calls run on
the same pool one after another, and every call may add candidates for the
later ones.

The sources are everything under any of the terms, and every source is a
candidate from the start, the terms themselves included. So the case of
`Factored` in which a root is answered without being looked up does not
arise: every answer is SETTLED. A settled answer stays settled while
candidates are added at the end, whatever they are; that is why the order
of the calls and their number do not matter. Two settled terms are shared
with each other, whichever calls they come from.

## What is proved

`Calls` lists calls with their answers, and says of each that it added
candidates and took none away. `Stocked.call` is what one call does,
`Stocked.exists_calls` says that any number of them can be made, and
`Calls.answers` what holds after any that were. The two main results read
this off for the terms of any copy a host can reach:

- `Session.Reachable.common_pool_shares`: the answers share with each
  other;
- `Session.Reachable.common_pool_answers`: each of them is its own term,
  position by position, over the first variables of the whole pool.

Neither gives the other. The first would hold of calls that answer one
leaf for all terms, and the second of calls that share nothing.
-/

namespace TermGraph

namespace Arena

variable {V : Type} {a b : Arena V} {src : Term → Prop} {pick : String → Option Term}
  {w w' w₁ w₂ : Workspace V Pool} {t t' r r' x y : Term} {ts : List Term}

/-! ## Filling the pool -/

/-- The term stands under one of the terms. -/
def UnderAny (a : Arena V) (ts : List Term) (s : Term) : Prop := ∃ t ∈ ts, a.Under t s

/-- The first variable of a name in the listings of the terms. -/
def firstListedIn (a : Arena V) (ts : List Term) (name : String) : Option Term :=
  (ts.flatMap a.listing).find? (a.isVarNamed name)

/-- What stands under one of the terms is what is listed. -/
theorem WellFormed.underAny_iff (wf : a.WellFormed .documented)
    (hts : ∀ t ∈ ts, a.Holds .documented t) {s : Term} :
    a.UnderAny ts s ↔ s ∈ ts.flatMap a.listing := by
  rw [List.mem_flatMap]
  exact exists_congr fun t => and_congr_right fun ht => wf.under_iff (hts t ht)

/-- Collecting terms one after the other appends their listings, and leaves
no index on what is listed. -/
theorem collectEach_ok (wf : a.WellFormed .documented) (hts : ∀ t ∈ ts, a.Holds .documented t) :
    Ensures (ts.forM collectInto) ⟨a, #[]⟩
      (fun _ w => w.arena.WellFormed .documented ∧
        a.Marks (unmark (ts.flatMap a.listing)) w.arena ∧
        w.carried = (ts.flatMap a.listing).toArray)
      (fun _ => False) := by
  refine Ensures.forM (I := fun done (w : Workspace V Pool) => w.arena.WellFormed .documented ∧
    a.Marks (unmark (done.flatMap a.listing)) w.arena ∧
    w.carried = (done.flatMap a.listing).toArray) ts ?_ ⟨wf, ?_, rfl⟩
  · rintro done t ⟨rest, hsplit⟩ ⟨b, pool⟩ ⟨wfb, hb, hpool⟩
    have ht := hts t (by rw [hsplit]; simp)
    refine (collectInto_ok t pool wfb (hb.holds_iff.mpr ht)).mono ?_ fun _ h => h
    intro _ w hend
    obtain ⟨wfw, hw, hcarried⟩ := hend
    rw [hb.listing_eq] at hw hcarried
    refine ⟨wfw, (hb.trans hw).congr fun s _ => ?_, ?_⟩
    · rw [unmark_append, List.flatMap_append, List.flatMap_singleton]
    · rw [hcarried, show pool = _ from hpool, List.flatMap_append, List.flatMap_singleton,
        List.append_toArray]
  · exact (Marks.refl a).congr fun s _ => by simp [unmark]

/-- A pool that terms were collected into is stocked for everything under
them. -/
theorem stocked_collectedEach (wf : a.WellFormed .documented)
    (hts : ∀ t ∈ ts, a.Holds .documented t) (wfb : b.WellFormed .documented)
    (h : a.Marks (unmark (ts.flatMap a.listing)) b) :
    Stocked (a.UnderAny ts) (a.firstListedIn ts) ⟨b, (ts.flatMap a.listing).toArray⟩ := by
  refine .ofSources wfb h ?_ ?_ ?_ ?_
  · rintro s ⟨t, ht, hs⟩
    exact wf.holds_under (hts t ht) hs
  · rintro s ⟨t, ht, hs⟩ arg harg
    have hunder : a.UnderAny ts arg := ⟨t, ht, hs.trans (.arg harg (.refl a arg))⟩
    exact ⟨hunder, List.mem_toArray.mpr ((wf.underAny_iff hts).mp hunder)⟩
  · intro v name hv hself
    rw [firstListedIn, List.find?_toArray]
    cases hfind : (ts.flatMap a.listing).find? (a.isVarNamed name) with
    | some p => rfl
    | none => exact absurd hself (List.find?_eq_none.mp hfind _ ((wf.underAny_iff hts).mp hv))
  · intro p hp
    exact (wf.underAny_iff hts).mpr (List.mem_toArray.mp hp)

/-- What collecting the terms into an empty pool leaves: a pool that is
stocked for everything under them, and lists all of it without an index. -/
structure Gathered (a : Arena V) (ts : List Term) (w : Workspace V Pool) : Prop where
  stocked : Stocked (a.UnderAny ts) (a.firstListedIn ts) w
  ext : a.Extends w.arena
  listed : ∀ s, a.UnderAny ts s → s ∈ w.carried
  unindexed : ∀ s, a.UnderAny ts s → s.hasSlot = true → w.arena.index s = .ok .unassigned

/-- THE POOL IS FILLED, whatever terms are collected. -/
theorem gather_ok (wf : a.WellFormed .documented) (hts : ∀ t ∈ ts, a.Holds .documented t) :
    Ensures (ts.forM collectInto) ⟨a, #[]⟩ (fun _ w => Gathered a ts w) (fun _ => False) := by
  refine (collectEach_ok wf hts).mono ?_ fun _ h => h
  rintro _ ⟨b, pool⟩ ⟨wfb, hb, hpool⟩
  obtain rfl : pool = (ts.flatMap a.listing).toArray := hpool
  refine ⟨stocked_collectedEach wf hts wfb hb, hb.toExtends, fun s hs => ?_, ?_⟩
  · exact List.mem_toArray.mpr ((wf.underAny_iff hts).mp hs)
  · rintro s ⟨t, ht, hs⟩ hslot
    exact hb.index_unmark (wf.holds_under (hts t ht) hs)
      ((wf.underAny_iff hts).mp ⟨t, ht, hs⟩) hslot

/-! ## Settled terms are shared -/

/-- Settled variables of one name are one variable. -/
theorem SettledAt.eq_of_sameName (hx : SettledAt pick w x) (hy : SettledAt pick w y)
    (hxy : w.arena.SameName x y) : x = y := by
  obtain ⟨name, type, type', hxn, hyn⟩ := hxy
  exact Option.some.inj ((hx.1 name type hxn).symm.trans (hy.1 name type' hyn))

/-- Settled compound terms of one shell are one term. -/
theorem SettledAt.eq_of_shell? (wf : w.arena.WellFormed .documented) (hx : SettledAt pick w x)
    (hy : SettledAt pick w y) {f : String} {xs ys : List Term}
    (hxs : w.arena.shell? x = some (f, xs)) (hys : w.arena.shell? y = some (f, ys))
    (hsame : Term.sameAll xs ys = true) : x = y := by
  apply wf.eq_of_shell? hxs hys hsame
  intro v v' hxv hyv
  have hfx := hx.2 v f xs hxv hxs (Term.sameAll_self_of_sameAll hsame)
  have hfy := hy.2 v' f ys hyv hys (Term.sameAll_self_of_sameAll (Term.sameAll_symm hsame))
  rw [← hasShell_congr w.arena f hsame] at hfy
  exact Option.some.inj (hfx.symm.trans hfy)

/-- SETTLED TERMS ARE SHARED with each other, wherever they stand. -/
theorem Stocked.sharedAmong (hw : Stocked src pick w) :
    w.arena.SharedAmong (SettledAt pick w) :=
  ⟨fun _ _ hx hy hxy => hx.eq_of_sameName hy hxy,
    fun _ _ _ _ _ hx hy hxs hys hsame => hx.eq_of_shell? hw.wf hy hxs hys hsame⟩

/-! ## Calls against the pool -/

/-- Calls of factorization, one after another, each with its answer. No
call fails, and none takes a candidate away. -/
inductive Calls : Workspace V Pool → List (Term × Term) → Workspace V Pool → Prop
  | none (w : Workspace V Pool) : Calls w [] w
  | next {w w₁ w₂ : Workspace V Pool} {t r : Term} {log : List (Term × Term)}
    (answered : factorizeAgainst t w = .ok r w₁)
    (added : ∃ new : Pool, w₁.carried = w.carried ++ new) (rest : Calls w₁ log w₂) :
    Calls w ((t, r) :: log) w₂

/-- What holds of a term and of the answer to a call on it, however many
calls came after. -/
structure Answers (src : Term → Prop) (pick : String → Option Term) (w : Workspace V Pool)
    (t r : Term) : Prop where
  made : w.arena.Made src pick t r
  held : w.arena.Holds .documented r
  settled : Settled pick w r

theorem Answers.furthers (hw : Stocked src pick w) (hfurther : Furthers w w')
    (h : Answers src pick w t r) : Answers src pick w' t r :=
  ⟨h.made.grows hw.wf hfurther.grows, h.held.extends hfurther.grows.toExtends,
    h.settled.furthers hw hfurther h.held⟩

/-- ONE CALL on a source that is a candidate. -/
theorem Stocked.call (hw : Stocked src pick w) (hsrc : src t) (hmem : t ∈ w.carried) :
    Ensures (factorizeAgainst t) w
      (fun r w' => Stocked src pick w' ∧ Furthers w w' ∧ Answers src pick w' t r)
      (fun _ => False) :=
  (factorizeAgainst_ok t hw hsrc).mono
    (fun _ _ h => ⟨h.stocked, h.furthers, h.result.made, h.result.held, h.settled hmem⟩)
    fun _ h => h

/-- ANY NUMBER OF CALLS can be made: none fails, and what is a candidate
before it is one after it. -/
theorem Stocked.exists_calls (calls : List Term) (hw : Stocked src pick w)
    (hcalls : ∀ t ∈ calls, src t ∧ t ∈ w.carried) :
    ∃ log w', log.map Prod.fst = calls ∧ Calls w log w' := by
  induction calls generalizing w with
  | nil => exact ⟨[], w, rfl, .none w⟩
  | cons t calls ih =>
    obtain ⟨hsrc, hmem⟩ := hcalls t List.mem_cons_self
    obtain ⟨r, w₁, hok, hw₁, hfurther, -⟩ := (hw.call hsrc hmem).exists_ok
    obtain ⟨log, w₂, hlog, hrest⟩ := ih hw₁ fun t' ht' =>
      (hcalls t' (List.mem_cons_of_mem t ht')).imp_right hfurther.mem
    obtain ⟨new, hnew, -⟩ := hfurther.added
    exact ⟨(t, r) :: log, w₂, by rw [List.map_cons, hlog], .next hok ⟨new, hnew⟩ hrest⟩

/-- WHAT HOLDS AFTER CALLS, by induction on them: a call leaves the pool
stocked for the next one, and keeps the earlier answers. -/
theorem Calls.answers {log : List (Term × Term)} (h : Calls w log w') (hw : Stocked src pick w)
    (hcalls : ∀ t r, (t, r) ∈ log → src t ∧ t ∈ w.carried) :
    Stocked src pick w' ∧ Furthers w w' ∧
      ∀ t r, (t, r) ∈ log → Answers src pick w' t r := by
  induction h with
  | none w => exact ⟨hw, .refl w, fun _ _ h => by cases h⟩
  | @next w w₁ w₂ t r log hok _ _ ih =>
    obtain ⟨hsrc, hmem⟩ := hcalls t r List.mem_cons_self
    obtain ⟨hw₁, hfurther₁, hr⟩ := (hw.call hsrc hmem).of_answer hok
    obtain ⟨hw₂, hfurther₂, hall⟩ := ih hw₁ fun t' r' h =>
      (hcalls t' r' (List.mem_cons_of_mem _ h)).imp_right hfurther₁.mem
    refine ⟨hw₂, hfurther₁.trans hw₁.wf hfurther₂, fun t' r' h => ?_⟩
    rcases List.mem_cons.mp h with h | h
    · cases h
      exact hr.furthers hw₁ hfurther₂
    · exact hall t' r' h

/-- Calls on terms that the pool was filled with. -/
theorem Gathered.answers {log : List (Term × Term)} (h : Gathered a ts w)
    (hrun : Calls w log w') (hlog : ∀ t r, (t, r) ∈ log → t ∈ ts) :
    Stocked (a.UnderAny ts) (a.firstListedIn ts) w' ∧ Furthers w w' ∧
      ∀ t r, (t, r) ∈ log → Answers (a.UnderAny ts) (a.firstListedIn ts) w' t r := by
  refine hrun.answers h.stocked fun t r hmem => ?_
  have hunder : a.UnderAny ts t := ⟨t, hlog t r hmem, .refl a t⟩
  exact ⟨hunder, h.listed t hunder⟩

/-- Terms that are written alike up to signs have answers that are. -/
theorem Answers.readsLike (h : Answers src pick w t r) (h' : Answers src pick w t' r')
    (hlike : w.arena.ReadsLike t t') : w.arena.ReadsLike r r' := by
  have hback : w.arena.Matches w.arena.SameName Term.Twin r t :=
    h.made.tracks.symm (fun _ _ hp => hp.sameName.symm) fun _ _ hl => hl.symm
  have hmid : w.arena.ReadsLike r t' :=
    hback.comp hlike (fun _ _ _ h k => SameName.trans h k) fun _ _ _ h k => h.same k
  exact Matches.comp hmid h'.made.tracks (fun _ _ _ h k => SameName.trans h k.sameName)
    fun _ _ _ h k => Term.same_symm (k.symm.same (Term.same_symm h))

/-- The answers are one, then: both are settled. -/
theorem Answers.same (hw : Stocked src pick w) (h : Answers src pick w t r)
    (h' : Answers src pick w t' r') (hlike : w.arena.ReadsLike t t') : r.same r' = true := by
  have hshared : w.arena.SharedAmong (Settled pick w) :=
    hw.sharedAmong.of_imp fun x hx => hx x (.refl _ x)
  exact hshared.same_of_readsLike (fun x hx arg harg y hy => hx y (hy.arg harg))
    (h.readsLike h' hlike) h.settled h'.settled

/-- A leaf is an answer to itself only. -/
theorem Answers.eq_of_isLeaf (h : Answers src pick w t r) (hl : r.isLeaf = true) : t = r := by
  cases h.made with
  | leaf _ => rfl
  | var _ _ _ _ _ => cases hl
  | copied _ _ _ _ _ _ _ => cases hl
  | shared _ _ _ _ _ _ _ _ _ => cases hl

/-- What the answers to calls on one pool have in common. The calls are
listed with their answers; `a` is the arena before the first call, and `b`
the arena after the last one. -/
structure ShareAnswers (a : Arena V) (log : List (Term × Term)) (b : Arena V) : Prop where
  /-- Variables of one name are one variable, whichever answers they stand
  under. -/
  name : ∀ t r t' r' x y name, (t, r) ∈ log → (t', r') ∈ log → b.Under r x → b.Under r' y →
    x.isNamedVar = true → y.isNamedVar = true → b.varName x = .ok name →
    b.varName y = .ok name → x = y
  /-- Compound terms of one functor over the same arguments are one term. -/
  shell : ∀ t r t' r' x y f xs ys, (t, r) ∈ log → (t', r') ∈ log → b.Under r x →
    b.Under r' y → x.isCompound = true → y.isCompound = true → b.functor x = .ok f →
    b.functor y = .ok f → b.args x = .ok xs → b.args y = .ok ys →
    Term.sameAll xs ys = true → x = y
  /-- Terms that are written alike up to the signs of zeros have one
  answer, up to the sign of a zero that is a term by itself. -/
  like : ∀ t r t' r', (t, r) ∈ log → (t', r') ∈ log → a.ReadsLike t t' → r.same r' = true
  /-- Terms that are written alike, and hold no value that is not a number,
  have one answer. Payloads are read by their handles here. -/
  alike : ∀ t r t' r', (t, r) ∈ log → (t', r') ∈ log →
    (∀ v, a.Under t v → ∀ p, v = .real p → p.isNaN = false) → a.ReadsAs t t' → r = r'

/-- Answers of one pool share, if the terms were held before. -/
theorem Stocked.shareAnswers (wf : a.WellFormed .documented) (hw : Stocked src pick w)
    (hext : a.Extends w.arena) {log : List (Term × Term)}
    (hall : ∀ t r, (t, r) ∈ log → a.Holds .documented t ∧ Answers src pick w t r) :
    a.ShareAnswers log w.arena := by
  have hlike : ∀ t r t' r', (t, r) ∈ log → (t', r') ∈ log → a.ReadsLike t t' →
      r.same r' = true := by
    intro t r t' r' h h' hlike
    obtain ⟨ht, hr⟩ := hall t r h
    obtain ⟨ht', hr'⟩ := hall t' r' h'
    exact hr.same hw hr' ((hext.readsLike_frozen wf ht ht').mpr hlike)
  refine ⟨?_, ?_, hlike, ?_⟩
  · intro t r t' r' x y name h h' hx hy hxv hyv hxn hyn
    have hr := (hall t r h).2
    have hr' := (hall t' r' h').2
    obtain ⟨type, hxname⟩ :=
      hw.wf.namedVar?_of_varName (hw.wf.holds_under hr.held hx) hxv hxn
    obtain ⟨type', hyname⟩ :=
      hw.wf.namedVar?_of_varName (hw.wf.holds_under hr'.held hy) hyv hyn
    exact hw.sharedAmong.name x y (hr.settled x hx) (hr'.settled y hy)
      ⟨name, type, type', hxname, hyname⟩
  · intro t r t' r' x y f xs ys h h' hx hy _ _ hxf hyf hxs hys hsame
    exact hw.sharedAmong.shell x y f xs ys ((hall t r h).2.settled x hx)
      ((hall t' r' h').2.settled y hy) (by rw [shell?, hxf, hxs]) (by rw [shell?, hyf, hys]) hsame
  · intro t r t' r' h h' hnumbers halike
    have hsame := hlike t' r' t r h' h ((ReadsAs.symm halike).like (.ofNumbers hnumbers))
    rcases Term.same_cases hsame with heq | ⟨p, q, rfl, rfl, -⟩
    · exact heq.symm
    · -- Both answers are reals, and so are the terms.
      obtain rfl := (hall t _ h).2.eq_of_isLeaf rfl
      obtain rfl := (hall t' _ h').2.eq_of_isLeaf rfl
      exact (Matches.ofLeaf halike rfl).2

end Arena

/-- TERMS SHARE A COMMON POOL. Take terms of any copy that a host can reach,
collect all of them into an empty pool, and factorize them against it, in
any order and any number of times. Every call succeeds, and takes no
candidate away; and whatever stands under any of the answers is shared. -/
theorem Session.Reachable.common_pool_shares {V : Type} {s : Session V}
    (hs : s.Reachable .documented) {c : Copy V} (hc : c ∈ s.copies) {ts calls : List Term}
    (hts : ∀ t ∈ ts, c.Owns t) (hcalls : ∀ t ∈ calls, t ∈ ts) :
    ∃ w log w', ts.forM Arena.collectInto ⟨c.arena, #[]⟩ = .ok () w ∧
      log.map Prod.fst = calls ∧ Arena.Calls w log w' ∧ c.arena.ShareAnswers log w'.arena := by
  have wf := (hs.inOrder c hc).1
  have hheld := fun t ht => (hs.inOrder c hc).holds (hts t ht)
  obtain ⟨_, w, hfilled, hw⟩ := (Arena.gather_ok wf hheld).exists_ok
  have hmade : ∀ t ∈ calls, c.arena.UnderAny ts t ∧ t ∈ w.carried := fun t ht =>
    have hunder := ⟨t, hcalls t ht, .refl c.arena t⟩
    ⟨hunder, hw.listed t hunder⟩
  obtain ⟨log, w', hlog, hrun⟩ := hw.stocked.exists_calls calls hmade
  have hmem : ∀ t r, (t, r) ∈ log → t ∈ ts := fun t r h =>
    hcalls t (hlog ▸ List.mem_map_of_mem h)
  obtain ⟨hstocked, hfurther, hall⟩ := hw.answers hrun hmem
  refine ⟨w, log, w', hfilled, hlog, hrun, hstocked.shareAnswers wf
    (hw.ext.trans hfurther.grows.toExtends) fun t r h => ⟨hheld t (hmem t r h), hall t r h⟩⟩

/-- A term after its two arguments, which are written alike up to the sign
of a zero, and then again. -/
theorem Session.common_pool_shares_sample :
    ∃ w log w', [.compound ⟨⟨0⟩, 2⟩, .compound ⟨⟨0⟩, 3⟩, Term.sample].forM Arena.collectInto
        ⟨Copy.sample.arena, #[]⟩ = .ok () w ∧
      log.map Prod.fst =
        [.compound ⟨⟨0⟩, 3⟩, Term.sample, .compound ⟨⟨0⟩, 2⟩, Term.sample] ∧
      Arena.Calls w log w' ∧ Copy.sample.arena.ShareAnswers log w'.arena :=
  Session.Reachable.common_pool_shares reachable_sample (List.mem_singleton_self _)
    (by decide +kernel) (by decide)

/-- THE ANSWERS ARE THE TERMS. Take terms of any copy that a host can reach,
collected into an empty pool, and any calls on them against it. After the
last call every answer is equal in value to its term; and the two trees
have the same positions, with the same functors and arities, the first
variable of each name in the whole pool, and equal leaves. -/
theorem Session.Reachable.common_pool_answers {V : Type} [Payload V] {s : Session V}
    (hs : s.Reachable .documented) {c : Copy V} (hc : c ∈ s.copies) {ts : List Term}
    (hts : ∀ t ∈ ts, c.Owns t) {w w' : Workspace V Pool} {log : List (Term × Term)}
    (hfilled : ts.forM Arena.collectInto ⟨c.arena, #[]⟩ = .ok () w)
    (hrun : Arena.Calls w log w') (hlog : ∀ t r, (t, r) ∈ log → t ∈ ts) {t r : Term}
    (hanswer : (t, r) ∈ log) :
    w'.arena.valueEqual t r = true ∧
      ∀ path, Option.Rel (w'.arena.StandsAs (c.arena.firstListedIn ts))
        (w'.arena.at? t path) (w'.arena.at? r path) := by
  have wf := (hs.inOrder c hc).1
  have hheld := fun t ht => (hs.inOrder c hc).holds (hts t ht)
  have hw := (Arena.gather_ok wf hheld).of_answer hfilled
  obtain ⟨hstocked, hfurther, hall⟩ := hw.answers hrun hlog
  have hmade := (hall t r hanswer).made
  refine ⟨hmade.valueEqual hstocked.wf fun s hsrc hslot => ?_, hmade.tracks.positions⟩
  -- The calls leave the indexes as collecting left them.
  rw [hfurther.grows.index_eq (hw.stocked.sources s hsrc)]
  exact hw.unindexed s hsrc hslot

end TermGraph
