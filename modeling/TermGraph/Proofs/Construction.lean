import TermGraph.Proofs.Closures
import TermGraph.Proofs.Subterms

/-!
# Construction — what building a compound term does, in every case

Building may fail for two reasons: an argument does not resolve, or there are
arguments and no functor. Where both hold, the first argument that does not
resolve is reported. A failure leaves the arena as it was, and a success adds
one node, or none where a control constant stands for it.

`compound` looks at all the arguments before it writes any. They can be
written one by one as well, if the store is cut back when one of them is
refused or the functor is: `compoundInPlace` does that. There are two places
where it fails with arguments in the store, and none of them stays there,
which is `compoundInPlace_eq`.

Building over values that are still to be coerced can fail at any of them,
after some have been coerced. What these added stays, and nothing else is
added.

## What is proved

`Session.Reachable.constructs_exactly` — of any arena a host can reach, and
of any functor and any handles.
-/

namespace TermGraph

/-- What the failure of a coercion is reported as, for the argument at a
position. -/
def TermError.atArgument (f : String) (index : Nat) : TermError → TermError
  | .absentValue => .missingArgument f index
  | e => e

namespace Control

theorem ofName?_eq_none {f : String} (h : ∀ k : Control, f ≠ k.name) : ofName? f = none := by
  cases hname : ofName? f with
  | none => rfl
  | some k =>
    unfold ofName? at hname
    have hfound := List.find?_some hname
    exact absurd (beq_iff_eq.mp hfound).symm (h k)

end Control

namespace Arena

variable {V α : Type} {u : Use} {a b : Arena V} {t : Term} {f : String} {args : List Term}

/-! ## What is to be shown -/

/-- The second arena has one more node, over these arguments, with this
functor and this content, and is the first one otherwise. -/
structure AddsCompound (a b : Arena V) (t : Term) (f : String) (args : List Term)
    (content : Option V) : Prop where
  handle : t = .compound ⟨a.id, a.nodes.size⟩
  id : b.id = a.id
  nodes : b.nodes =
    a.nodes.push (.compound f (Signature.text f args.length) ⟨a.operands.size, args.length⟩)
  operands : b.operands.toList = a.operands.toList ++ args
  indexes : b.indexes = a.indexes.push .unassigned
  contents : ∀ place, place ≠ a.nodes.size → b.contents.get? place = a.contents.get? place
  grows : a.Grows b
  name : b.name t = .ok f
  signature : b.signature t = .ok (f ++ "/" ++ toString args.length)
  args : b.args t = .ok args
  index : b.index t = .ok .unassigned
  content : b.content? t = content

/-- The computation builds the term of a functor and arguments, or says why
there is none. The four cases exclude each other, and there is no other:
`BuildsCompound.ends`. -/
structure BuildsCompound (a : Arena V) (f : String) (args : List Term) (content : Option V)
    (m : BuildM V Term) : Prop where
  foreign : ∀ before t after, args = before ++ t :: after →
    (∀ x ∈ before, a.resolves x = true) → a.resolves t = false →
    m a = .error (.foreignTerm t) a
  nameless : (∀ x ∈ args, a.resolves x = true) → f = "" → args ≠ [] → m a = .error .emptyFunctor a
  control : ∀ k : Control, args = [] → f = k.name → m a = .ok (.control k) a
  ordinary : (∀ x ∈ args, a.resolves x = true) → (f = "" → args = []) →
    (args = [] → ∀ k : Control, f ≠ k.name) →
    ∃ t b, m a = .ok t b ∧ AddsCompound a b t f args content

/-- A copy of the term over other arguments is built like any other term,
with the functor and the content of the original. An original that is no
compound term is refused. -/
structure CopiesCompound (a : Arena V) (t : Term) (args : List Term) : Prop where
  unexpected : t.isCompound = false →
    withArguments t args a = .error (.unexpectedKind .compound t.kind) a
  foreign : t.isCompound = true → (∀ f, a.functor t ≠ .ok f) →
    withArguments t args a = .error (.foreignTerm t) a
  builds : ∀ f, a.functor t = .ok f →
    a.BuildsCompound f args (a.content? t) (withArguments t args)

/-- The coercion answers the term and leaves the second state. -/
def Coerces {S : Type} (s : S) (coercion : EStateM TermError S Term) (t : Term) (s' : S) : Prop :=
  coercion s = .ok t s'

/-- The coercions run from left to right. Either one of them fails, and the
computation ends with that failure, as the argument's, in the state that it
left; or all of them answer, and the term is built over the answers. -/
def BuildsOver {S : Type} (arena : S → Arena V) (f : String)
    (coercions : List (EStateM TermError S Term)) (build : List Term → EStateM TermError S Term)
    (m : EStateM TermError S Term) (s : S) : Prop :=
  (∃ before coercion after ts s₁ e s₂, coercions = before ++ coercion :: after ∧
    Threaded Coerces s before ts s₁ ∧ coercion s₁ = .error e s₂ ∧
    m s = .error (e.atArgument f before.length) s₂) ∨
  ∃ ts s₁, Threaded Coerces s coercions ts s₁ ∧ m s = build ts s₁ ∧
    (arena s₁).BuildsCompound f ts none (compound f ts)

/-! ## Arguments in place -/

/-- Writes arguments at the end of the store, each one as soon as it has been
looked up. -/
def storeOperands : List Term → BuildM V Unit
  | [] => return
  | t :: rest => do
    look (·.verify t)
    modify fun a => { a with operands := a.operands.push t }
    storeOperands rest

/-- Cuts the store back to the length it had, if the computation fails. -/
def cutBack (m : BuildM V α) : BuildM V α := fun a =>
  match m a with
  | .ok x b => .ok x b
  | .error e b => .error e { b with operands := b.operands.take a.operands.size }

/-- A node over arguments that are in the store. -/
def addNodeOver (f : String) (span : Span) : BuildM V Term := do
  return .compound (← addNode (.compound f (Signature.text f span.length) span))

/-- The compound term of a functor and arguments, which are written one by
one. -/
def compoundInPlace (f : String) (args : List Term) : BuildM V Term :=
  cutBack do
    let start := (← get).operands.size
    storeOperands args
    let length := (← get).operands.size - start
    if length = 0 then
      match Control.ofName? f with
      | some k => return .control k
      | none => addNodeOver f ⟨start, 0⟩
    else if f = "" then
      throw .emptyFunctor
    else
      addNodeOver f ⟨start, length⟩

theorem withOperands_cons (t : Term) (rest : List Term) :
    ({ a with operands := a.operands.push t } : Arena V).withOperands rest =
      a.withOperands (t :: rest) := by
  rw [withOperands, withOperands, Array.appendList_cons]

/-- All the arguments are in the store if all of them resolve. -/
theorem storeOperands_ok (h : ∀ x ∈ args, a.resolves x = true) :
    storeOperands args a = .ok () (a.withOperands args) := by
  induction args generalizing a with
  | nil => rw [withOperands_nil]; rfl
  | cons t rest ih =>
    rw [List.forall_mem_cons] at h
    have hlook : a.verify t = .ok () := by rw [verify, if_pos h.1]
    rw [storeOperands, bind_of_ok (look_of_ok hlook), ← withOperands_cons]
    exact ih h.2

/-- Those before the first one that does not resolve are in the store, if
there is one. -/
theorem storeOperands_error {before after : List Term}
    (h : ∀ x ∈ before, a.resolves x = true) (ht : a.resolves t = false) :
    storeOperands (before ++ t :: after) a = .error (.foreignTerm t) (a.withOperands before) := by
  induction before generalizing a with
  | nil =>
    have hlook : a.verify t = .error (.foreignTerm t) := by
      rw [verify, if_neg (by rw [ht]; decide)]
    rw [withOperands_nil, List.nil_append, storeOperands, bind_of_error (look_of_error hlook)]
  | cons s rest ih =>
    rw [List.forall_mem_cons] at h
    have hlook : a.verify s = .ok () := by rw [verify, if_pos h.1]
    rw [List.cons_append, storeOperands, bind_of_ok (look_of_ok hlook), ← withOperands_cons]
    exact ih h.2 ht

/-- Cutting the store back takes off what was written. -/
theorem take_withOperands (args : List Term) :
    (a.withOperands args).operands.take a.operands.size = a.operands := by
  rw [← Array.toList_inj, Array.take_eq_extract, Array.toList_extract, toList_withOperands,
    List.extract_eq_take_drop, List.drop_zero, Nat.sub_zero, ← Array.length_toList, List.take_left]

/-! ## The outcomes of `compound` -/

theorem compound_foreign {before after : List Term} (h : ∀ x ∈ before, a.resolves x = true)
    (ht : a.resolves t = false) :
    compound f (before ++ t :: after) a = .error (.foreignTerm t) a := by
  have hbefore : before.find? (!a.resolves ·) = none := by
    rw [List.find?_eq_none]
    intro x hx
    rw [h x hx]
    decide
  have hverify : a.verifyAll (before ++ t :: after) = .error (.foreignTerm t) := by
    rw [verifyAll, List.find?_append, hbefore, Option.none_or,
      List.find?_cons_of_pos (by rw [ht]; rfl)]
  exact bind_of_error (look_of_error hverify)

theorem compound_nameless (h : ∀ x ∈ args, a.resolves x = true) (hne : args ≠ []) :
    compound "" args a = .error .emptyFunctor a := by
  unfold compound
  rw [bind_of_ok (look_of_ok ((a.verifyAll_eq_ok_iff args).mpr h))]
  cases args with
  | nil => exact absurd rfl hne
  | cons t rest => rfl

theorem compound_control (k : Control) : compound k.name [] a = .ok (.control k) a := by
  have hnil : a.verifyAll [] = .ok () := rfl
  unfold compound
  rw [bind_of_ok (look_of_ok hnil), Control.ofName?_name]
  rfl

theorem compound_ordinary (h : ∀ x ∈ args, a.resolves x = true) (named : f = "" → args = [])
    (ordinary : args = [] → Control.ofName? f = none) :
    compound f args a = addCompound f args a := by
  unfold compound
  rw [bind_of_ok (look_of_ok ((a.verifyAll_eq_ok_iff args).mpr h))]
  cases args with
  | nil => rw [ordinary rfl]
  | cons t rest =>
    have hf : f ≠ "" := fun hf => nomatch named hf
    dsimp only
    rw [if_neg hf]

/-- Either all handles resolve, or there is a first one that does not. -/
theorem resolves_or_first (a : Arena V) (args : List Term) :
    (∀ x ∈ args, a.resolves x = true) ∨ ∃ before t after, args = before ++ t :: after ∧
      (∀ x ∈ before, a.resolves x = true) ∧ a.resolves t = false := by
  induction args with
  | nil => exact .inl fun _ hx => by cases hx
  | cons t rest ih =>
    cases ht : a.resolves t with
    | false => exact .inr ⟨[], t, rest, rfl, fun _ hx => (by cases hx), ht⟩
    | true =>
      rcases ih with h | ⟨before, s, after, rfl, h, hs⟩
      · exact .inl (List.forall_mem_cons.mpr ⟨ht, h⟩)
      · exact .inr ⟨t :: before, s, after, rfl, List.forall_mem_cons.mpr ⟨ht, h⟩, hs⟩

theorem cutBack_of_ok {m : BuildM V α} {x : α} (h : m a = .ok x b) :
    cutBack m a = .ok x b := by
  rw [cutBack, h]

/-- What was only written to the store is off it after a failure. -/
theorem cutBack_of_error {m : BuildM V α} {e : TermError} (written : List Term)
    (h : m a = .error e (a.withOperands written)) : cutBack m a = .error e a := by
  rw [cutBack, h]
  dsimp only
  rw [take_withOperands]
  rfl

/-- THE STORE IS CUT BACK ON EVERY FAILURE. Writing the arguments one by one
ends as looking at all of them first does. -/
theorem compoundInPlace_eq (f : String) (args : List Term) (a : Arena V) :
    compoundInPlace f args a = compound f args a := by
  unfold compoundInPlace
  rcases a.resolves_or_first args with h | ⟨before, t, after, rfl, h, ht⟩
  · have hlength : (a.withOperands args).operands.size - a.operands.size = args.length := by
      rw [size_withOperands, Nat.add_sub_cancel_left]
    cases args with
    | nil =>
      by_cases hcontrol : ∃ k : Control, f = k.name
      · obtain ⟨k, rfl⟩ := hcontrol
        rw [compound_control]
        apply cutBack_of_ok
        rw [bind_get, bind_of_ok (storeOperands_ok h), bind_get, hlength]
        dsimp only [List.length_nil]
        rw [if_pos rfl, Control.ofName?_name, withOperands_nil]
        rfl
      · have hname : Control.ofName? f = none :=
          Control.ofName?_eq_none fun k hk => hcontrol ⟨k, hk⟩
        rw [compound_ordinary h (fun _ => rfl) fun _ => hname]
        apply cutBack_of_ok
        rw [bind_get, bind_of_ok (storeOperands_ok h), bind_get, hlength]
        dsimp only [List.length_nil]
        rw [if_pos rfl, hname]
        rfl
    | cons t rest =>
      have hne : (t :: rest).length ≠ 0 := Nat.succ_ne_zero rest.length
      by_cases hf : f = ""
      · subst hf
        rw [compound_nameless h (List.cons_ne_nil t rest)]
        apply cutBack_of_error (t :: rest)
        rw [bind_get, bind_of_ok (storeOperands_ok h), bind_get, hlength, if_neg hne, if_pos rfl]
        rfl
      · rw [compound_ordinary h (fun hf' => absurd hf' hf) (fun hnil => nomatch hnil)]
        apply cutBack_of_ok
        rw [bind_get, bind_of_ok (storeOperands_ok h), bind_get, hlength, if_neg hne, if_neg hf]
        rfl
  · rw [compound_foreign h ht]
    apply cutBack_of_error before
    rw [bind_get, bind_of_error (storeOperands_error h ht)]

/-! ## One more node, or none -/

/-- The signature of a compound term whose functor and arguments can be
read. -/
theorem WellFormed.signature_of_shell? (wf : a.WellFormed u) {r : Reference}
    (h : a.shell? (.compound r) = some (f, args)) :
    a.signature (.compound r) = .ok (Signature.text f args.length) := by
  obtain ⟨g, ts, signature, hf, hts, hsignature, hshell⟩ := wf.shell (holds_of_shell? h)
  rw [shell?, hf, hts] at h
  cases h
  rw [hsignature, hshell.signature_eq]

/-- A node that is added can be read. -/
theorem addCompound_adds (wf : a.WellFormed u) (held : ∀ x ∈ args, a.Holds u x)
    (named : f = "" → args = []) (ordinary : args = [] → Control.ofName? f = none) :
    ∃ t b, addCompound f args a = .ok t b ∧ AddsCompound a b t f args none := by
  obtain ⟨t, b, hok, hnew, -⟩ := addCompound_ok wf held named ordinary
  have hcontent := wf.content?_eq_none (r := ⟨a.id, a.nodes.size⟩) (Nat.le_refl _)
  refine ⟨t, b, hok, ?_⟩
  cases hok
  exact {
    handle := rfl
    id := rfl
    nodes := rfl
    operands := toList_withOperands args
    indexes := rfl
    contents := fun _ _ => rfl
    grows := hnew.grows
    name := hnew.functor
    signature := hnew.wf.signature_of_shell? (by rw [shell?, hnew.functor, hnew.args])
    args := hnew.args
    index := hnew.index
    content := hcontent }

/-- BUILDING IS ALL OR NOTHING. A failure leaves the arena as it was, and so
does a control constant; anything else adds its one node. -/
theorem BuildsCompound.ends {m : BuildM V Term} {content : Option V}
    (h : a.BuildsCompound f args content m) :
    (∃ e, m a = .error e a) ∨ (∃ k, m a = .ok (.control k) a) ∨
      ∃ t b, m a = .ok t b ∧ AddsCompound a b t f args content := by
  rcases a.resolves_or_first args with hall | ⟨before, t, after, hsplit, hbefore, ht⟩
  · by_cases hnil : args = []
    · by_cases hcontrol : ∃ k : Control, f = k.name
      · obtain ⟨k, hk⟩ := hcontrol
        exact .inr (.inl ⟨k, h.control k hnil hk⟩)
      · exact .inr (.inr (h.ordinary hall (fun _ => hnil) fun _ k hk => hcontrol ⟨k, hk⟩))
    · by_cases hf : f = ""
      · exact .inl ⟨_, h.nameless hall hf hnil⟩
      · refine .inr (.inr (h.ordinary hall (fun hf' => absurd hf' hf) fun hnil' => ?_))
        exact absurd hnil' hnil
  · exact .inl ⟨_, h.foreign before t after hsplit hbefore ht⟩

/-- A value may be attached to the node that was added. -/
theorem AddsCompound.attach (h : AddsCompound a b t f args none) (v : V) :
    AddsCompound a { b with contents := b.contents.insert a.nodes.size v } t f args (some v) := by
  obtain ⟨rfl, hid, hnodes, hoperands, hindexes, hcontents, hgrows, hname, hsignature, hargs,
    hindex, -⟩ := h
  refine ⟨rfl, hid, hnodes, hoperands, hindexes, fun place hne => ?_,
    hgrows.putContent (Nat.le_refl _) v, hname, hsignature, hargs, hindex, ?_⟩
  · rw [ContentTable.get?_insert_of_ne _ _ hne, hcontents place hne]
  · simp only [content?, hid, if_true, ContentTable.get?_insert_self]

/-- BUILDING A COMPOUND TERM ends in one of four ways. -/
theorem compound_builds (wf : a.WellFormed .free) (f : String) (args : List Term) :
    a.BuildsCompound f args none (compound f args) where
  foreign before t after hsplit h ht := by
    rw [hsplit]
    exact compound_foreign h ht
  nameless h hf hne := by
    rw [hf]
    exact compound_nameless h hne
  control k hnil hf := by
    rw [hnil, hf]
    exact compound_control k
  ordinary h named hother := by
    have ordinary (hnil : args = []) : Control.ofName? f = none :=
      Control.ofName?_eq_none (hother hnil)
    have held (x : Term) (hx : x ∈ args) : a.Holds .free x :=
      Permits.holds (fun hu => by cases hu) (h x hx)
    rw [compound_ordinary h named ordinary]
    exact addCompound_adds wf held named ordinary

/-! ## Copies over other arguments -/

/-- The content of the original, if it has any, is put beside the copy. -/
def passContent (content : Option V) (copy : Term) : BuildM V Term := do
  if let some value := content then
    putContent copy value
  return copy

/-- With the functor read, a copy is built like any other term. -/
theorem withArguments_of_functor (hf : a.functor t = .ok f) :
    withArguments t args a = (compound f args >>= passContent (a.content? t)) a := by
  unfold withArguments
  rw [bind_of_ok (look_of_ok (f := (·.functor t)) hf), bind_get]
  rfl

/-- A control constant has no content. -/
theorem passContent_control (content : Option V) (k : Control) :
    passContent content (.control k) a = .ok (.control k) a := by
  cases content <;> rfl

/-- What ends in the same way builds the same. -/
theorem BuildsCompound.congr {m n : BuildM V Term} {content : Option V}
    (h : a.BuildsCompound f args content n) (hmn : m a = n a) :
    a.BuildsCompound f args content m where
  foreign before t after hsplit hbefore ht := hmn.trans (h.foreign before t after hsplit hbefore ht)
  nameless hall hf hne := hmn.trans (h.nameless hall hf hne)
  control k hnil hf := hmn.trans (h.control k hnil hf)
  ordinary hall named hother := by
    obtain ⟨t, b, hok, hadds⟩ := h.ordinary hall named hother
    exact ⟨t, b, hmn.trans hok, hadds⟩

/-- With its content a term is built as it is without. -/
theorem BuildsCompound.passContent {m : BuildM V Term} (h : a.BuildsCompound f args none m)
    (content : Option V) : a.BuildsCompound f args content (m >>= passContent content) where
  foreign before t after hsplit hbefore ht :=
    bind_of_error (h.foreign before t after hsplit hbefore ht)
  nameless hall hf hne := bind_of_error (h.nameless hall hf hne)
  control k hnil hf := by
    rw [bind_of_ok (h.control k hnil hf)]
    exact passContent_control content k
  ordinary hall named hother := by
    obtain ⟨t, b, hok, hadds⟩ := h.ordinary hall named hother
    rw [bind_of_ok hok]
    cases content with
    | none => exact ⟨t, b, rfl, hadds⟩
    | some v =>
      refine ⟨t, _, ?_, hadds.attach v⟩
      rw [hadds.handle]
      rfl

/-- A compound handle without a compound node is refused for that. -/
theorem functor_eq_error {e : TermError} (ht : t.isCompound = true) (h : a.functor t = .error e) :
    e = .foreignTerm t := by
  cases t with
  | control k => cases h
  | compound r =>
    simp only [functor, bind, Except.bind, Arena.node] at h
    cases hn : a.node? r with
    | none => rw [hn] at h; cases h; rfl
    | some n =>
      rw [hn] at h
      cases n with
      | compound _ _ _ => cases h
      | var _ _ | payload _ => cases h; rfl
  | _ => cases ht

theorem withArguments_copies (wf : a.WellFormed .free) (t : Term) (args : List Term) :
    a.CopiesCompound t args where
  unexpected ht := by
    have hf : a.functor t = .error (.unexpectedKind .compound t.kind) := by
      cases t <;> first | rfl | cases ht
    exact bind_of_error (look_of_error hf)
  foreign ht hnone := by
    cases hf : a.functor t with
    | ok f => exact absurd hf (hnone f)
    | error e =>
      rw [← functor_eq_error ht hf]
      exact bind_of_error (look_of_error hf)
  builds f hf :=
    ((compound_builds wf f args).passContent (a.content? t)).congr (withArguments_of_functor hf)

/-! ## Coercions, one after another -/

section Coercions

variable {S : Type} {s : S}

/-- A coercion whose failure is reported as the argument's at a position. -/
def coerceAt (f : String) (index : Nat) (coercion : EStateM TermError S Term) :
    EStateM TermError S Term := fun s =>
  match coercion s with
  | .ok t s' => .ok t s'
  | .error e s' => .error (e.atArgument f index) s'

/-- The answers of coercions, from left to right. -/
def coerceAll (f : String) : Nat → List (EStateM TermError S Term) → EStateM TermError S (List Term)
  | _, [] => return []
  | index, coercion :: rest => do
    let t ← coerceAt f index coercion
    return t :: (← coerceAll f (index + 1) rest)

theorem coerceAll_cons (f : String) (index : Nat) (coercion : EStateM TermError S Term)
    (rest : List (EStateM TermError S Term)) :
    coerceAll f index (coercion :: rest) = coerceAt f index coercion >>= fun t =>
      coerceAll f (index + 1) rest >>= fun ts => pure (t :: ts) := rfl

/-- Coercions answer all, or stop at the first failure. -/
theorem coerceAll_ends (f : String) (coercions : List (EStateM TermError S Term)) :
    ∀ (index : Nat) (s : S),
      (∃ before coercion after ts s₁ e s₂, coercions = before ++ coercion :: after ∧
        Threaded Coerces s before ts s₁ ∧ coercion s₁ = .error e s₂ ∧
        coerceAll f index coercions s = .error (e.atArgument f (index + before.length)) s₂) ∨
      ∃ ts s₁, Threaded Coerces s coercions ts s₁ ∧ coerceAll f index coercions s = .ok ts s₁ := by
  induction coercions with
  | nil => exact fun index s => .inr ⟨[], s, .nil s, rfl⟩
  | cons coercion rest ih =>
    intro index s
    rw [coerceAll_cons]
    cases hhead : coercion s with
    | error e s₂ =>
      have hat : coerceAt f index coercion s = .error (e.atArgument f index) s₂ := by
        rw [coerceAt, hhead]
      exact .inl ⟨[], coercion, rest, [], s, e, s₂, rfl, .nil s, hhead, bind_of_error hat⟩
    | ok t s' =>
      have hat : coerceAt f index coercion s = .ok t s' := by rw [coerceAt, hhead]
      rw [bind_of_ok hat]
      rcases ih (index + 1) s' with
        ⟨before, c, after, ts, s₁, e, s₂, rfl, hbefore, hc, herror⟩ | ⟨ts, s₁, hall, hok⟩
      · refine .inl ⟨coercion :: before, c, after, t :: ts, s₁, e, s₂, rfl, .cons hhead hbefore,
          hc, ?_⟩
        rw [bind_of_error herror, List.length_cons, Nat.add_right_comm, Nat.add_assoc]
      · exact .inr ⟨t :: ts, s₁, .cons hhead hall, bind_of_ok hok⟩

/-- Coercions and then building is building over them. -/
theorem coerceAll_builds (arena : S → Arena V) {build : List Term → EStateM TermError S Term}
    (f : String) (coercions : List (EStateM TermError S Term)) (hs : (arena s).WellFormed .free)
    (hkeeps : ∀ c ∈ coercions, ∀ s t s', (arena s).WellFormed .free → c s = .ok t s' →
      (arena s').WellFormed .free) :
    BuildsOver arena f coercions build (coerceAll f 0 coercions >>= build) s := by
  rcases coerceAll_ends f coercions 0 s with
    ⟨before, c, after, ts, s₁, e, s₂, hsplit, hbefore, hc, herror⟩ | ⟨ts, s₁, hall, hok⟩
  · rw [Nat.zero_add] at herror
    exact .inl ⟨before, c, after, ts, s₁, e, s₂, hsplit, hbefore, hc, bind_of_error herror⟩
  · exact .inr ⟨ts, s₁, hall, bind_of_ok hok, compound_builds (hall.keeps hkeeps hs) f ts⟩

end Coercions

/-- Host values are coerced like anything else. -/
theorem toArguments_eq (f : String) (values : List (HostValue V)) :
    ∀ index, HostValue.toArguments f index values =
      coerceAll f index (values.map HostValue.toTerm) := by
  induction values with
  | nil => exact fun _ => rfl
  | cons value rest ih =>
    intro index
    rw [List.map_cons, coerceAll_cons, ← ih (index + 1), HostValue.toArguments]
    refine congrArg (· >>= _) (funext fun a => ?_)
    rw [coerceAt]
    cases value.toTerm a with
    | ok t b => rfl
    | error e b => cases e <;> rfl

/-- And so is what closures make. -/
theorem argumentsFrom_eq {σ : Type} (f : String) (closures : List (WorkM V σ Term)) :
    ∀ index, HostValue.argumentsFrom f index closures = coerceAll f index closures := by
  induction closures with
  | nil => exact fun _ => rfl
  | cons m rest ih =>
    intro index
    have hat : coerceAt f index m = HostValue.argumentFrom f index m := by
      funext w
      rw [coerceAt, HostValue.argumentFrom]
      cases m w with
      | ok t w' => rfl
      | error e w' => cases e <;> rfl
    rw [coerceAll_cons, hat, ← ih (index + 1)]
    rfl

/-- A HOST VALUE IS BUILT after its arguments have been coerced. -/
theorem compoundOf_builds (wf : a.WellFormed .free) (f : String) (values : List (HostValue V)) :
    BuildsOver (fun b => b) f (values.map HostValue.toTerm) (compound f) (compoundOf f values)
      a := by
  rw [compoundOf, toArguments_eq]
  refine coerceAll_builds (fun b => b) f _ wf fun c hc b t d hb hok => ?_
  obtain ⟨value, -, rfl⟩ := List.mem_map.mp hc
  have hsafe : Safe .free Grows value.toTerm (fun t => [t]) b :=
    value.toTerm_safe hb fun _ _ hu => by cases hu
  exact (Ensures.of_answer hsafe hok).1

/-- A TERM OVER CLOSURES IS BUILT after these have been called, if each call
works through operations. -/
theorem compoundFrom_builds {σ : Type} {supply : σ → NameSupply} {c : Copy V}
    (wf : c.arena.WellFormed .free) (f : String) (closures : List (WorkM V σ Term)) (x : σ)
    (hclosures : ∀ m ∈ closures, UsesMoves .free supply c [] m) :
    BuildsOver Workspace.arena f closures (fun ts => WorkM.onArena (compound f ts))
      (compoundFrom f closures) ⟨c.arena, x⟩ := by
  rw [compoundFrom, argumentsFrom_eq]
  refine coerceAll_builds Workspace.arena (s := ⟨c.arena, x⟩) f closures wf
    fun m hm w t w' hw hok => ?_
  have hd : Copy.InOrder .free ⟨w.arena, []⟩ := ⟨hw, fun _ ht => by cases ht⟩
  have hrun := hclosures m hm ⟨w.arena, []⟩ w.carried (.free hd) (List.forall_mem_nil _)
  exact ((hrun.ensures_extends hd).of_answer hok).1

end Arena

/-! ## Sessions -/

open Arena

/-- CONSTRUCTION IS EXACT. Of any arena that a host can reach, with any
functor and any handles: building a compound term, and a copy of one over
other arguments, ends in one of the ways listed, with the arena as it was or
with one node more; also where the arguments are written before all of them
have been looked up. Building over values or closures coerces from left to
right, up to the first failure. -/
theorem Session.Reachable.constructs_exactly {V : Type} {u : Use} {s : Session V}
    (hs : s.Reachable u) {c : Copy V} (hc : c ∈ s.copies) :
    (∀ f args, c.arena.BuildsCompound f args none (compound f args) ∧
      compoundInPlace f args c.arena = compound f args c.arena) ∧
    (∀ t args, c.arena.CopiesCompound t args) ∧
    (∀ f (values : List (HostValue V)),
      BuildsOver (fun b => b) f (values.map HostValue.toTerm) (compound f) (compoundOf f values)
        c.arena) ∧
    ∀ (σ : Type) (supply : σ → NameSupply) f (closures : List (WorkM V σ Term)) (x : σ),
      (∀ m ∈ closures, UsesMoves .free supply c [] m) →
      BuildsOver Workspace.arena f closures (fun ts => WorkM.onArena (compound f ts))
        (compoundFrom f closures) ⟨c.arena, x⟩ := by
  have wf : c.arena.WellFormed .free := (hs.free.inOrder c hc).1
  refine ⟨fun f args => ⟨compound_builds wf f args, compoundInPlace_eq f args c.arena⟩,
    withArguments_copies wf, compoundOf_builds wf, fun σ supply f closures x hclosures => ?_⟩
  exact compoundFrom_builds wf f closures x hclosures

/-- A handle of another arena is refused as the second argument, and the
empty functor only where all arguments resolve. -/
theorem Session.constructs_exactly_sample :
    compound "" [Term.sample, .compound ⟨⟨1⟩, 4⟩] Copy.sample.arena =
        .error (.foreignTerm (.compound ⟨⟨1⟩, 4⟩)) Copy.sample.arena ∧
      compound "" [Term.sample, .whole] Copy.sample.arena =
        .error .emptyFunctor Copy.sample.arena ∧
      ∃ t b, compound "h" [Term.sample, .whole] Copy.sample.arena = .ok t b ∧
        AddsCompound Copy.sample.arena b t "h" [Term.sample, .whole] none := by
  have h f args := ((Session.Reachable.constructs_exactly reachable_sample
    (List.mem_singleton_self Copy.sample)).1 f args).1
  refine ⟨?_, ?_, ?_⟩
  · exact (h "" [Term.sample, .compound ⟨⟨1⟩, 4⟩]).foreign [Term.sample] (.compound ⟨⟨1⟩, 4⟩) [] rfl
      (by decide +kernel) (by decide +kernel)
  · exact (h "" [Term.sample, .whole]).nameless (by decide +kernel) rfl (by decide)
  · exact (h "h" [Term.sample, .whole]).ordinary (by decide +kernel) (by decide)
      fun hnil => by cases hnil

end TermGraph
