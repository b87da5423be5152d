import Provision.Proofs.Walk.Invariant

/-!
# Calls of a walk

* `Entry.calls`: the calls that a history tells of, for one node. `Change.calls`: those that a node
  makes which starts with what is known.
* `Walk.Adds.calls_of_begin`, `Walk.Adds.calls_of_ne_begin`: a step makes the calls of the node that
  it starts, and no others.
* `Walk.Turned.hasBegun_cases`: a step starts the execution of a node, or leaves it at that.
* `Walk.Inv.count_begin`: a node is started at most once. `Walk.Inv.calls_eq`: so the calls made for
  a node are those that it intended as it started.
-/

namespace Provision

namespace Entry

/-- The call for the node `k` that an entry tells of. -/
def called? (k : String) : Entry → Option Call
  | .called n call => if n = k then some call else none
  | _ => none

/-- The calls made for the node `k`, in order. -/
def calls (k : String) (es : List Entry) : List Call := es.filterMap (called? k)

/-- The call for the node `k` that an entry tells the answer of. -/
def answered? (k : String) : Entry → Option Call
  | .answered n call _ => if n = k then some call else none
  | _ => none

/-- The calls for the node `k` that were answered, in order. -/
def answers (k : String) (es : List Entry) : List Call := es.filterMap (answered? k)

theorem calls_append (k : String) (es fs : List Entry) :
    calls k (es ++ fs) = calls k es ++ calls k fs := List.filterMap_append ..

/-- What an `f` reads off entries of one node only it finds among the entries `about` that node. -/
theorem filterMap_about {α : Type} {f : Entry → Option α} {k : String}
    (hf : ∀ e, e.key ≠ k → f e = none) (es : List Entry) :
    (about k es).filterMap f = es.filterMap f := by
  unfold about
  rw [List.filterMap_filter]
  refine List.filterMap_congr fun e _ => ?_
  by_cases h : e.key = k
  · simp [h]
  · simp [h, hf e h]

theorem calls_about (k : String) (es : List Entry) : calls k (about k es) = calls k es := by
  refine filterMap_about (fun e he => ?_) es
  cases e with
  | called n call => exact if_neg he
  | emitted | answered | stored | notStored => rfl

theorem answers_about (k : String) (es : List Entry) : answers k (about k es) = answers k es := by
  refine filterMap_about (fun e he => ?_) es
  cases e with
  | answered n call reply => exact if_neg he
  | emitted | called | stored | notStored => rfl

theorem calls_eq_nil {k n : String} {es : List Entry} (h : ∀ e ∈ es, e.key = n) (hk : n ≠ k) :
    calls k es = [] := by
  refine List.filterMap_eq_nil_iff.mpr fun e he => ?_
  cases e with
  | called m call => exact if_neg fun hm => hk ((h _ he).symm.trans hm)
  | emitted | answered | stored | notStored => rfl

end Entry

namespace Change

variable {σ : Type}

/-- The calls that a node makes which starts with what is known. -/
def calls (setup : Setup σ) (known : Index) (c : Change) : List Call :=
  match c.intent setup known with
  | .ok (.call call) => [call]
  | _ => []

variable {setup : Setup σ} {known : Index} {c : Change} {es : List Entry}

theorem calls_of_intent {call : Call} (h : c.intent setup known = .ok (.call call)) :
    c.calls setup known = [call] := by
  unfold calls
  rw [h]

/-- Outside a refresh no call is made for a resource that is left alone; a refresh reads it,
whatever its action. -/
theorem calls_of_unchanged (ha : c.action = .unchanged) (hop : setup.operation ≠ .refresh) :
    c.calls setup known = [] := by
  unfold calls
  rw [intent_of_unchanged hop ha]

theorem calls_opening (c : Change) (call : Call) : Entry.calls c.key (c.opening call) = [call] := by
  have hcall : Entry.called? c.key (.called c.key call) = some call := if_pos rfl
  unfold Entry.calls opening
  rw [List.filterMap_cons_none rfl, List.filterMap_cons_some hcall]
  rfl

section

/- The history tells of a call twice: as it is made, and as it is answered. Either way one entry of
the two tells of it, which is all that matters to the lemmas of this section. -/
variable {f : Entry → Option Call}
  (honce : ∀ call reply, (c.opening call ++ [Entry.answered c.key call reply]).filterMap f = [call])

include honce

theorem Earned.filterMap_eq {m : Mutation} (h : c.Earned setup known es m) :
    es.filterMap f = c.calls setup known := by
  cases h with
  | kept hi =>
    unfold calls
    rw [hi]
    rfl
  | answered hi => rw [honce, calls_of_intent hi]

theorem Ended.filterMap_eq (hother : ∀ e, e.call? = none → f e = none) {state : NodeState}
    {r : Except Status Unit} (h : c.Ended setup known state r es) :
    es.filterMap f = c.calls setup known := by
  cases h with
  | unfit hi | absent hi =>
    rw [List.filterMap_cons_none (hother _ rfl)]
    unfold calls
    rw [hi]
    rfl
  | committed he | uncommitted he =>
    rw [List.filterMap_append, he.filterMap_eq honce, List.filterMap_cons_none (hother _ rfl),
      List.filterMap_cons_none (hother _ rfl)]
    exact List.append_nil _
  | refused hi | brokeDown hi =>
    rw [List.append_cons, List.filterMap_append, honce, List.filterMap_cons_none (hother _ rfl),
      calls_of_intent hi]
    rfl

end

/-- The entries that `Ended` lists tell of the calls that were intended, once each. `known` is what
was known at the start. -/
theorem Ended.calls_eq {state : NodeState} {r : Except Status Unit}
    (h : c.Ended setup known state r es) : Entry.calls c.key es = c.calls setup known := by
  refine h.filterMap_eq (fun call reply => ?_) fun e he => ?_
  · rw [List.filterMap_append, show (c.opening call).filterMap _ = [call] from calls_opening c call]
    rfl
  · cases e with
    | called | answered => cases he
    | emitted | stored | notStored => rfl

/-- They tell as well of one answer to each of these calls. -/
theorem Ended.answers_eq {state : NodeState} {r : Except Status Unit}
    (h : c.Ended setup known state r es) : Entry.answers c.key es = c.calls setup known := by
  refine h.filterMap_eq (fun call reply => ?_) fun e he => ?_
  · have hanswer : Entry.answered? c.key (.answered c.key call reply) = some call := if_pos rfl
    exact List.filterMap_cons_some hanswer
  · cases e with
    | called | answered => cases he
    | emitted | stored | notStored => rfl

end Change

namespace NodeState

/-- Whether the execution has come further than to resolve references. -/
def hasBegun : NodeState → Bool
  | .pending | .resolving => false
  | .executing | .succeeded | .failed => true

theorem hasBegun_ofResult (r : Except Status Unit) : (ofResult r).hasBegun = true := by
  cases r <;> rfl

end NodeState

namespace Walk

variable {σ : Type} {setup : Setup σ} {g : Graph} {jobs : Nat} {w w' v : Walk σ} {ch : Choice}
  {decided ds : List (String × Except Status Unit)} {run₀ : Run σ} {entries es : List Entry}
  {known : Index} {k : String}

/-- `Choice.begin k` makes the call of the node `k`, even where its answer comes at a later step. -/
theorem Adds.calls_of_begin (h : Adds setup g known (.begin k) es) {c : Change}
    (hc : g.find? k = some c) : Entry.calls k es = c.calls setup known := by
  obtain rfl := (Plan.find?_eq_some hc).2
  cases h with
  | nothing hn | told hn => exact absurd rfl (hn _)
  | ended hf he =>
    obtain rfl := Option.some.inj (hf.symm.trans hc)
    exact he.calls_eq
  | called hf hi =>
    obtain rfl := Option.some.inj (hf.symm.trans hc)
    rw [Change.calls_opening, Change.calls_of_intent hi]

/-- No other choice makes a call of `k`; what `Choice.finish` adds is the answer to one that was
made. -/
theorem Adds.calls_of_ne_begin (h : Adds setup g known ch es) (hc : ch ≠ .begin k) :
    Entry.calls k es = [] := by
  cases h with
  | nothing | told => rfl
  | ended hf he =>
    exact Entry.calls_eq_nil he.key fun hk => hc (by rw [← hk, (Plan.find?_eq_some hf).2])
  | called hf =>
    exact Entry.calls_eq_nil (fun e => Change.key_of_mem_opening) fun hk =>
      hc (by rw [← hk, (Plan.find?_eq_some hf).2])
  | @finished key c known' call state r es hf hi he =>
    by_cases hk : c.key = k
    · -- The one call that `Ended` tells of is the opening, which was added before.
      subst hk
      have hcalls := he.calls_eq
      rw [Entry.calls_append, Change.calls_opening, Change.calls_of_intent hi] at hcalls
      exact (List.cons.inj hcalls).2
    · exact Entry.calls_eq_nil (fun e hm => he.key e (List.mem_append_right _ hm)) hk

namespace Turn

variable {run : Run σ} {stage stage' : Stage} {state state' : NodeState}

theorem ne_begin (h : Turn setup g decided run k ch stage state stage' state' es) {j : String}
    (hj : j ≠ k) : ch ≠ .begin j := by
  cases h with
  | skipped hch => exact hch j
  | passed | taken | answered | brokeDown => exact nofun
  | uncalled | called =>
    intro he
    cases he
    exact hj rfl

/-- `NodeState.hasBegun` changes at `Choice.begin` of the node, once and for all. -/
theorem hasBegun_cases (h : Turn setup g decided run k ch stage state stage' state' es)
    (ha : Attended setup g k stage state) :
    (ch = .begin k ∧ state.hasBegun = false ∧ state'.hasBegun = true) ∨
      (ch ≠ .begin k ∧ state'.hasBegun = state.hasBegun) := by
  cases h with
  | skipped hch => exact .inr ⟨hch k, rfl⟩
  | passed | taken | brokeDown => exact .inr ⟨nofun, rfl⟩
  | uncalled =>
    obtain rfl := ha.resolving rfl
    exact .inl ⟨rfl, rfl, NodeState.hasBegun_ofResult _⟩
  | called =>
    obtain rfl := ha.resolving rfl
    exact .inl ⟨rfl, rfl, rfl⟩
  | answered =>
    obtain rfl := (ha.calling _ rfl).1
    exact .inr ⟨nofun, NodeState.hasBegun_ofResult _⟩

end Turn

/-- The same of any node `k` at a step of the walk, whichever node it moves. -/
theorem Turned.hasBegun_cases (h : Turned setup g w w' ch decided ds es)
    (ha : ∀ {k stage}, (k, stage) ∈ w.places decided → Attended setup g k stage (w.stateOf k))
    (k : String) :
    (ch = .begin k ∧ (w.stateOf k).hasBegun = false ∧ (w'.stateOf k).hasBegun = true) ∨
      (ch ≠ .begin k ∧ (w'.stateOf k).hasBegun = (w.stateOf k).hasBegun) := by
  cases h with
  | stays hm => exact .inr ⟨hm.choice k, congrArg _ (hm.states k)⟩
  | @moves key stage stage' es hm ht =>
    by_cases hk : k = key
    · subst hk
      exact ht.hasBegun_cases (ha hm.source)
    · exact .inr ⟨ht.ne_begin hk, congrArg _ (hm.states k hk)⟩

namespace Inv

/-- `Choice.begin k` was taken once if the execution of `k` has begun, and never otherwise. -/
theorem count_begin (hg : g.Sound) {run : Run σ} {cs : List Choice}
    (hw : (Walk.start g run .empty).steps? setup g jobs cs = some w) (k : String) :
    cs.count (.begin k) = (w.stateOf k).hasBegun.toNat := by
  obtain ⟨-, -, -, hcount⟩ := (Inv.start hg run).induct hg
    (P := fun cs w _ => cs.count (.begin k) = (w.stateOf k).hasBegun.toNat)
    (fun {cs w ch w' decided ds entries es} h _ ht _ hP => by
      rw [List.count_append, hP]
      rcases ht.hasBegun_cases h.lives.attended k with ⟨rfl, hn, hb⟩ | ⟨hch, hsame⟩
      · rw [hn, hb, List.count_singleton_self]
        rfl
      · rw [hsame, List.count_singleton, if_neg (by simpa using hch), Nat.add_zero]) [] rfl hw
  exact hcount

/-- Until `NodeState.hasBegun` holds of a node, the history tells of no call for it. -/
theorem calls_of_not_hasBegun (hg : g.Sound) {run : Run σ} {cs : List Choice}
    (hw : (Walk.start g run .empty).steps? setup g jobs cs = some w) :
    ∃ decided entries, Inv setup g run w decided entries ∧
      ((w.stateOf k).hasBegun = false → Entry.calls k entries = []) := by
  obtain ⟨ds, es, h, hnone⟩ := (Inv.start hg run).induct hg
    (P := fun _ w es => (w.stateOf k).hasBegun = false → Entry.calls k es = [])
    (fun h _ ht _ hP hk => by
      rcases ht.hasBegun_cases h.lives.attended k with ⟨-, -, hb⟩ | ⟨hch, hsame⟩
      · rw [hk] at hb
        cases hb
      · rw [Entry.calls_append, hP (hsame ▸ hk), (ht.adds h.lives.attended).calls_of_ne_begin hch]
        rfl) [] (fun _ => rfl) hw
  exact ⟨ds, es, h, hnone⟩

/-- From then on it tells of no further call. -/
theorem calls_of_hasBegun (hg : g.Sound) (h : Inv setup g run₀ v decided entries)
    (hk : (v.stateOf k).hasBegun = true) {cs : List Choice}
    (hw : v.steps? setup g jobs cs = some w) :
    ∃ ds es, Inv setup g run₀ w (decided ++ ds) (entries ++ es) ∧ Entry.calls k es = [] := by
  obtain ⟨ds, es, h', -, hsame⟩ := h.induct hg
    (P := fun _ w es => (w.stateOf k).hasBegun = true ∧ Entry.calls k es = Entry.calls k entries)
    (fun h _ ht _ ⟨hb, hcalls⟩ => by
      rcases ht.hasBegun_cases h.lives.attended k with ⟨-, hn, -⟩ | ⟨hch, hsame⟩
      · rw [hb] at hn
        cases hn
      · refine ⟨hsame.trans hb, ?_⟩
        rw [Entry.calls_append, hcalls, (ht.adds h.lives.attended).calls_of_ne_begin hch,
          List.append_nil]) []
    ⟨hk, rfl⟩ hw
  refine ⟨ds, es, h', ?_⟩
  rw [Entry.calls_append] at hsame
  exact List.append_right_eq_self.mp hsame

/-- The calls made for a node are the `Change.calls` of what was known as it was begun, whatever
happened before and after. -/
theorem calls_eq (hg : g.Sound) {run : Run σ} {cs₁ cs₂ : List Choice}
    (hv : (Walk.start g run .empty).steps? setup g jobs cs₁ = some v)
    (hw : v.steps? setup g jobs (.begin k :: cs₂) = some w) {c : Change}
    (hc : g.find? k = some c) (hh : w.run.history = run.history ++ entries) :
    Entry.calls k entries = c.calls setup v.run.known := by
  obtain ⟨decided, before, h, hnone⟩ := calls_of_not_hasBegun (k := k) hg hv
  obtain ⟨v', hv', hw⟩ := Option.bind_eq_some_iff.mp hw
  obtain ⟨ds, hst⟩ := step_of_step? hv'
  obtain ⟨es, ht, h', -⟩ := h.step hg hst
  obtain ⟨-, hn, hb⟩ := (ht.hasBegun_cases h.lives.attended k).resolve_right fun hc => hc.1 rfl
  obtain ⟨ds', es', hend, hrest⟩ := h'.calls_of_hasBegun hg hb hw
  -- Before `begin k`, at it, and after it.
  have hentries : entries = before ++ es ++ es' :=
    List.append_cancel_left (hh.symm.trans hend.lives.run_extends.history)
  rw [hentries, Entry.calls_append, Entry.calls_append, hnone hn,
    (ht.adds h.lives.attended).calls_of_begin hc, hrest, List.nil_append, List.append_nil]

end Inv

end Walk

end Provision
