import Provision.Proofs.Run.Ending

/-!
# What an execution comes to

* `Change.effect`: how an execution ends and what it commits, when every call has one possible
  answer and the state can always be stored.
* `Change.Ended.effect_eq`: every execution then ends like that.
* `Setup.replying`: a setup of this kind, over a world that has no state.
-/

namespace Provision

namespace Registry

variable {β : Type} {type type' : String}

theorem get_eq_error {r : Registry β} {s : Status} (h : r.get type = .error s) :
    s = .unserved type := by
  unfold get at h
  split at h
  · cases h
  · cases h
    rfl

/-- A registry of one backend has no other, so `type'` need not be compared with `type`. -/
theorem get_register_empty {b b' : β} (h : (empty.register type b).get type' = .ok b') :
    b' = b := by
  unfold get at h
  split at h
  · next hb =>
    cases h
    unfold register at hb
    rw [Keyed.get?_insert] at hb
    split at hb
    · exact (Option.some.inj hb).symm
    · cases hb
  · cases h

end Registry

/-- Answers a request to apply by `reply`, and does all else as asked. -/
def Backend.replying (reply : Option Resource → Resource → Reply Resource) : Backend Unit where
  apply := fun prior planned _ _ => ⟨reply prior planned, false, ()⟩
  delete := fun _ _ _ => ⟨.returned (), false, ()⟩
  read := fun prior _ _ => ⟨.returned (some prior), false, ()⟩

namespace Setup

variable {σ : Type}

/-- The answer to a call depends on nothing but the call. -/
def Steady (setup : Setup σ) (answer : Call → Reply Mutation) : Prop :=
  ∀ call cancelled world, (setup.perform call cancelled world).reply = answer call

/-- The state can always be stored. -/
def Stores (setup : Setup σ) : Prop := ∀ state world, (setup.store state world).1 = .ok ()

/-- Resources of the type `Local` are served: a request to apply is answered by `reply`, and all
else is done as asked. The state is always stored. -/
def replying (reply : Option Resource → Resource → Reply Resource) (operation : Operation)
    (prior : Index) (ignored : List FieldPath) : Setup Unit where
  operation
  prior
  ignored
  backends := Registry.empty.register "Local" (.replying reply)
  store := fun _ _ => (.ok (), ())
  clock := fun _ => default

section

variable {reply : Option Resource → Resource → Reply Resource} {operation : Operation}
  {prior : Index} {ignored : List FieldPath}

theorem eq_replying {type : String} {backend : Backend Unit}
    (h : (replying reply operation prior ignored).backends.get type = .ok backend) :
    backend = .replying reply := Registry.get_register_empty h

theorem replying_stores : (replying reply operation prior ignored).Stores := fun _ _ => rfl

theorem replying_steady : (replying reply operation prior ignored).Steady fun call =>
    ((replying reply operation prior ignored).perform call false ()).reply := by
  intro call cancelled world
  unfold perform
  dsimp only
  cases hb : (replying reply operation prior ignored).backends.get call.type with
  | error s => rfl
  | ok backend =>
    rw [eq_replying hb]
    cases call <;> rfl

end

end Setup

/-- The run that goes on from a state. -/
def Run.ofState (s : State) : Run Unit where
  known := s.index
  recorded := s.index
  state := s
  cancelled := false
  progress := none
  world := ()
  history := []

/-- How an execution ends, and what it commits. -/
structure Effect where
  state : NodeState
  result : Except Status Unit
  change : Option Mutation

namespace Effect

/-- What an execution leaves of the resource at its key. -/
def leaves (e : Effect) (r : Option Resource) : Option Resource :=
  match e.change with
  | some m => m.resource?
  | none => r

end Effect

namespace Change

variable {σ : Type}

/-- What an execution comes to that is about to carry out an intent. -/
def effect (c : Change) (answer : Call → Reply Mutation) : Except Status Intent → Effect
  | .error s => ⟨.failed, .error s, none⟩
  | .ok (.keep recorded) => ⟨.succeeded, .ok (), recorded.map .upsert⟩
  | .ok (.call call) => match answer call with
    | .returned m => ⟨.succeeded, .ok (), some m⟩
    | .refused s => ⟨.failed, .error s, none⟩
    | .brokeDown => ⟨.executing, .error (.brokeDown c.key), none⟩

variable {setup : Setup σ} {answer : Call → Reply Mutation} {known : Index} {c : Change}
  {es : List Entry}

theorem answer_eq (ha : setup.Steady answer) {call : Call} {reply : Reply Mutation}
    (h : setup.Answers call reply) : answer call = reply := by
  obtain ⟨cancelled, world, rfl⟩ := h
  exact (ha call cancelled world).symm

/-- A mutation that was `Earned` is the one that `effect` has for the intent. -/
theorem Earned.effect_eq (ha : setup.Steady answer) {m : Mutation}
    (h : c.Earned setup known es m) :
    c.effect answer (c.intent setup known) = ⟨.succeeded, .ok (), some m⟩ := by
  cases h with
  | kept hi =>
    rw [hi]
    rfl
  | answered hi hr =>
    rw [hi]
    unfold effect
    dsimp only
    rw [answer_eq ha hr]

/-- Where calls have one answer (`Steady`) and the state can always be stored (`Stores`), the six
ways of `Ended` come to one: the effect of what was intended. This is what makes walks in different
orders comparable. -/
theorem Ended.effect_eq (ha : setup.Steady answer) (hst : setup.Stores) {state : NodeState}
    {r : Except Status Unit} (h : c.Ended setup known state r es) :
    ∃ change, c.effect answer (c.intent setup known) = ⟨state, r, change⟩ ∧
      (∀ x, Entry.outcome es x = (Effect.mk state r change).leaves x) ∧
      (Entry.snapshots es).length = change.toList.length := by
  cases h with
  | unfit hi =>
    rw [hi]
    exact ⟨none, rfl, fun _ => rfl, rfl⟩
  | absent hi =>
    rw [hi]
    exact ⟨none, rfl, fun _ => rfl, rfl⟩
  | @committed es m s he hs =>
    refine ⟨some m, he.effect_eq ha, fun x => ?_, ?_⟩
    · rw [Entry.outcome_append]
      rfl
    · rw [Entry.snapshots_append, he.snapshots_eq]
      rfl
  | @uncommitted es m s cause he hs =>
    -- a store that always succeeds leaves no such end
    obtain ⟨world, hs⟩ := hs
    rw [hst] at hs
    cases hs
  | refused hi hr =>
    rw [hi]
    refine ⟨none, ?_, fun _ => rfl, rfl⟩
    unfold effect
    dsimp only
    rw [answer_eq ha hr]
  | brokeDown hi hr =>
    rw [hi]
    refine ⟨none, ?_, fun _ => rfl, rfl⟩
    unfold effect
    dsimp only
    rw [answer_eq ha hr]

end Change

end Provision
