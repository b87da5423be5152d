import Provision.Proofs.Walk.Hereditary

/-!
# Worlds that show what is recorded

* `Setup.Mirrors`: the world shows what a backend has applied, and goes on to show it whatever
  becomes of other resources.
* `Run.begin_recorded`, `Run.finish_recorded`: what the two parts of an execution do to the
  resources recorded; `Run.begin_world`, `Run.finish_world`: what they do to the world.
* `Walk.mirrored`: so whatever is recorded of nodes that have not ended badly, the world shows it.
-/

namespace Provision

/-- The key of the resource that a call is about. -/
def Call.key : Call → String
  | .apply _ planned => planned.key
  | .delete prior | .read prior => prior.key

namespace Setup

variable {σ : Type}

/-- At most one state was stored. -/
def Stored (setup : Setup σ) (world world' : σ) : Prop :=
  world' = world ∨ ∃ s, world' = (setup.store s world).2

/-- The world shows a resource that a backend has applied, if it has the property `Q`. It goes on to
do so when calls about others are made, and when states are stored. -/
structure Mirrors (setup : Setup σ) (p : Plan) (Q : Resource → Prop)
    (Shows : σ → Resource → Prop) : Prop where
  applied : ∀ prior planned cancelled world r, Q planned →
    (setup.perform (.apply prior planned) cancelled world).reply = .returned (.upsert r) →
    Shows (setup.perform (.apply prior planned) cancelled world).world r
  others : ∀ call cancelled world r, call.key ∈ p.keys → r.key ∈ p.keys → call.key ≠ r.key →
    Shows world r → Shows (setup.perform call cancelled world).world r
  stored : ∀ s world r, r.key ∈ p.keys → Shows world r → Shows (setup.store s world).2 r

theorem Mirrors.of_stored {setup : Setup σ} {p : Plan} {Q : Resource → Prop}
    {Shows : σ → Resource → Prop} (h : setup.Mirrors p Q Shows) {world world' : σ} {r : Resource}
    (hw : setup.Stored world world') (hk : r.key ∈ p.keys) (hr : Shows world r) :
    Shows world' r := by
  rcases hw with rfl | ⟨s, rfl⟩
  · exact hr
  · exact h.stored s world r hk hr

end Setup

/-! ## Executions -/

/-- The call of a node is about its own resource. For deletions and reads, which name what was
recorded, `hprior` is needed. -/
theorem Change.key_of_intent {σ : Type} {setup : Setup σ} {known : Index} {c : Change} {call : Call}
    (hprior : setup.prior.ById) (h : c.intent setup known = .ok (.call call)) :
    call.key = c.key := by
  have hrecorded : (setup.recordedOr c.resource).key = c.key := by
    unfold Setup.recordedOr
    cases hget : setup.prior.get? c.resource.key with
    | none => rfl
    | some recorded => exact hprior _ _ hget
  cases intends_of_intent h with
  | apply _ _ _ hp => exact (planned_keeps hp).1
  | read _ hr | delete _ _ hr => exact hr ▸ hrecorded

namespace Run

variable {σ : Type} {setup : Setup σ} {c : Change} {run run' : Run σ}

theorem commit_world (key : String) (m : Mutation) (run : Run σ) :
    ∃ s, (run.commit setup key m).2.world = (setup.store s run.world).2 := by
  unfold commit
  dsimp only
  split
  · next hs => exact ⟨_, (congrArg Prod.snd hs).symm⟩
  · next hs => exact ⟨_, (congrArg Prod.snd hs).symm⟩

theorem begin_world (run : Run σ) : setup.Stored run.world (run.begin setup c).2.world := by
  unfold begin
  split
  · exact .inl rfl
  · exact .inl rfl
  · exact .inl rfl
  · exact .inr (commit_world ..)

theorem finish_world (setup : Setup σ) (c : Change) (call : Call) (run : Run σ) :
    setup.Stored (setup.perform call run.cancelled run.world).world
      (run.finish setup c call).2.world := by
  unfold finish
  dsimp only
  split
  · exact .inr (commit_world ..)
  · exact .inl rfl
  · exact .inl rfl

/-- What an execution records without a call was recorded before (`hprior`), so nothing changes. -/
theorem begin_recorded (hprior : run.recorded.get? c.key = setup.prior.get? c.key) (k : String) :
    (run.begin setup c).2.recorded.get? k = run.recorded.get? k := by
  unfold begin
  split
  · rfl
  · rfl
  · rfl
  · next recorded hi =>
    have hrecorded : setup.prior.get? c.key = some recorded := by
      cases Change.intends_of_intent hi with
      | keep _ _ hr => exact hr
    rcases hc : run.commit setup c.key (.upsert recorded) with ⟨result, run'⟩
    show run'.recorded.get? k = _
    rcases commit_extends hc with ⟨s, -, -, hx⟩ | ⟨s, cause, -, -, hx⟩
    · rw [hx.recorded, Entry.replay_cons, Entry.replay_nil, Entry.applyTo, Mutation.get?_applyTo]
      split
      · next hk => rw [← hk, hprior, hrecorded]
      · rfl
    · rw [hx.recorded]
      rfl

/-- A call that ends well is recorded under the key of its node, and nothing else is. If the state
could not be stored, the result is an error and nothing is recorded. -/
theorem finish_recorded {call : Call} {f : Finished} (h : run.finish setup c call = (f, run')) :
    (∃ m, f = .over (.ok ()) ∧
      (setup.perform call run.cancelled run.world).reply = .returned m ∧
      run'.recorded = m.applyTo c.key run.recorded) ∨
    f ≠ .over (.ok ()) ∧ run'.recorded = run.recorded := by
  unfold finish at h
  dsimp only at h
  split at h
  · next m hm =>
    rcases hc : (run.answered c.key call (setup.perform call run.cancelled run.world)).commit
      setup c.key m with ⟨result, run₁⟩
    rw [hc] at h
    cases h
    rcases commit_extends hc with ⟨s, rfl, -, hx⟩ | ⟨s, cause, rfl, -, hx⟩
    · exact .inl ⟨m, rfl, hm, hx.recorded⟩
    · exact .inr ⟨nofun, hx.recorded⟩
  · cases h
    exact .inr ⟨nofun, rfl⟩
  · cases h
    exact .inr ⟨nofun, rfl⟩

end Run

/-! ## Walks -/

namespace Walk

variable {σ : Type} {setup : Setup σ} {g : Graph} {jobs : Nat} {w w' : Walk σ} {ch : Choice}
  {decided ds : List (String × Except Status Unit)} {run₀ : Run σ} {entries es : List Entry}
  {k : String}

/-- A node has ended, and not well. -/
def Spoilt (w : Walk σ) (decided : List (String × Except Status Unit)) (k : String) : Prop :=
  ∃ s, (k, .ended (.error s)) ∈ w.places decided

/-- `Spoilt` is for good, as no turn leads from `Stage.ended`. -/
theorem Turned.spoilt (hg : g.Sound) (hs : Scheduled g w decided)
    (hs' : Scheduled g w' (decided ++ ds)) (h : Turned setup g w w' ch decided ds es)
    (hkeys : k ∈ g.plan.keys) (hk : w.Spoilt decided k) : w'.Spoilt (decided ++ ds) k := by
  obtain ⟨s, hk⟩ := hk
  obtain ⟨stage, hstage⟩ := hs'.exists_stage hkeys
  suffices hbefore : (k, stage) ∈ w.places decided by
    obtain rfl := hs.stage_unique hg hbefore hk
    exact ⟨s, hstage⟩
  cases h with
  | stays hm => exact hm.places k stage hstage
  | @moves key _ _ _ hm ht =>
    refine hm.places k ?_ stage hstage
    rintro rfl
    exact ht.not_ended _ (hs.stage_unique hg hm.source hk)

theorem Inv.not_spoilt (h : Inv setup g run₀ w decided entries) (hs : w.Succeeded k) :
    ¬ w.Spoilt decided k := by
  rintro ⟨s, hm⟩
  exact absurd ((h.lives.story k _ hm).succeeded_iff.mp hs) nofun

section

variable {Q : Resource → Prop} {Shows : σ → Resource → Prop} (hg : g.Sound)
  (hop : setup.operation = .apply) (hgop : g.operation = .apply) (hprior : setup.prior.ById)
  (hQ : setup.Hereditary g.plan Q) (hm : setup.Mirrors g.plan Q Shows)
  (hk : run₀.known = setup.prior)

include hg hop hgop hprior hQ hm hk

/-- The end of a call keeps the world showing what is recorded, unless its node ends badly. For the
node itself this is `Mirrors.applied`; for all others it is the frame `Mirrors.others`. -/
theorem Inv.finish_mirrored (h : Inv setup g run₀ w decided entries)
    {key : String} {c : Change} {call : Call} {f : Finished} {run : Run σ}
    (hb : (key, .calling call) ∈ w.busy) (hf : g.find? key = some c)
    (hfinish : w.run.finish setup c call = (f, run))
    (hshows : ∀ k r, w.run.recorded.get? k = some r → ¬ w.Spoilt decided k → Shows w.run.world r)
    {r : Resource} (hget : run.recorded.get? k = some r) (hrk : r.key = k) (hkeys : k ∈ g.plan.keys)
    (hgood : k ≠ key → ¬ w.Spoilt decided k) (hok : k = key → f = .over (.ok ())) :
    Shows run.world r := by
  obtain ⟨-, c', known, hf', hagree, hi, -⟩ := (h.lives.story key _ (busy_mem hb)).of_calling
  obtain rfl := Option.some.inj (hf.symm.trans hf')
  obtain ⟨hc, rfl⟩ := Plan.find?_eq_some hf
  have hworld := Run.finish_world setup c call w.run
  rw [hfinish] at hworld
  refine hm.of_stored hworld (hrk ▸ hkeys) ?_
  by_cases hne : k = c.key
  · -- The node's own resource: a success that is recorded, so the call applied it.
    obtain ⟨m, -, hm', hrecorded⟩ := (Run.finish_recorded hfinish).resolve_right
      fun hbad => hbad.1 (hok hne)
    rw [hrecorded, hne, Mutation.get?_applyTo, if_pos rfl] at hget
    have hne' : setup.operation ≠ .refresh := by
      rw [hop]
      exact nofun
    rw [Change.intent_congr hg hagree hf fun _ => hgop] at hi
    cases Change.intends_of_intent hi with
    | read hop' => exact absurd hop' hne'
    | apply =>
      cases m with
      | remove => cases hget
      | upsert applied =>
        cases hget
        refine hm.applied _ _ _ _ _ (hQ.planned c hc _ _ _ hi fun j _ r hj => ?_) hm'
        exact h.hereditary_known hg hop hgop hQ (fun k r hk' => hQ.recorded k r (hk ▸ hk')) r hj
    | delete =>
      rw [Change.remove_of_answers ⟨_, _, hm'⟩] at hget
      cases hget
  · -- Another resource: it is recorded as before, and the call was not about it.
    have hkey := Change.key_of_intent hprior hi
    have hbefore : w.run.recorded.get? k = some r := by
      rcases Run.finish_recorded hfinish with ⟨m, -, -, hrecorded⟩ | ⟨-, hrecorded⟩
      · rwa [hrecorded, Mutation.get?_applyTo, if_neg (Ne.symm hne)] at hget
      · rwa [hrecorded] at hget
    refine hm.others _ _ _ _ (hkey ▸ List.mem_map_of_mem hc) (hrk ▸ hkeys) ?_
      (hshows k r hbefore (hgood hne))
    rw [hkey, hrk]
    exact Ne.symm hne

variable (hp : Plan.MadeFrom setup.prior setup.operation g.plan) (hids : setup.KeepsIds)
  (hr : run₀.recorded = setup.prior)

include hp hids hr

/-- **Step.** Every step keeps the world showing what is recorded of nodes that are not `Spoilt`. -/
theorem Inv.step_mirrored (h : Inv setup g run₀ w decided entries)
    (h' : Inv setup g run₀ w' (decided ++ ds) (entries ++ es))
    (hst : Step setup g jobs w ch w' ds) (ht : Turned setup g w w' ch decided ds es)
    (hshows : ∀ k r, w.run.recorded.get? k = some r → ¬ w.Spoilt decided k → Shows w.run.world r)
    (k : String) (r : Resource) (hget : w'.run.recorded.get? k = some r)
    (hgood : ¬ w'.Spoilt (decided ++ ds) k) : Shows w'.run.world r := by
  have hkeys := h'.mem_keys_of_recorded hr hp hprior hget
  have hrk := h'.recorded_byId hr hp hprior hids k r hget
  have hgood' : ¬ w.Spoilt decided k := fun hs =>
    hgood (ht.spoilt hg h.scheduled h'.scheduled hkeys hs)
  -- A node that a worker is resolving has recorded nothing yet.
  have hbegin : ∀ {key c}, (key, Task.resolving) ∈ w.busy → g.find? key = some c →
      (w.run.begin setup c).2.recorded.get? k = some r →
      Shows (w.run.begin setup c).2.world r := by
    intro key c hb hf hget
    have hs : ¬ w.Succeeded c.key := by
      have hstate := (h.lives.story key _ (busy_mem hb)).of_resolving.1
      rw [(Plan.find?_eq_some hf).2]
      unfold Succeeded
      rw [hstate]
      exact nofun
    rw [Run.begin_recorded (h.get?_recorded_of_failed hr hs)] at hget
    exact hm.of_stored (Run.begin_world w.run) (hrk ▸ hkeys) (hshows k r hget hgood')
  cases hst with
  | idle | countDown | enqueue | skip | leave | takeCancelled | takeAgain | takeUp | receive
  | cancel => exact hshows k r hget hgood'
  | beginOver hb hf hr' | beginCall hb hf hr' =>
    have hshow := hbegin hb hf
    rw [hr'] at hshow
    exact hshow hget
  | @finishOver key c call result run hb hf hr' =>
    refine h.finish_mirrored hg hop hgop hprior hQ hm hk hb hf hr' hshows hget hrk hkeys
      (fun _ => hgood') fun hkey => ?_
    cases result with
    | ok => rfl
    | error s => exact absurd ⟨s, ended_mem (.inl (by simp [hkey]))⟩ hgood
  | @finishBroken key c call run hb hf hr' =>
    refine h.finish_mirrored hg hop hgop hprior hQ hm hk hb hf hr' hshows hget hrk hkeys
      (fun _ => hgood') fun hkey => ?_
    exact absurd ⟨.brokeDown key, ended_mem (.inl (by simp [hkey]))⟩ hgood

/-- **Run.** If the world shows all that was recorded before a walk, it shows whatever is recorded
at any time of it, of nodes that are not `Spoilt`. -/
theorem mirrored {cs : List Choice} (hw : (start g run₀ .empty).steps? setup g jobs cs = some w)
    (hshows : ∀ k r, setup.prior.get? k = some r → Shows run₀.world r) :
    ∃ decided entries, Inv setup g run₀ w decided entries ∧
      ∀ k r, w.run.recorded.get? k = some r → ¬ w.Spoilt decided k → Shows w.run.world r := by
  obtain ⟨decided, entries, h, hall⟩ := steps?_induct
    (P := fun w decided => ∃ entries, Inv setup g run₀ w decided entries ∧
      ∀ k r, w.run.recorded.get? k = some r → ¬ w.Spoilt decided k → Shows w.run.world r)
    (fun {w ch w' decided ds} hP hst => by
      obtain ⟨entries, h, hall⟩ := hP
      obtain ⟨es, ht, h', -⟩ := h.step hg hst
      exact ⟨entries ++ es, h',
        h.step_mirrored hg hop hgop hprior hQ hm hk hp hids hr h' hst ht hall⟩)
    hw ⟨[], .start hg run₀, fun k r hget _ => hshows k r (hr ▸ hget)⟩
  exact ⟨_, entries, h, hall⟩

end

end Walk

end Provision
