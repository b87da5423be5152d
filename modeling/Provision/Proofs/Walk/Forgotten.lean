import Provision.Proofs.Plan.Coverage
import Provision.Proofs.Walk.Written
import Provision.Proofs.Walk.Mirror

/-!
# Resources that leave the state

* `Setup.KeepsPlanned`: backends return resources of the id and type that they were asked to apply.
* `Change.Ended.deletions_eq`: a node that succeeds has deleted its resource once, if it is to
  delete it, and otherwise never. `Change.Ended.leaves`: what it leaves has the type planned.
* `Walk.deleted_iff`: so what leaves the state was deleted by the backend of its type, exactly if
  the plan has no other type for it.
-/

namespace Provision

theorem Registry.eq_or_get_of_register {β : Type} {r : Registry β} {type type' : String} {b b' : β}
    (h : (r.register type b).get type' = .ok b') : b' = b ∨ r.get type' = .ok b' := by
  unfold register get at h
  dsimp only at h
  rw [Keyed.get?_insert] at h
  by_cases htype : type = type'
  · rw [if_pos htype] at h
    exact .inl (Except.ok.inj h).symm
  · rw [if_neg htype] at h
    exact .inr h

namespace Setup

variable {σ : Type}

/-- Backends return what they applied with the id and the type that were planned. -/
def KeepsPlanned (setup : Setup σ) : Prop :=
  ∀ type backend, setup.backends.get type = .ok backend →
    ∀ prior planned cancelled world applied,
      (backend.apply prior planned cancelled world).reply = .returned applied →
      applied.id = planned.id ∧ applied.type = planned.type

end Setup

namespace Entry

/-- Whether an entry tells that a resource was deleted. -/
def deletes (r : Resource) : Entry → Bool
  | .answered _ (.delete q) (.returned _) => q = r
  | _ => false

/-- How often a resource was deleted. -/
def deletions (r : Resource) (es : List Entry) : Nat := es.countP (deletes r)

theorem call?_of_deletes {r : Resource} {e : Entry} (h : e.deletes r = true) :
    e.call? = some (.delete r) := by
  unfold deletes at h
  split at h
  · next k q m =>
    obtain rfl := of_decide_eq_true h
    rfl
  · cases h

theorem deletions_append (r : Resource) (es fs : List Entry) :
    deletions r (es ++ fs) = deletions r es + deletions r fs := List.countP_append

end Entry

/-! ## Plans -/

namespace Plan

variable {prior : Index} {op : Operation} {p : Plan} {c : Change} {r : Resource}

/-- The plan has another type for a resource. -/
def Retypes (p : Plan) (r : Resource) : Prop := ∃ c ∈ p, c.key = r.key ∧ c.resource.type ≠ r.type

/-- Keys of a plan are distinct, so `Retypes` is about the one change at the key. -/
theorem retypes_iff (hn : p.keys.Nodup) (hf : p.find? r.key = some c) :
    p.Retypes r ↔ c.resource.type ≠ r.type := by
  obtain ⟨hc, hck⟩ := Plan.find?_eq_some hf
  constructor
  · rintro ⟨d, hd, hdk, htype⟩
    have hfound : p.find? d.key = some d := Plan.find?_of_mem hn hd
    rw [hdk, hf] at hfound
    obtain rfl := Option.some.inj hfound
    exact htype
  · exact fun htype => ⟨c, hc, hck, htype⟩

/-- `MadeFrom` plans a deletion with the resource as it was recorded, so this is the one that the
backend is given. -/
theorem MadeFrom.resource_of_delete (h : MadeFrom prior op p) (hprior : prior.ById) (hc : c ∈ p)
    (ha : c.action = .delete) : prior.get? c.key = some c.resource := by
  cases h with
  | apply desired ignored => exact Plan.get?_of_delete hprior hc ha
  | destroy =>
    obtain ⟨r, hr, rfl⟩ := List.mem_map.mp hc
    exact hprior.mem_byId.mp hr
  | refresh =>
    obtain ⟨r, -, rfl⟩ := List.mem_map.mp hc
    cases ha

/-- `differs` compares types, so what is left alone has the type that was recorded. -/
theorem MadeFrom.type_of_unchanged (h : MadeFrom prior op p) (hprior : prior.ById) (hc : c ∈ p)
    (ha : c.action = .unchanged) (hr : prior.get? c.key = some r) : r.type = c.resource.type := by
  cases h with
  | apply desired ignored =>
    rcases mem_apply.mp hc with ⟨q, -, rfl⟩ | ⟨q, -, -, rfl⟩
    · obtain ⟨recorded, hget, hd⟩ := actionFor_eq_unchanged_iff.mp ha
      obtain rfl := Option.some.inj (hget.symm.trans hr)
      exact (differs_eq_false_iff.mp hd).1
    · cases ha
  | destroy =>
    obtain ⟨q, -, rfl⟩ := List.mem_map.mp hc
    cases ha
  | refresh =>
    obtain ⟨q, hq, rfl⟩ := List.mem_map.mp hc
    obtain rfl := Option.some.inj ((hprior.mem_byId.mp hq).symm.trans hr)
    rfl

end Plan

/-! ## Executions -/

namespace Change

variable {σ : Type} {setup : Setup σ} {known : Index} {c : Change} {es : List Entry}
  {r : Resource}

theorem retained_of_answers (hkeeps : setup.KeepsPlanned) {prior : Option Resource}
    {planned : Resource} {m : Mutation} (h : setup.Answers (.apply prior planned) (.returned m)) :
    ∃ q, m = .upsert q ∧ q.id = planned.id ∧ q.type = planned.type := by
  obtain ⟨backend, cancelled, world, hb, h⟩ := reply_of_answers h
  obtain ⟨applied, ha, rfl⟩ := Outcome.reply_map_eq_returned h
  obtain ⟨hid, htype⟩ := hkeeps _ backend hb _ _ _ _ applied ha
  exact ⟨_, rfl, hid, htype⟩

theorem deletions_opening (r : Resource) (c : Change) (call : Call) :
    Entry.deletions r (c.opening call) = 0 := rfl

/-- A node that commits something has deleted its resource once before if its action is `delete`,
and otherwise never. -/
theorem Earned.deletions_eq (hop : setup.operation ≠ .refresh)
    (hr : setup.prior.get? c.key = some r) {m : Mutation} (h : c.Earned setup known es m) :
    Entry.deletions r es = if c.action = .delete then 1 else 0 := by
  cases h with
  | kept hi =>
    cases intends_of_intent hi with
    | keep _ ha =>
      rw [ha]
      rfl
  | answered hi =>
    rw [Entry.deletions_append, deletions_opening, Nat.zero_add]
    cases intends_of_intent hi with
    | read hop' => exact absurd hop' hop
    | apply _ ha =>
      have hne : c.action ≠ .delete := by
        intro hdel
        rw [hdel] at ha
        cases ha
      rw [if_neg hne]
      rfl
    | delete _ ha hrecorded =>
      -- The call names what is recorded, and that is `r`.
      unfold Setup.recordedOr at hrecorded
      rw [show setup.prior.get? c.resource.key = some r from hr, Option.getD_some] at hrecorded
      rw [if_pos ha, ← hrecorded]
      simp [Entry.deletions, Entry.deletes]

section

variable {p : Plan} (hop : setup.operation ≠ .refresh)
  (hp : Plan.MadeFrom setup.prior setup.operation p) (hprior : setup.prior.ById)
  (hkeeps : setup.KeepsPlanned) (hc : c ∈ p)

include hop hp hprior hkeeps hc

/-- It commits a resource under its key and of the type planned, unless it is to delete it. -/
theorem Earned.leaves {m : Mutation} (h : c.Earned setup known es m) :
    (c.action = .delete ∧ m = .remove) ∨
    (c.action ≠ .delete ∧ ∃ q, m = .upsert q ∧ q.key = c.key ∧ q.type = c.resource.type) := by
  cases h with
  | @kept recorded hi =>
    cases intends_of_intent hi with
    | keep _ ha hget =>
      refine .inr ⟨by rw [ha]; exact nofun, recorded, rfl, hprior _ _ hget, ?_⟩
      exact hp.type_of_unchanged hprior hc ha hget
  | answered hi hanswer =>
    cases intends_of_intent hi with
    | read hop' => exact absurd hop' hop
    | apply _ ha _ hplanned =>
      obtain ⟨hid, htype, -⟩ := planned_keeps hplanned
      obtain ⟨q, rfl, hqid, hqtype⟩ := retained_of_answers hkeeps hanswer
      refine .inr ⟨fun hdel => ?_, q, rfl, hqid.trans hid, hqtype.trans htype⟩
      rw [hdel] at ha
      cases ha
    | delete _ ha => exact .inl ⟨ha, remove_of_answers hanswer⟩

end

end Change

/-! ## Walks -/

namespace Walk

variable {σ : Type} {setup : Setup σ} {g : Graph} {jobs : Nat} {w : Walk σ}
  {decided : List (String × Except Status Unit)} {run₀ : Run σ} {entries : List Entry}
  {k : String} {r : Resource}

namespace Inv

/-- The calls made for a node are about its own resource, also those of a deletion, which name what
was recorded (`hprior`). -/
theorem key_of_call (hprior : setup.prior.ById) (h : Inv setup g run₀ w decided entries)
    {e : Entry} (he : e ∈ entries) {call : Call} (hc : e.call? = some call) : call.key = e.key := by
  obtain ⟨stage, hm⟩ := h.scheduled.exists_stage (h.lives.planned e he)
  have habout : e ∈ Entry.about e.key entries := Entry.mem_about.mpr ⟨he, rfl⟩
  obtain ⟨c, known, hf, -, hi⟩ := (h.lives.story e.key stage hm).intent_of_call habout hc
  rw [Change.key_of_intent hprior hi, (Plan.find?_eq_some hf).2]

/-- So no other node deletes a resource, and `Entry.deletions` can be counted where the node's story
is told. -/
theorem deletions_about (hprior : setup.prior.ById) (h : Inv setup g run₀ w decided entries)
    (r : Resource) : Entry.deletions r (Entry.about r.key entries) = Entry.deletions r entries := by
  unfold Entry.deletions Entry.about
  rw [List.countP_filter]
  refine List.countP_congr fun e he => ?_
  simp only [Bool.and_eq_true, decide_eq_true_eq, and_iff_left_iff_imp]
  intro hdel
  exact (h.key_of_call hprior he (Entry.call?_of_deletes hdel)).symm

section

variable (h : Inv setup g run₀ w decided entries) (hop : setup.operation ≠ .refresh)
  (hp : Plan.MadeFrom setup.prior setup.operation g.plan) (hprior : setup.prior.ById)
  (hkeeps : setup.KeepsPlanned)

include h hop hp hprior hkeeps

/-- A node that succeeded is recorded with the type planned, unless it was to delete its resource;
then it has done so once. A change of type alone deletes nothing. -/
theorem leaves_of_succeeded (hk : k ∈ g.plan.keys) (hs : w.Succeeded k) :
    ∃ c, g.find? k = some c ∧ Entry.snapshots entries ≠ [] ∧
      ((c.action = .delete ∧ w.run.recorded.get? k = none) ∨
        (c.action ≠ .delete ∧
          ∃ q, w.run.recorded.get? k = some q ∧ q.key = k ∧ q.type = c.resource.type)) ∧
      ∀ r, setup.prior.get? k = some r →
        Entry.deletions r entries = if c.action = .delete then 1 else 0 := by
  obtain ⟨c, known, hf, he⟩ := h.ended_of_succeeded hk hs
  obtain ⟨hc, rfl⟩ := Plan.find?_eq_some hf
  obtain ⟨before, m, s, hearned, habout⟩ := he.earned hp hprior hc
  have hstored : Entry.stored c.key m s ∈ entries := by
    refine (Entry.mem_about (k := c.key)).mp ?_ |>.1
    rw [habout]
    simp
  have hget : w.run.recorded.get? c.key = m.resource? := by
    rw [h.lives.run_extends.get?_recorded, habout, Entry.outcome_append]
    rfl
  refine ⟨c, hf, List.ne_nil_of_mem (Entry.mem_snapshots_of_stored hstored), ?_, fun r hr' => ?_⟩
  · rw [hget]
    rcases hearned.leaves hop hp hprior hkeeps hc with ⟨ha, rfl⟩ | ⟨ha, q, rfl, hkey, htype⟩
    · exact .inl ⟨ha, rfl⟩
    · exact .inr ⟨ha, q, rfl, hkey, htype⟩
  · rw [← h.deletions_about hprior r, hprior _ _ hr', habout, Entry.deletions_append,
      hearned.deletions_eq hop hr']
    rfl

/-- `Setup.KeepsPlanned` is what keeps `Index.ById`: backends that return other ids would break
it. -/
theorem byId_of_keepsPlanned (hr : run₀.recorded = setup.prior) : w.run.recorded.ById := by
  intro k q hq
  have hk := h.mem_keys_of_recorded hr hp hprior hq
  by_cases hs : w.Succeeded k
  · obtain ⟨c, -, -, hleft, -⟩ := h.leaves_of_succeeded hop hp hprior hkeeps hk hs
    rcases hleft with ⟨-, hnone⟩ | ⟨-, q', hq', hkey, -⟩
    · cases hnone.symm.trans hq
    · obtain rfl := Option.some.inj (hq'.symm.trans hq)
      exact hkey
  · rw [h.get?_recorded_of_failed hr hs] at hq
    exact hprior k q hq

/-- The state lists under a key what is recorded there, once something was stored (`hstored`). -/
theorem mem_resources_iff (hr : run₀.recorded = setup.prior)
    (hstored : Entry.snapshots entries ≠ []) {q : Resource} :
    q ∈ w.run.state.resources ∧ q.key = k ↔ w.run.recorded.get? k = some q := by
  have hbyId := h.byId_of_keepsPlanned hop hp hprior hkeeps hr
  rw [h.lives.run_extends.resources hstored, hbyId.mem_byId]
  constructor
  · rintro ⟨hq, rfl⟩
    exact hq
  · intro hq
    obtain rfl := hbyId k q hq
    exact ⟨hq, rfl⟩

end

/-- A deletion that the history tells of was made by the backend of the resource's own type, in a
world that the walk came by. -/
theorem ends_of_deletions (hg : g.Sound) (hprior : setup.prior.ById) {run : Run σ}
    {cs : List Choice} (hw : (Walk.start g run .empty).steps? setup g jobs cs = some w)
    (hh : w.run.history = run.history ++ entries) (hpos : 0 < Entry.deletions r entries) :
    ∃ backend before, setup.backends.get r.type = .ok backend ∧
      Ends setup g jobs (Walk.start g run .empty) cs r.key (.delete r) before ∧
      (backend.delete r before.cancelled before.world).reply = .returned () := by
  obtain ⟨ds, es, h, hends⟩ := (Inv.start hg run).ends_of_answered hg hw
  rw [List.nil_append, List.nil_append] at h
  obtain rfl : entries = es := List.append_cancel_left (hh.symm.trans h.lives.run_extends.history)
  obtain ⟨e, he, hdel⟩ := List.countP_pos_iff.mp hpos
  have hcall := Entry.call?_of_deletes hdel
  have hkey := h.key_of_call hprior he hcall
  unfold Entry.deletes at hdel
  split at hdel
  · next n q m =>
    cases hcall
    obtain rfl : r.key = n := hkey
    obtain ⟨before, hend, hreply⟩ := hends _ _ _ he
    obtain ⟨backend, hb, hreply⟩ := Setup.reply_perform_eq_returned hreply.symm
    obtain ⟨⟨⟩, hr, -⟩ := Outcome.reply_map_eq_returned hreply
    exact ⟨backend, before, hb, hend, hr⟩
  · cases hdel

end Inv

/-- **Main result.** A walk that applies or destroys, of whatever plan is `MadeFrom` what is
recorded. If the node of a recorded resource has succeeded and the state no longer lists a resource
of this type there, the backend of the type has deleted the recorded one, once. This holds exactly
for the resources whose type the plan does not change; one whose type it changes (`Plan.Retypes`) is
never deleted, and another one stands in the state in its place. -/
theorem deleted_iff {op : Operation} {p : Plan} (hp : Plan.MadeFrom setup.prior op p)
    (hb : Graph.build op p = .ok g) (hne : op ≠ .refresh) (hop : setup.operation = op)
    (hprior : setup.prior.ById) (hkeeps : setup.KeepsPlanned) {run : Run σ}
    (hr : run.recorded = setup.prior) {cs : List Choice}
    (hw : (start g run .empty).steps? setup g jobs cs = some w)
    (hh : w.run.history = run.history ++ entries) (hk : setup.prior.get? k = some r)
    (hs : w.Succeeded k) :
    (((∀ q ∈ w.run.state.resources, q.key = k → q.type ≠ r.type) →
        Entry.deletions r entries = 1 ∧
        ∃ backend before, setup.backends.get r.type = .ok backend ∧
          Ends setup g jobs (start g run .empty) cs k (.delete r) before ∧
          (backend.delete r before.cancelled before.world).reply = .returned ()) ↔
      ¬ p.Retypes r) ∧
    (p.Retypes r → Entry.deletions r entries = 0 ∧
      ∃ q ∈ w.run.state.resources, q.key = k ∧ q.type ≠ r.type) := by
  obtain ⟨hg, -, rfl⟩ := Graph.build_sound hb
  subst hop
  obtain ⟨decided, es, h⟩ := Inv.of_steps hg hw
  obtain rfl : entries = es := List.append_cancel_left (hh.symm.trans h.lives.run_extends.history)
  obtain rfl := hprior k r hk
  obtain ⟨c, hf, hstored, hleft, hcount⟩ :=
    h.leaves_of_succeeded hne hp hprior hkeeps (hp.mem_keys hprior hk) hs
  have hcount := hcount r hk
  obtain ⟨hc, hck⟩ := Plan.find?_eq_some hf
  have hlisted : ∀ q, q ∈ w.run.state.resources ∧ q.key = r.key ↔
      w.run.recorded.get? r.key = some q := fun q =>
    h.mem_resources_iff hne hp hprior hkeeps hr hstored
  rw [Plan.retypes_iff hg.keys_nodup hf]
  rcases hleft with ⟨ha, hnone⟩ | ⟨ha, q, hq, hqk, hqtype⟩
  · -- A deletion is planned with the recorded resource, so with its type.
    have hrecorded := hp.resource_of_delete hprior hc ha
    rw [hck, hk] at hrecorded
    obtain rfl := Option.some.inj hrecorded
    rw [if_pos ha] at hcount
    refine ⟨iff_of_true (fun _ => ⟨hcount, ?_⟩) (not_not_intro rfl), fun hne => absurd rfl hne⟩
    exact Inv.ends_of_deletions hg hprior hw hh (by omega)
  · -- Otherwise nothing is deleted, and `q` with the planned type is what the state lists.
    rw [if_neg ha] at hcount
    obtain ⟨hmem, -⟩ := (hlisted q).mpr hq
    refine ⟨⟨fun hdeleted htype => ?_, fun htype hgone => ?_⟩,
      fun htype => ⟨hcount, q, hmem, hqk, ?_⟩⟩
    · obtain ⟨hone, -⟩ := hdeleted fun q' hq' hk' => by
        obtain rfl := Option.some.inj (((hlisted q').mp ⟨hq', hk'⟩).symm.trans hq)
        rw [hqtype]
        exact htype
      omega
    · exact absurd (hqtype.trans (not_not.mp htype)) (hgone q hmem hqk)
    · rw [hqtype]
      exact htype

/-! ## A database that moves -/

/-- A database runs here, and a job there. -/
def moveState : State where
  serial := 2
  lastModified := default
  resources := [⟨"db", "Local", [], []⟩, ⟨"job", "Remote", [], []⟩]

/-- Two types are served, and all is done as asked. -/
def moveSetup : Setup Unit :=
  { Setup.replying (fun _ r => .returned r) .apply moveState.index [] with
    backends := (Registry.empty.register "Local" (.replying fun _ r => .returned r)).register
      "Remote" (.replying fun _ r => .returned r) }

theorem moveSetup_keepsPlanned : moveSetup.KeepsPlanned := by
  intro type backend hb _ planned _ _ applied ha
  have hbackend : backend = .replying fun _ r => .returned r := by
    rcases Registry.eq_or_get_of_register hb with rfl | hb
    · rfl
    · exact Registry.get_register_empty hb
  subst hbackend
  cases ha
  exact ⟨rfl, rfl⟩

/-- The database is to run there, and the job no longer. -/
def move : Manifest where
  resources := [⟨"db", "Remote", [], []⟩]

/-- The graph of the plan to `move`. -/
def moveGraph : Graph where
  operation := .apply
  plan := [⟨⟨"db", "Remote", [], []⟩, .update⟩, ⟨⟨"job", "Remote", [], []⟩, .delete⟩]
  edges := []
  order := ["job", "db"]

theorem build_moveGraph :
    Graph.build .apply (Plan.apply move.resources moveState.index []) = .ok moveGraph := by
  unfold Plan.apply
  rw [Index.byId_eq_values (by decide +kernel)]
  decide +kernel

/-- One node after the other. -/
def moveSteps : List Choice :=
  [.tell "db", .tell "job", .leave, .take "db", .begin "db", .finish "db", .receive "db", .leave,
    .take "job", .begin "job", .finish "job", .receive "job", .leave]

/-- At the end of `moveSteps` the state lists the new database and nothing else. The old one was not
deleted. -/
theorem move_ends :
    ∃ w, (start moveGraph (.ofState moveState) .empty).steps? moveSetup moveGraph 1 moveSteps =
        some w ∧ w.isOver = true ∧ (∀ k ∈ moveGraph.plan.keys, w.Succeeded k) ∧
      Entry.deletions ⟨"db", "Local", [], []⟩ w.run.history = 0 ∧
      ∀ q ∈ w.run.state.resources, q = ⟨"db", "Remote", [], []⟩ := by
  have hend : ((start moveGraph (.ofState moveState) .empty).steps? moveSetup moveGraph 1
      moveSteps).any fun w => w.isOver &&
        (decide (∀ k ∈ moveGraph.plan.keys, w.Succeeded k) &&
        (Entry.deletions ⟨"db", "Local", [], []⟩ w.run.history == 0 &&
        (decide ((Entry.snapshots w.run.history).length ≠ 0) &&
          w.run.recorded.values == [⟨"db", "Remote", [], []⟩]))) := by
    decide +kernel
  obtain ⟨w, hw, hend⟩ := (Option.any_eq_true _ _).mp hend
  simp only [Bool.and_eq_true, decide_eq_true_eq, beq_iff_eq] at hend
  obtain ⟨ho, hs, hcount, hstored, hvalues⟩ := hend
  refine ⟨w, hw, ho, hs, hcount, fun q hq => ?_⟩
  obtain ⟨decided, entries, h⟩ := Inv.of_steps (Graph.build_sound build_moveGraph).1 hw
  have hx := h.lives.run_extends
  have hentries : w.run.history = entries := hx.history
  have hne : Entry.snapshots entries ≠ [] := by
    rw [← hentries]
    exact fun hnil => hstored (congrArg List.length hnil)
  rw [hx.resources hne] at hq
  have hmem : q ∈ w.run.recorded.values := (Index.byId_perm _).mem_iff.mp hq
  rw [hvalues] at hmem
  exact List.mem_singleton.mp hmem

theorem deleted_iff_move :
    ∃ w, (start moveGraph (.ofState moveState) .empty).steps? moveSetup moveGraph 1 moveSteps =
        some w ∧
      Entry.deletions ⟨"job", "Remote", [], []⟩ w.run.history = 1 ∧
      Entry.deletions ⟨"db", "Local", [], []⟩ w.run.history = 0 := by
  obtain ⟨w, hw, ho, hs, -, hlisted⟩ := move_ends
  have hp : Plan.MadeFrom moveState.index .apply
      (Plan.apply move.resources moveState.index []) := .apply _ _
  have hprior : moveState.index.ById := Index.byId_ofResources _
  have hplan : moveGraph.plan = Plan.apply move.resources moveState.index [] :=
    (Graph.build_sound build_moveGraph).2.2
  have hrecorded : (Run.ofState moveState).recorded = moveSetup.prior := rfl
  have hjob := (deleted_iff (k := "job") (r := ⟨"job", "Remote", [], []⟩) hp build_moveGraph
    (by decide) rfl hprior moveSetup_keepsPlanned hrecorded hw (List.nil_append _).symm (by decide)
    (hs _ (by decide))).1
  have hdb := (deleted_iff (k := "db") (r := ⟨"db", "Local", [], []⟩) hp build_moveGraph
    (by decide) rfl hprior moveSetup_keepsPlanned hrecorded hw (List.nil_append _).symm (by decide)
    (hs _ (by decide))).2
  rw [← hplan] at hjob hdb
  refine ⟨w, hw, (hjob.mpr ?_ fun q hq hkey => ?_).1, (hdb ?_).1⟩
  · rintro ⟨c, hc, hkey, htype⟩
    revert c
    decide
  · rw [hlisted q hq] at hkey
    exact absurd hkey (by decide)
  · exact ⟨_, List.mem_cons_self, rfl, by decide⟩

/-- A resource that is no longer recorded with its type need not have been deleted: `db` moves from
one backend to another, and only the new one is called. -/
theorem moved_not_deleted :
    ¬ ∀ (m : Manifest) (ignored : List FieldPath) (setup : Setup Unit) (g : Graph) (run : Run Unit)
      (jobs : Nat) (cs : List Choice) (w : Walk Unit) (es : List Entry) (k : String) (r : Resource),
      m.validate = .ok () → setup.operation = .apply → setup.prior.ById → setup.KeepsPlanned →
      Graph.build .apply (Plan.apply m.resources setup.prior ignored) = .ok g →
      run.known = setup.prior → run.recorded = setup.prior → run.state.index = setup.prior →
      (start g run .empty).steps? setup g jobs cs = some w → w.run.history = run.history ++ es →
      w.isOver = true → (∀ k ∈ g.plan.keys, w.Succeeded k) → setup.prior.get? k = some r →
      (∀ q ∈ w.run.state.resources, q.key = k → q.type ≠ r.type) →
      Entry.deletions r es = 1 := by
  intro h
  obtain ⟨w, hw, ho, hs, hcount, hlisted⟩ := move_ends
  have hone := h move [] moveSetup moveGraph (.ofState moveState) 1 moveSteps w
    w.run.history "db" ⟨"db", "Local", [], []⟩ rfl rfl (Index.byId_ofResources _)
    moveSetup_keepsPlanned build_moveGraph rfl rfl rfl hw rfl ho hs (by decide)
    fun q hq _ => by
      rw [hlisted q hq]
      decide
  rw [hcount] at hone
  cases hone

end Walk

end Provision
