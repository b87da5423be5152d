import Provision.Command
import Provision.Proofs.State.Files
import Provision.Proofs.Walk.Mirror

/-!
# State and disk

The attributes of local resources are recorded in the state and written to files, and both should
say the same.

* `LocalFiles.Agrees`: reading any resource of a state gives it back as it is recorded.
  `LocalFiles.Agrees.attributes_eq`: resources with one file then have the same attributes.
* `Setup.ServesFiles.mirrors`: files show what was applied, where resources have files of their own.
* `Settings.storesApart`: the state file is no file of a resource, if it has another name.
* `Walk.disk_agrees`: so an application that succeeded leaves state and disk in agreement.
  `Walk.disk_not_agrees`: not so where the ids of two resources lead to one file.
-/

namespace Provision

@[simp] theorem Outcome.world_map {σ α β : Type} (f : α → β) (o : Outcome σ α) :
    (o.map f).world = o.world := rfl

namespace LocalFiles

/-- Reading any resource of the state gives it back exactly as it is recorded. -/
def Agrees (root : String) (fs : FileSystem) (s : State) : Prop :=
  ∀ r ∈ s.resources, Holds root fs r

instance {root : String} {fs : FileSystem} {s : State} : Decidable (Agrees root fs s) :=
  inferInstanceAs (Decidable (∀ r ∈ s.resources, Holds root fs r))

variable {root : String} {fs : FileSystem} {q r s : Resource} {cancelled : Bool}

/-- Resources with the same `fileName` can only agree with the file if they have the same
attributes. -/
theorem Agrees.attributes_eq {s : State} (h : Agrees root fs s) (hq : q ∈ s.resources)
    (hr : r ∈ s.resources) (he : fileName q.id = fileName r.id) : q.attributes = r.attributes := by
  obtain ⟨text, a, hread, hparse, ha⟩ := read_eq_some_iff.mp (h q hq)
  obtain ⟨text', b, hread', hparse', hb⟩ := read_eq_some_iff.mp (h r hr)
  have hpath : path root q = path root r := congrArg (Path.join root) he
  obtain rfl := Except.ok.inj ((hpath ▸ hread).symm.trans hread')
  obtain rfl := Option.some.inj (hparse.symm.trans hparse')
  rw [ha, hb]

/-! ## Calls -/

section

variable (prior? : Option Resource) (planned prior : Resource)

@[simp] theorem backend_apply :
    (backend root).apply prior? planned cancelled fs = apply root planned cancelled fs := by
  rw [backend]

@[simp] theorem backend_delete :
    (backend root).delete prior cancelled fs = delete root prior fs := by
  rw [backend]

@[simp] theorem backend_read : (backend root).read prior cancelled fs = read root prior fs := by
  rw [backend]

end

theorem apply_eq_write (h : (apply root r cancelled fs).reply = .returned s) :
    (write root r fs).1 = .returned s ∧
      (apply root r cancelled fs).world = (write root r fs).2 := by
  unfold apply at h ⊢
  split at h
  · cases h
  · next hc =>
    rw [if_neg hc]
    exact ⟨h, rfl⟩

/-- **Frame.** A call touches only files of the name that its resource has; `cancelled` may keep it
from touching any. -/
theorem confined_perform (root : String) (call : Call) (cancelled : Bool) (fs : FileSystem) :
    fs.Confined [fileName call.key] (call.perform (backend root) cancelled fs).world := by
  cases call with
  | apply prior planned =>
    rw [Call.perform, backend_apply, Outcome.world_map]
    unfold apply
    split
    · exact (FileSystem.Spares.refl fs).confined _
    · exact confined_write root planned fs
  | delete prior =>
    rw [Call.perform, backend_delete, Outcome.world_map]
    exact confined_delete root prior fs
  | read prior =>
    rw [Call.perform, backend_read, Outcome.world_map]
    exact (FileSystem.Spares.refl fs).confined _

end LocalFiles

namespace Setup

open LocalFiles

/-- No other backend is served than that for files below `root`. -/
def ServesFiles (setup : Setup FileSystem) (root : String) : Prop :=
  ∀ type backend, setup.backends.get type = .ok backend → backend = LocalFiles.backend root

/-- Storing a state leaves the files of resources with the given keys as they are. -/
def StoresApart (setup : Setup FileSystem) (root : String) (keys : List String) : Prop :=
  ∀ s fs r, r.key ∈ keys → Holds root fs r → Holds root (setup.store s fs).2 r

namespace ServesFiles

variable {setup : Setup FileSystem} {root : String} (h : setup.ServesFiles root) {p : Plan}

include h

theorem faithful : setup.Faithful := by
  intro type backend hb prior planned cancelled fs applied ha
  rw [h type backend hb, backend_apply] at ha
  exact eq_of_write (apply_eq_write ha).1

theorem keepsIds : setup.KeepsIds := by
  intro type backend hb
  refine ⟨fun prior planned cancelled fs applied ha => ?_, fun prior cancelled fs observed ho => ?_⟩
  · rw [h.faithful type backend hb prior planned cancelled fs applied ha]
  · rw [h type backend hb, backend_read] at ho
    obtain ⟨text, a, -, -, rfl⟩ := read_eq_some_iff.mp ho
    rfl

theorem confined (call : Call) (cancelled : Bool) (fs : FileSystem) :
    fs.Confined [fileName call.key] (setup.perform call cancelled fs).world := by
  unfold perform
  split
  · next backend hb =>
    rw [h _ _ hb]
    exact confined_perform root call cancelled fs
  · exact (FileSystem.Spares.refl fs).confined _

/-- Trees that are `Storable` remain so through `resolve`, `prune` and the answers of the backend,
which are faithful here. -/
theorem hereditary (hp : ∀ c ∈ p, c.resource.attributes.Storable)
    (hprior : ∀ k r, setup.prior.get? k = some r → r.attributes.Storable) :
    setup.Hereditary p (·.attributes.Storable) where
  recorded := hprior
  planned c hc known prior planned hi hread := by
    obtain ⟨a, hr, ha⟩ := Change.attributes_of_intent hi
    rw [ha]
    exact ((hp c hc).resolve hread hr).prune setup.ignored
  applied prior planned r hplanned ha := by
    cases Change.upsert_of_answers h.faithful ha
    exact hplanned

/-- The files show what was applied, if `fileName` tells the planned keys apart: `others` is the
frame, and without `hnames` one call could write what another resource reads. -/
theorem mirrors (hnames : ∀ a ∈ p.keys, ∀ b ∈ p.keys, fileName a = fileName b → a = b)
    (hstore : setup.StoresApart root p.keys) :
    setup.Mirrors p (·.attributes.Storable) (Holds root) where
  applied prior planned cancelled fs r hplanned hreply := by
    cases Change.upsert_of_answers h.faithful ⟨_, _, hreply⟩
    obtain ⟨backend, hb, ha⟩ := reply_perform_eq_returned hreply
    obtain ⟨applied, ha, -⟩ := Outcome.reply_map_eq_returned ha
    rw [h _ _ hb, backend_apply] at ha
    obtain ⟨hw, hworld⟩ := apply_eq_write ha
    unfold perform
    rw [hb, h _ _ hb]
    dsimp only
    rw [Call.perform, backend_apply, Outcome.world_map, hworld]
    exact holds_of_write hplanned hw
  -- Only the file of the resource itself is touched, and by `hnames` no other one reads it.
  others call cancelled fs r hcall hr hne hholds := by
    refine read_of_confined (h.confined call cancelled fs) (fun hm => ?_) hholds
    exact hne (hnames _ hcall _ hr (List.mem_singleton.mp hm).symm)
  stored := hstore

end ServesFiles

end Setup

/-! ## Settings -/

namespace Settings

variable {settings : Settings} {operation : Operation} {s : State} {now : Timestamp}

theorem servesFiles : (settings.setup operation s now).ServesFiles settings.localRoot :=
  fun _ _ hb => Registry.get_register_empty hb

/-- `State.persist` touches the names on the two paths that it writes, so the state is stored apart
from resources whose files have other names. -/
theorem storesApart {keys : List String} (h : ∀ k ∈ keys, LocalFiles.fileName k ∉
      Path.lastNames (State.draftPath settings.stateFile) ++ Path.lastNames settings.stateFile) :
    (settings.setup operation s now).StoresApart settings.localRoot keys := by
  intro s' fs r hr hholds
  have hconfined := s'.confined_persist settings.stateFile fs
  refine LocalFiles.read_of_confined ?_ (h _ hr) hholds
  unfold setup
  dsimp only
  split <;> next hp => rwa [hp] at hconfined

end Settings

/-! ## Walks -/

namespace Walk

open LocalFiles

/-- If nothing was stored though every node succeeded, then there was no node, and nothing
recorded. -/
theorem Inv.prior_eq_empty {σ : Type} {setup : Setup σ} {g : Graph} {w : Walk σ} {run₀ : Run σ}
    {decided : List (String × Except Status Unit)} {entries : List Entry}
    (h : Inv setup g run₀ w decided entries)
    (hp : Plan.MadeFrom setup.prior setup.operation g.plan) (hprior : setup.prior.ById)
    (hs : ∀ k ∈ g.plan.keys, w.Succeeded k) (hn : Entry.snapshots entries = []) :
    setup.prior = .empty := by
  refine Keyed.ext_get? fun k => Option.eq_none_iff_forall_ne_some.mpr fun r hget => ?_
  have hk := hp.mem_keys hprior hget
  obtain ⟨c, known, hf, he⟩ := h.ended_of_succeeded hk (hs k hk)
  obtain ⟨before, m, s, -, habout⟩ := he.earned hp hprior (Plan.find?_eq_some hf).1
  have hm : .stored c.key m s ∈ Entry.about k entries := by
    rw [habout]
    exact List.mem_append_right _ List.mem_cons_self
  have hs := Entry.mem_snapshots_of_stored (Entry.mem_about.mp hm).1
  rw [hn] at hs
  cases hs

section

variable {setup : Setup FileSystem} {g : Graph} {jobs : Nat} {w : Walk FileSystem} {root : String}
  {desired : List Resource} {ignored : List FieldPath}

/-- **Main result.** A manifest is applied and every node succeeds, with trees that are `Storable`
and a state that `Agrees` with the files. If the ids planned for have files of their own (`hnames`),
and the state is stored elsewhere (`hstore`), then the new state agrees with the files again. Also,
the file of one of these ids can be written and deleted without any effect on what is read from the
files of the others. -/
theorem disk_agrees (hop : setup.operation = .apply) (hfiles : setup.ServesFiles root)
    (hb : Graph.build .apply (Plan.apply desired setup.prior ignored) = .ok g)
    {run : Run FileSystem} (hk : run.known = setup.prior) (hr : run.recorded = setup.prior)
    (hst : run.state.index = setup.prior)
    (htrees : ∀ r ∈ desired ++ run.state.resources, r.attributes.Storable)
    (hagrees : Agrees root run.world run.state)
    (hnames : ∀ a ∈ g.plan.keys, ∀ b ∈ g.plan.keys, fileName a = fileName b → a = b)
    (hstore : setup.StoresApart root g.plan.keys) {cs : List Choice}
    (hw : (start g run .empty).steps? setup g jobs cs = some w)
    (hs : ∀ k ∈ g.plan.keys, w.Succeeded k) :
    Agrees root w.run.world w.run.state ∧
      ∀ fs q r s, q.key ∈ g.plan.keys → r.key ∈ g.plan.keys → q.key ≠ r.key →
        (read root r fs).reply = .returned (some s) →
        (read root r (write root q fs).2).reply = .returned (some s) ∧
          (read root r (delete root q fs).world).reply = .returned (some s) := by
  obtain ⟨hg, hgop, hp⟩ := Graph.build_sound hb
  have hmade := Plan.MadeFrom.of_apply hop hp
  have hlisted : ∀ k r, setup.prior.get? k = some r → r ∈ run.state.resources := fun k r hget =>
    (Index.get?_ofResources_eq_some (hst ▸ hget : run.state.index.get? k = some r)).1
  have hprior : setup.prior.ById := hst ▸ Index.byId_ofResources _
  have hstorable : ∀ k r, setup.prior.get? k = some r → r.attributes.Storable := fun k r hget =>
    htrees r (List.mem_append_right _ (hlisted k r hget))
  have hplan : ∀ c ∈ g.plan, c.resource.attributes.Storable := fun c hc => by
    rcases Plan.mem_apply.mp (hp ▸ hc) with ⟨r, hr, rfl⟩ | ⟨r, hr, -, rfl⟩
    · exact htrees r (List.mem_append_left _ hr)
    · exact hstorable _ r (hprior.mem_byId.mp hr)
  obtain ⟨decided, entries, h, hall⟩ := mirrored hg hop hgop hprior
    (hfiles.hereditary hplan hstorable) (hfiles.mirrors hnames hstore) hk hmade hfiles.keepsIds hr
    hw fun k r hget => hagrees r (hlisted k r hget)
  refine ⟨fun r hmem => ?_, fun fs q r s hq hr hne hread => ?_⟩
  · by_cases hn : Entry.snapshots entries = []
    · -- Nothing stored: nothing was recorded before, so the old state is empty too.
      have hempty := h.prior_eq_empty hmade hprior hs hn
      rw [h.lives.run_extends.state, hn] at hmem
      rw [List.getLastD_nil, Index.eq_nil_of_ofResources (hst.trans hempty)] at hmem
      cases hmem
    · rw [h.lives.run_extends.resources hn] at hmem
      obtain ⟨k, hget⟩ := Index.mem_byId.mp hmem
      have hkeys := h.mem_keys_of_recorded hr hmade hprior hget
      exact hall k r hget (h.not_spoilt (hs k hkeys))
  · have hname : fileName q.id ≠ fileName r.id := fun he => hne (hnames _ hq _ hr he)
    exact ⟨read_after_write hname hread, read_after_delete hname hread⟩

end

/-! ## Resources on a shelf -/

/-- What is recorded: the resource `old` is on its way out. -/
def shelf : State where
  serial := 4
  lastModified := default
  resources := [⟨"app/web", "Local", [("v", .number (.int 1))], []⟩,
    ⟨"db", "Local", [("v", .number (.int 1))], []⟩, ⟨"old", "Local", [], []⟩]

/-- The files of the resources on the shelf. -/
def shelfFiles : FileSystem where
  here := []
  entries := [(["root"], .directory),
    (["app_web.json", "root"], .file (.text "\x7b\"v\": 1\x7d")),
    (["db.json", "root"], .file (.text "\x7b\"v\": 1\x7d")),
    (["old.json", "root"], .file (.text "\x7b\x7d"))]

/-- Local files below `root`, and the state beside it. -/
def shelfSettings : Settings := ⟨1, [], "state.json", "root"⟩

/-- The desired resources: `db` changes, and `new` refers to it. -/
def shelfDesired : List Resource :=
  [⟨"app/web", "Local", [("v", .number (.int 1))], []⟩,
    ⟨"db", "Local", [("v", .number (.int 2))], []⟩,
    ⟨"new", "Local", [("x", .string "$converge_path.db.v")], []⟩]

/-- One resource of each action. -/
def shelfGraph : Graph where
  operation := .apply
  plan := [⟨⟨"app/web", "Local", [("v", .number (.int 1))], []⟩, .unchanged⟩,
    ⟨⟨"db", "Local", [("v", .number (.int 2))], []⟩, .update⟩,
    ⟨⟨"new", "Local", [("x", .string "$converge_path.db.v")], []⟩, .create⟩,
    ⟨⟨"old", "Local", [], []⟩, .delete⟩]
  edges := [("db", "new")]
  order := ["old", "db", "new", "app/web"]

/-- One node after the other. -/
def shelfSteps : List Choice :=
  [.tell "app/web", .tell "db", .tell "old", .leave, .take "app/web", .begin "app/web",
    .receive "app/web", .leave, .take "db", .begin "db", .finish "db", .receive "db", .tell "new",
    .leave, .take "old", .begin "old", .finish "old", .receive "old", .leave, .take "new",
    .begin "new", .finish "new", .receive "new", .leave]

theorem disk_agrees_shelf :
    ∃ w, (start shelfGraph (shelfGraph.plan.firstRun shelf shelfFiles) .empty).steps?
        (shelfSettings.setup .apply shelf default) shelfGraph 1 shelfSteps = some w ∧
      w.run.recorded.keys = ["app/web", "db", "new"] ∧ Agrees "root" w.run.world w.run.state ∧
      Holds "root" (delete "root" ⟨"db", "Local", [], []⟩ shelfFiles).world
        ⟨"app/web", "Local", [("v", .number (.int 1))], []⟩ := by
  have hlisted : shelf.index.byId = shelf.index.values := Index.byId_eq_values (by decide)
  have hb : Graph.build .apply (Plan.apply shelfDesired shelf.index []) = .ok shelfGraph := by
    unfold Plan.apply
    rw [hlisted]
    rfl
  have htrees : ∀ r ∈ shelfDesired ++ shelf.resources, r.attributes.Storable := by
    have hscalars : ∀ r ∈ shelfDesired ++ shelf.resources, Fields.Sorted r.attributes ∧
        ∀ f ∈ r.attributes, f.2.isScalar = true ∧ f.2.toJson.Plain := by
      simp [shelfDesired, shelf, Fields.Sorted, Value.isScalar, Value.toJson, Json.Plain,
        Number.Integral]
    exact fun r hr => .of_scalars (hscalars r hr).1 (hscalars r hr).2
  have hend : ((start shelfGraph (shelfGraph.plan.firstRun shelf shelfFiles) .empty).steps?
      (shelfSettings.setup .apply shelf default) shelfGraph 1 shelfSteps).any fun w =>
        decide (∀ k ∈ shelfGraph.plan.keys, w.Succeeded k) &&
          w.run.recorded.keys == ["app/web", "db", "new"] := by
    decide +kernel
  obtain ⟨w, hw, hend⟩ := (Option.any_eq_true _ _).mp hend
  rw [Bool.and_eq_true, decide_eq_true_eq, beq_iff_eq] at hend
  obtain ⟨hagrees, hframe⟩ := disk_agrees rfl Settings.servesFiles hb rfl rfl rfl htrees
    (by decide +kernel) (by decide +kernel) (Settings.storesApart (by decide +kernel)) hw hend.1
  refine ⟨w, hw, hend.2, hagrees, ?_⟩
  exact (hframe shelfFiles ⟨"db", "Local", [], []⟩ _ _ (by decide +kernel) (by decide +kernel)
    (by decide +kernel) (by decide +kernel)).2

/-! ## Two ids for one file -/

/-- A manifest with an id that is the other one but for its slash. -/
def flat : Manifest :=
  ⟨[⟨"a/b", "Local", [("v", .number (.int 1))], []⟩,
    ⟨"a_b", "Local", [("v", .number (.int 2))], ["a/b"]⟩]⟩

/-- Creates both. -/
def flatGraph : Graph where
  operation := .apply
  plan := [⟨⟨"a/b", "Local", [("v", .number (.int 1))], []⟩, .create⟩,
    ⟨⟨"a_b", "Local", [("v", .number (.int 2))], ["a/b"]⟩, .create⟩]
  edges := [("a/b", "a_b")]
  order := ["a/b", "a_b"]

/-- The one after the other. -/
def flatSteps : List Choice :=
  [.tell "a/b", .leave, .take "a/b", .begin "a/b", .finish "a/b", .receive "a/b", .tell "a_b",
    .leave, .take "a_b", .begin "a_b", .finish "a_b", .receive "a_b", .leave]

/-- Without `hnames` state and disk need not agree after an application that succeeds: `a/b` and
`a_b` have one file, and what was written for the one is read for the other. -/
theorem disk_not_agrees :
    ¬ ∀ (m : Manifest) (settings : Settings) (s : State) (now : Timestamp) (fs : FileSystem)
      (g : Graph) (cs : List Choice) (w : Walk FileSystem), m.validate = .ok () →
      (∀ r ∈ m.resources ++ s.resources, r.type = LocalFiles.type ∧ r.attributes.Storable) →
      Agrees settings.localRoot fs s →
      (settings.setup .apply s now).StoresApart settings.localRoot g.plan.keys →
      Graph.build .apply (Plan.apply m.resources s.index settings.ignored) = .ok g →
      (start g (g.plan.firstRun s fs) .empty).steps? (settings.setup .apply s now) g
        settings.jobs cs = some w →
      (∀ k ∈ g.plan.keys, w.Succeeded k) → Agrees settings.localRoot w.run.world w.run.state := by
  intro h
  have hlisted : (State.empty default).index.byId = [] := List.mergeSort_nil
  have hb : Graph.build .apply (Plan.apply flat.resources (State.empty default).index []) =
      .ok flatGraph := by
    unfold Plan.apply
    rw [hlisted]
    rfl
  have hend : ((start flatGraph (flatGraph.plan.firstRun (.empty default) ⟨[], []⟩) .empty).steps?
      (shelfSettings.setup .apply (.empty default) default) flatGraph 1 flatSteps).any fun w =>
        decide (∀ k ∈ flatGraph.plan.keys, w.Succeeded k) &&
          decide (∀ r ∈ flat.resources, w.run.recorded.get? r.key = some r) := by
    decide +kernel
  obtain ⟨w, hw, hend⟩ := (Option.any_eq_true _ _).mp hend
  rw [Bool.and_eq_true, decide_eq_true_eq, decide_eq_true_eq] at hend
  obtain ⟨hs, hget⟩ := hend
  -- The state lists what is recorded.
  obtain ⟨hg, hgop, hp⟩ := Graph.build_sound hb
  obtain ⟨decided, entries, hinv⟩ := Inv.of_steps hg hw
  have hmade : Plan.MadeFrom (State.empty default).index .apply flatGraph.plan := .of_apply rfl hp
  have hprior : (State.empty default).index.ById := Index.byId_ofResources []
  have hindex := hinv.index_state rfl
    (hinv.recorded_byId rfl hmade hprior Settings.servesFiles.keepsIds)
  have hlists : ∀ r ∈ flat.resources, r ∈ w.run.state.resources := fun r hr => by
    have hr := hget r hr
    rw [← hindex] at hr
    exact (Index.get?_ofResources_eq_some hr).1
  have htrees : ∀ r ∈ flat.resources ++ (State.empty default).resources,
      r.type = LocalFiles.type ∧ r.attributes.Storable := by
    have hscalars : ∀ r ∈ flat.resources ++ (State.empty default).resources,
        r.type = LocalFiles.type ∧ Fields.Sorted r.attributes ∧
          ∀ f ∈ r.attributes, f.2.isScalar = true ∧ f.2.toJson.Plain := by
      simp [flat, LocalFiles.type, State.empty, Fields.Sorted, Value.isScalar, Value.toJson,
        Json.Plain, Number.Integral]
    exact fun r hr => ⟨(hscalars r hr).1, .of_scalars (hscalars r hr).2.1 (hscalars r hr).2.2⟩
  have hagrees := h flat shelfSettings (.empty default) default ⟨[], []⟩ flatGraph flatSteps w rfl
    htrees (by decide) (Settings.storesApart (by decide +kernel)) hb hw hs
  have heq := hagrees.attributes_eq (hlists _ List.mem_cons_self)
    (hlists _ (List.mem_cons_of_mem _ List.mem_cons_self)) (by decide +kernel)
  exact absurd heq (by decide)

end Walk

end Provision
