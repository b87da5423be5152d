import Provision.Proofs.Run.Effect
import Provision.Proofs.Walk.Invariant

/-!
# No stale reads

* `Walk.Inv.intent_of_call`: a call that was made is the one that its node would make if it started
  with what is known now.
* `Walk.applied_fresh`: so whatever a backend was asked to apply, its references are resolved as
  they would be at any later point of the walk.
-/

namespace Provision

namespace Walk

variable {σ : Type} {setup : Setup σ} {g : Graph} {jobs : Nat} {w : Walk σ}
  {decided : List (String × Except Status Unit)} {run₀ : Run σ} {entries : List Entry}

/-- A call comes from an intent that was formed on a `known` which agrees with what is known now, as
far as the node may read. -/
theorem Story.intent_of_call {run : Run σ} {k : String} {stage : Stage} {state : NodeState}
    {es : List Entry} (h : Story setup g decided run k stage state es) {e : Entry} (he : e ∈ es)
    {call : Call} (hc : e.call? = some call) :
    ∃ c known, g.find? k = some c ∧ g.Agree k known run.known ∧
      c.intent setup known = .ok (.call call) := by
  cases h with
  | waiting => cases he
  | resolving => cases he
  | @calling c known call' hf ha hi =>
    rw [Change.call?_of_mem_opening he hc]
    exact ⟨c, known, hf, ha, hi⟩
  | @executed c known r state es hf ha hend =>
    exact ⟨c, known, hf, ha, hend.call? he hc⟩
  | skipped =>
    rw [List.mem_singleton.mp he] at hc
    cases hc

/-- So it is the call that its node would make with what is known now. `hop`: only the graph of an
application has edges for references. -/
theorem Inv.intent_of_call (hg : g.Sound) (h : Inv setup g run₀ w decided entries)
    (hop : g.operation = .apply) {e : Entry} (he : e ∈ entries) {call : Call}
    (hc : e.call? = some call) :
    ∃ c, g.find? e.key = some c ∧ c.intent setup w.run.known = .ok (.call call) := by
  obtain ⟨stage, hm⟩ := h.scheduled.exists_stage (h.lives.planned e he)
  have hab : e ∈ Entry.about e.key entries := Entry.mem_about.mpr ⟨he, rfl⟩
  obtain ⟨c, known, hf, ha, hi⟩ := (h.lives.story e.key stage hm).intent_of_call hab hc
  refine ⟨c, hf, ?_⟩
  rw [← Change.intent_congr hg ha hf fun _ => hop]
  exact hi

/-- **Main result.** Whatever a backend is asked to apply during a walk, early or late: its
attributes are those of its node with the references resolved against what is known at the end, and
without the ignored fields. -/
theorem applied_fresh {p : Plan} (hb : Graph.build .apply p = .ok g) {run : Run σ}
    {cs : List Choice} (hw : (start g run .empty).steps? setup g jobs cs = some w)
    (hh : w.run.history = run.history ++ entries) {e : Entry} (he : e ∈ entries)
    {prior : Option Resource} {planned : Resource}
    (hc : e.call? = some (.apply prior planned)) :
    ∃ c, p.find? e.key = some c ∧
      (c.resource.attributes.resolve w.run.known).map (·.prune setup.ignored) =
        .ok planned.attributes := by
  obtain ⟨hg, hop, rfl⟩ := Graph.build_sound hb
  obtain ⟨decided, entries', h⟩ := Inv.of_steps hg hw
  obtain rfl : entries = entries' :=
    List.append_cancel_left (hh.symm.trans h.lives.run_extends.history)
  obtain ⟨c, hf, hi⟩ := h.intent_of_call hg hop he hc
  obtain ⟨a, ha, hplanned⟩ := Change.attributes_of_intent hi
  refine ⟨c, hf, ?_⟩
  rw [ha, hplanned]
  rfl

/-- Resource `b` refers to `a`, and has a field that is ignored. -/
def pair : Plan :=
  [⟨⟨"a", "Local", [("v", .number (.int 1))], []⟩, .create⟩,
    ⟨⟨"b", "Local", [("t", .null), ("x", .string "$converge_path.a.v")], []⟩, .create⟩]

/-- The graph of `pair`. -/
def pairGraph : Graph := ⟨.apply, pair, [("a", "b")], ["a", "b"]⟩

/-- The backend adds one to every integer. -/
def pairSetup : Setup Unit :=
  .replying (fun _ r => .returned { r with
    attributes := r.attributes.map fun f => (f.1, match f.2 with
      | .number (.int i) => .number (.int (i + 1))
      | v => v) }) .apply .empty [⟨["t"]⟩]

/-- One node after the other. -/
def pairSteps : List Choice :=
  [.tell "a", .leave, .take "a", .begin "a", .finish "a", .receive "a", .tell "b", .leave,
    .take "b", .begin "b", .finish "b", .receive "b", .leave]

theorem applied_fresh_pair :
    ∃ w, (start pairGraph (.ofState default) .empty).steps? pairSetup pairGraph 1 pairSteps =
      some w ∧
      .called "b" (.apply none ⟨"b", "Local", [("x", .number (.int 2))], []⟩) ∈ w.run.history ∧
      ∃ c, pair.find? "b" = some c ∧
        (c.resource.attributes.resolve w.run.known).map (·.prune pairSetup.ignored) =
          .ok [("x", .number (.int 2))] := by
  have hb : Graph.build .apply pair = .ok pairGraph := rfl
  have hcalled : ((start pairGraph (.ofState default) .empty).steps? pairSetup pairGraph 1
      pairSteps).any fun w => decide (.called "b"
        (.apply none ⟨"b", "Local", [("x", .number (.int 2))], []⟩) ∈ w.run.history) := by
    decide +kernel
  obtain ⟨w, hw, he⟩ := (Option.any_eq_true _ _).mp hcalled
  have he := of_decide_eq_true he
  exact ⟨w, hw, he, applied_fresh hb hw (List.nil_append _).symm he rfl⟩

end Walk

end Provision
