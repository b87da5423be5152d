import Provision.Proofs.Attributes.Commute
import Provision.Proofs.Walk.Hereditary

/-!
# References that backends see

A reference is replaced by the scalar that it names. That scalar may be a reference itself, and it
is not followed.

* `Attributes.Literal`: no text of a tree is a reference.
* `Change.literal_iff_of_intent`: which references are left in what a backend is asked to apply.
* `Walk.Inv.literal_known`: if none were there to begin with, no known resource ever has one.
* `Walk.applied_literal_iff`: a backend is asked to apply a literal tree exactly if no reference of
  its node names another one. `Walk.applied_not_literal`: it may happen that one does.
-/

namespace Provision

namespace Attributes

/-- No text of the tree is a reference. -/
def Literal (a : Attributes) : Prop := a.references = []

instance (a : Attributes) : Decidable a.Literal := inferInstanceAs (Decidable (_ = []))

end Attributes

namespace Reference

/-- `Reference.onward` is empty unless the scalar that the body names is a reference itself. -/
theorem onward_eq_nil_iff {m : Index} {body : String} :
    onward m body = [] ↔ ∀ text, find? m body = some (.string text) → body? text = none := by
  cases hf : find? m body with
  | none => simp [onward, hf]
  | some v =>
    rw [onward_of_find hf]
    cases v with
    | null | bool | number => simp [Value.references]
    | string s => simp [Value.references]
    | list | map => cases isScalar_of_find hf

theorem onward_eq_nil {m : Index} {body : String}
    (h : ∀ r, m.get? (key body) = some r → r.attributes.Literal) : onward m body = [] := by
  cases hf : find? m body with
  | none => simp [onward, hf]
  | some v =>
    obtain ⟨r, hr, hsub⟩ := references_of_find hf
    rw [onward_of_find hf]
    refine List.eq_nil_iff_forall_not_mem.mpr fun b hb => ?_
    have hmem := hsub b hb
    rw [h r hr] at hmem
    cases hmem

end Reference

namespace Change

variable {σ : Type} {setup : Setup σ} {g : Graph} {known : Index} {c : Change} {es : List Entry}

/-- What a backend is asked to apply was resolved and then pruned; by `resolve_prune` it is as well
what is left after pruning, resolved. -/
theorem resolve_of_intent {prior : Option Resource} {planned : Resource}
    (h : c.intent setup known = .ok (.call (.apply prior planned))) :
    (c.resource.attributes.prune setup.ignored).resolve known = .ok planned.attributes := by
  obtain ⟨a, hr, ha⟩ := attributes_of_intent h
  rw [ha]
  exact Attributes.resolve_prune setup.ignored hr

/-- What a backend is asked to apply is literal exactly if no reference of the node, pruned ones
apart, names another one. -/
theorem literal_iff_of_intent {prior : Option Resource} {planned : Resource}
    (h : c.intent setup known = .ok (.call (.apply prior planned))) :
    planned.attributes.Literal ↔
      ∀ body ∈ (c.resource.attributes.prune setup.ignored).references, ∀ text,
        Reference.find? known body = some (.string text) → Reference.body? text = none := by
  unfold Attributes.Literal
  rw [Attributes.references_of_resolve (resolve_of_intent h), List.flatMap_eq_nil_iff]
  exact forall₂_congr fun body hb => Reference.onward_eq_nil_iff

/-- So a node that refers to literal resources hands over a literal tree. -/
theorem literal_of_intent {prior : Option Resource} {planned : Resource}
    (h : c.intent setup known = .ok (.call (.apply prior planned)))
    (hread : ∀ j ∈ c.resource.attributes.referencedKeys, ∀ r,
      known.get? j = some r → r.attributes.Literal) : planned.attributes.Literal := by
  refine (literal_iff_of_intent h).mpr fun body hb => ?_
  have hkey : Reference.key body ∈ c.resource.attributes.referencedKeys :=
    Attributes.mem_referencedKeys.mpr ⟨body, Attributes.mem_references_of_prune _ hb, rfl⟩
  exact Reference.onward_eq_nil_iff.mp (Reference.onward_eq_nil (hread _ hkey))

end Change

namespace Walk

variable {σ : Type} {setup : Setup σ} {g : Graph} {jobs : Nat} {w : Walk σ}
  {decided : List (String × Except Status Unit)} {run₀ : Run σ} {entries : List Entry}

/-- `Hereditary` for literal trees: if the resources known are literal to begin with, and backends
add no references, then all that is ever known is literal. -/
theorem Inv.literal_known (hg : g.Sound) (h : Inv setup g run₀ w decided entries)
    (hop : setup.operation = .apply) (hgop : g.operation = .apply)
    (hprior : ∀ k r, setup.prior.get? k = some r → r.attributes.Literal)
    (hbackends : ∀ prior planned r, planned.attributes.Literal →
      setup.Answers (.apply prior planned) (.returned (.upsert r)) → r.attributes.Literal)
    (hknown : ∀ k r, run₀.known.get? k = some r → r.attributes.Literal) {k : String} :
    ∀ r, w.run.known.get? k = some r → r.attributes.Literal :=
  h.hereditary_known hg hop hgop
    ⟨hprior, fun _ _ _ _ _ hi hread => Change.literal_of_intent hi hread, hbackends⟩ hknown

/-- **Main result.** Whatever a backend is asked to apply during a walk: no text of it is a
reference if and only if none of the references that its node hands over, after pruning, names
another reference. This is so if no known or recorded resource has a reference to begin with and
backends add none. -/
theorem applied_literal_iff {p : Plan} (hb : Graph.build .apply p = .ok g)
    (hop : setup.operation = .apply) {run : Run σ} {cs : List Choice}
    (hw : (start g run .empty).steps? setup g jobs cs = some w)
    (hh : w.run.history = run.history ++ entries) {e : Entry} (he : e ∈ entries)
    {prior : Option Resource} {planned : Resource}
    (hc : e.call? = some (.apply prior planned)) :
    ∃ c, p.find? e.key = some c ∧
      (planned.attributes.Literal ↔
        ∀ body ∈ (c.resource.attributes.prune setup.ignored).references, ∀ text,
          Reference.find? w.run.known body = some (.string text) → Reference.body? text = none) ∧
      ((∀ k r, setup.prior.get? k = some r → r.attributes.Literal) →
        (∀ k r, run.known.get? k = some r → r.attributes.Literal) →
        (∀ prior planned r, planned.attributes.Literal →
          setup.Answers (.apply prior planned) (.returned (.upsert r)) → r.attributes.Literal) →
        planned.attributes.Literal) := by
  obtain ⟨hg, hgop, rfl⟩ := Graph.build_sound hb
  obtain ⟨decided, entries', h⟩ := Inv.of_steps hg hw
  obtain rfl : entries = entries' :=
    List.append_cancel_left (hh.symm.trans h.lives.run_extends.history)
  obtain ⟨c, hf, hi⟩ := h.intent_of_call hg hgop he hc
  refine ⟨c, hf, Change.literal_iff_of_intent hi, fun hprior hknown hbackends => ?_⟩
  exact Change.literal_of_intent hi fun j hj r hr =>
    h.literal_known hg hop hgop hprior hbackends hknown r hr

/-- Backends return what they are given, and nothing is recorded. -/
def givenSetup : Setup Unit := .replying (fun _ r => .returned r) .apply .empty [⟨["t"]⟩]

theorem applied_literal_iff_pair :
    ∃ w, (start pairGraph (.ofState default) .empty).steps? givenSetup pairGraph 1 pairSteps =
      some w ∧
      .called "b" (.apply none ⟨"b", "Local", [("x", .number (.int 1))], []⟩) ∈ w.run.history ∧
      Attributes.Literal [("x", .number (.int 1))] := by
  have hb : Graph.build .apply pair = .ok pairGraph := rfl
  have hcalled : ((start pairGraph (.ofState default) .empty).steps? givenSetup pairGraph 1
      pairSteps).any fun w => decide (.called "b"
        (.apply none ⟨"b", "Local", [("x", .number (.int 1))], []⟩) ∈ w.run.history) := by
    decide +kernel
  obtain ⟨w, hw, he⟩ := (Option.any_eq_true _ _).mp hcalled
  have he := of_decide_eq_true he
  obtain ⟨c, -, -, hliteral⟩ := applied_literal_iff hb rfl hw (List.nil_append _).symm he rfl
  refine ⟨w, hw, he, hliteral nofun nofun fun prior planned r hp ha => ?_⟩
  cases Change.upsert_of_answers Setup.replying_faithful ha
  exact hp

/-- Resource `a` is recorded, and one of its texts is a reference. -/
def pointer : Resource :=
  ⟨"a", "Local", [("x", .string "$converge_path.a.y"), ("y", .number (.int 1))], []⟩

/-- Resource `b` refers to this text. -/
def relay : Plan := [⟨⟨"b", "Local", [("z", .string "$converge_path.a.x")], []⟩, .create⟩]

/-- The graph of `relay`. -/
def relayGraph : Graph := ⟨.apply, relay, [], ["b"]⟩

/-- A state in which `pointer` is recorded. -/
def relayState : State := { (default : State) with resources := [pointer] }

/-- Backends return what they are given. -/
def relaySetup : Setup Unit := .replying (fun _ r => .returned r) .apply relayState.index []

/-- The one node from its start to its end. -/
def relaySteps : List Choice :=
  [.tell "b", .leave, .take "b", .begin "b", .finish "b", .receive "b", .leave]

/-- Otherwise a backend may see a reference: what a reference names is put in as it stands, and not
resolved again. -/
theorem applied_not_literal :
    ¬ ∀ (p : Plan) (g : Graph) (setup : Setup Unit) (run : Run Unit) (jobs : Nat)
      (cs : List Choice) (w : Walk Unit) (es : List Entry), Graph.build .apply p = .ok g →
      setup.operation = .apply → (start g run .empty).steps? setup g jobs cs = some w →
      w.run.history = run.history ++ es → ∀ key prior planned,
        .called key (.apply prior planned) ∈ es → planned.attributes.Literal := by
  intro h
  have hb : Graph.build .apply relay = .ok relayGraph := rfl
  have hcalled : ((start relayGraph (.ofState relayState) .empty).steps? relaySetup relayGraph 1
      relaySteps).any fun w => decide (.called "b"
        (.apply none ⟨"b", "Local", [("z", .string "$converge_path.a.y")], []⟩) ∈
          w.run.history) := by
    decide +kernel
  obtain ⟨w, hw, he⟩ := (Option.any_eq_true _ _).mp hcalled
  have hliteral := h _ _ _ _ _ _ _ _ hb rfl hw (List.nil_append _).symm _ _ _ (of_decide_eq_true he)
  exact absurd hliteral (by decide)

end Walk

end Provision
