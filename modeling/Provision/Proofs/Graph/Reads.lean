import Provision.Proofs.Attributes.Resolve
import Provision.Proofs.Graph.Build
import Provision.Proofs.Run.Intent

/-!
# What a node reads

* `Graph.mem_edges_of_refers`: an applied resource waits for the planned ones that it refers to.
* `Graph.Agree`: two indices agree on what a node can read while it is executed.
* `Change.intent_congr`: what a node is about to do depends on nothing else. All that it refers to
  is among the resources that it waits for, or is not planned.
-/

namespace Provision

/-- An applied resource waits for the planned ones that it refers to. This is why a graph for
`.apply` adds references to the dependencies that are written down. -/
theorem Graph.mem_edges_of_refers {g : Graph} (hg : g.Sound) (hop : g.operation = .apply)
    {c : Change} (hc : c ∈ g.plan) (ha : c.action.isApply = true) {j : String}
    (hj : j ∈ c.resource.attributes.referencedKeys) (hk : j ∈ g.plan.keys) :
    (j, c.key) ∈ g.edges := by
  refine Graph.mem_before_of_depends hg (by rw [hop]; exact nofun) hc (fun hd => ?_) ?_ hk
  · rw [hd] at ha
    cases ha
  · unfold Change.dependencies
    rw [if_pos ⟨hop, ha⟩]
    exact List.mem_append_right _ hj

/-- Two indices agree on what the node `k` can read while it is executed: the resources that are not
planned and those that it waits for. -/
def Graph.Agree (g : Graph) (k : String) (m n : Index) : Prop :=
  ∀ j, (j ∈ g.plan.keys → (j, k) ∈ g.edges) → m.get? j = n.get? j

namespace Graph.Agree

variable {g : Graph} {k : String} {l m n : Index}

theorem symm (h : g.Agree k m n) : g.Agree k n m := fun j hj => (h j hj).symm

theorem trans (h : g.Agree k l m) (h' : g.Agree k m n) : g.Agree k l n :=
  fun j hj => (h j hj).trans (h' j hj)

/-- `Attributes.resolve` reads only the keys that the attributes refer to, and those are keys on
which `Graph.Agree` speaks. -/
theorem resolve_eq (hg : g.Sound) (h : g.Agree k m n) {c : Change} (hf : g.find? k = some c)
    (hop : g.operation = .apply) (hc : c.action.isApply = true) :
    c.resource.attributes.resolve m = c.resource.attributes.resolve n := by
  obtain ⟨hmem, rfl⟩ := Plan.find?_eq_some hf
  exact Attributes.resolve_congr fun j hj => h j fun hk =>
    Graph.mem_edges_of_refers hg hop hmem hc hj hk

end Graph.Agree

namespace Change

variable {σ : Type} {setup : Setup σ} {g : Graph} {k : String} {m n : Index} {c : Change}

/-- What a node is about to do depends only on what it waits for and on what is not planned. `hc`
leaves out the operations whose graphs follow no references; there, `applied` resources could read
what they do not wait for. -/
theorem intent_congr (hg : g.Sound) (h : g.Agree k m n) (hf : g.find? k = some c)
    (hc : c.action.isApply = true → g.operation = .apply) :
    c.intent setup m = c.intent setup n := by
  -- only a create and an update resolve anything; the rest do not look at the index
  rcases intent_cases setup c with ⟨-, hi⟩ | ⟨-, ha, hi⟩ | ⟨-, -, hi⟩ | ⟨-, -, hi⟩
  · rw [hi, hi]
  · rw [hi, hi]
    unfold planned
    rw [h.resolve_eq hg hf (hc ha) ha]
  · rw [hi, hi]
  · rw [hi, hi]

end Change

end Provision
