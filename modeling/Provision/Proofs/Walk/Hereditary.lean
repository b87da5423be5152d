import Provision.Proofs.Walk.Freshness
import Provision.Proofs.Walk.Recorded

/-!
# Properties that resources hand on

* `Setup.Hereditary`: what is planned has a property if all that its node refers to has it, and
  backends keep it.
* `Walk.Inv.hereditary_known`: if everything known has such a property to begin with, then so has
  all that is ever known.
-/

namespace Provision

/-- What is recorded has the property `Q`; what is planned has it if all that its node refers to has
it; and what a backend makes of such a resource has it too. -/
structure Setup.Hereditary {σ : Type} (setup : Setup σ) (p : Plan) (Q : Resource → Prop) :
    Prop where
  recorded : ∀ k r, setup.prior.get? k = some r → Q r
  planned : ∀ c ∈ p, ∀ known prior planned,
    c.intent setup known = .ok (.call (.apply prior planned)) →
    (∀ j ∈ c.resource.attributes.referencedKeys, ∀ r, known.get? j = some r → Q r) → Q planned
  applied : ∀ prior planned r, Q planned →
    setup.Answers (.apply prior planned) (.returned (.upsert r)) → Q r

variable {σ : Type} {setup : Setup σ} {Q : Resource → Prop} {p : Plan}

namespace Change

variable {known : Index} {c : Change} {es : List Entry} (hQ : setup.Hereditary p Q)
  (hop : setup.operation = .apply) (hc : c ∈ p)
  (hread : c.action.isApply = true → ∀ j ∈ c.resource.attributes.referencedKeys, ∀ r,
    known.get? j = some r → Q r)

include hQ hop hc hread

/-- What a node commits has the property `Q`: it was recorded before, or the backend made it of a
plan that has `Q` as all that it refers to has it (`hread`). -/
theorem Earned.hereditary {m : Mutation} (h : c.Earned setup known es m) {r : Resource}
    (hr : m.resource? = some r) : Q r := by
  have hne : setup.operation ≠ .refresh := by
    rw [hop]
    exact nofun
  cases h with
  | kept hi =>
    cases hr
    cases intends_of_intent hi with
    | keep _ _ hget => exact hQ.recorded _ _ hget
  | answered hi hanswer =>
    cases intends_of_intent hi with
    | read hop' => exact absurd hop' hne
    | apply _ ha =>
      cases m with
      | remove => cases hr
      | upsert applied =>
        cases hr
        exact hQ.applied _ _ _ (hQ.planned c hc _ _ _ hi (hread ha)) hanswer
    | delete =>
      rw [remove_of_answers hanswer] at hr
      cases hr

/-- An execution leaves a resource with the property, or nothing, or what was there before; a failed
one always the latter. -/
theorem Ended.hereditary {state : NodeState} {result : Except Status Unit}
    (h : c.Ended setup known state result es) {before : Option Resource}
    (hbefore : ∀ r, before = some r → Q r) {r : Resource} (hr : Entry.outcome es before = some r) :
    Q r := by
  by_cases hs : state = .succeeded
  · subst hs
    cases h with
    | absent => exact hbefore r hr
    | committed he =>
      rw [Entry.outcome_append] at hr
      exact he.hereditary hQ hop hc hread hr
  · rw [h.outcome_of_failed hs] at hr
    exact hbefore r hr

end Change

namespace Walk

variable {g : Graph} {w : Walk σ} {decided : List (String × Except Status Unit)} {run₀ : Run σ}
  {entries : List Entry}

/-- **Induction along the edges.** All that is ever known has the property, if what was known at
first has it. `hgop` gives the edges for the references by which it is handed on. -/
theorem Inv.hereditary_known (hg : g.Sound) (h : Inv setup g run₀ w decided entries)
    (hop : setup.operation = .apply) (hgop : g.operation = .apply)
    (hQ : setup.Hereditary g.plan Q) (hknown : ∀ k r, run₀.known.get? k = some r → Q r)
    {k : String} : ∀ r, w.run.known.get? k = some r → Q r := by
  -- What is not planned stays as it was; planned nodes read what comes before them in the graph.
  have hother : ∀ j, j ∉ g.plan.keys → ∀ r, w.run.known.get? j = some r → Q r := fun j hj r hr => by
    rw [h.lives.run_extends.get?_known, h.about_of_not_planned hj] at hr
    exact hknown j r hr
  by_cases hk : k ∈ g.plan.keys
  · refine hg.induct (P := fun k => k ∈ g.plan.keys → ∀ r, w.run.known.get? k = some r → Q r)
      (fun k ih hk r hr => ?_) hk hk
    by_cases hs : w.Succeeded k
    · obtain ⟨stage, hstory⟩ := h.story_of_mem hk
      rw [show w.stateOf k = .succeeded from hs] at hstory
      rw [h.lives.run_extends.get?_known] at hr
      cases hstory with
      | @executed c known result state es hf hagree he hp =>
        obtain ⟨hc, rfl⟩ := Plan.find?_eq_some hf
        refine he.hereditary hQ hop hc (fun ha j hj r hr => ?_) (hknown _) hr
        have hedge : j ∈ g.plan.keys → (j, c.key) ∈ g.edges :=
          Graph.mem_edges_of_refers hg hgop hc ha hj
        rw [hagree j hedge] at hr
        by_cases hjk : j ∈ g.plan.keys
        · exact ih j (Edges.mem_before.mpr (hedge hjk)) hjk r hr
        · exact hother j hjk r hr
    · rw [(h.get?_of_not_succeeded hs).2] at hr
      exact hknown k r hr
  · exact hother k hk

end Walk

end Provision
