import Mathlib.Data.List.Duplicate
import Provision.Proofs.Graph.Acyclic

/-!
# Which plans have a graph

* `Plan.Depends`: a planned key depends on another one. `Plan.Precedes`: one goes before the other.
  `Plan.mem_edges_iff` shows that the edges of a plan state this.
* `Graph.Verdict`: what every answer of `Graph.build` says about the plan.
* `Graph.build_decides`: a plan is refused for a key that stands twice, else for a missing
  dependency, else for a cycle, and has a graph otherwise. The key named for a cycle lies on one.
-/

namespace Provision

namespace Change

/-- A change depends on what its resource declares, and in an apply that brings the resource about
also on what its attributes refer to. -/
def DependsOn (op : Operation) (c : Change) (d : String) : Prop :=
  d ∈ c.resource.dependsOn ∨
    op = .apply ∧ c.action.isApply = true ∧ d ∈ c.resource.attributes.referencedKeys

theorem mem_dependencies {op : Operation} {c : Change} {d : String} :
    d ∈ c.dependencies op ↔ c.DependsOn op d := by
  unfold dependencies DependsOn
  rw [List.mem_append]
  split
  · next h => simp [h]
  · next h =>
    have hnot : ¬ (op = .apply ∧ c.action.isApply = true ∧
        d ∈ c.resource.attributes.referencedKeys) := fun hd => h ⟨hd.1, hd.2.1⟩
    simp [hnot]

end Change

namespace Plan

variable {op : Operation} {p : Plan} {a b : String}

/-! ## What goes before what -/

/-- The key `a` depends on `b`, and both are planned. -/
def Depends (op : Operation) (p : Plan) (a b : String) : Prop :=
  ∃ c ∈ p, c.key = a ∧ c.DependsOn op b ∧ b ∈ p.keys

/-- The plan deletes the key. -/
def Deletes (p : Plan) (k : String) : Prop := ∃ c ∈ p, c.key = k ∧ c.action = .delete

/-- Between `a` and `b` the dependent goes first. -/
def Reverses (op : Operation) (p : Plan) (a b : String) : Prop :=
  op = .destroy ∨ p.Deletes a ∧ p.Deletes b

/-- The key `a` goes before `b`: it is a dependency of it, or a dependent if these go first. -/
def Precedes (op : Operation) (p : Plan) (a b : String) : Prop :=
  p.Reverses op a b ∧ p.Depends op a b ∨ ¬ p.Reverses op a b ∧ p.Depends op b a

/-- The applied resource at `k` declares a dependency on `d`, which is not planned. -/
def Misses (p : Plan) (k d : String) : Prop :=
  ∃ c ∈ p, c.key = k ∧ c.action.isApply = true ∧ d ∈ c.resource.dependsOn ∧ d ∉ p.keys

/-- An applied resource declares a dependency that is not planned. -/
def Lacks (p : Plan) : Prop := ∃ k d, p.Misses k d

theorem Reverses.symm (h : p.Reverses op a b) : p.Reverses op b a := h.imp_right And.symm

theorem Depends.mem_keys (h : p.Depends op a b) : a ∈ p.keys ∧ b ∈ p.keys := by
  obtain ⟨c, hc, rfl, -, hb⟩ := h
  exact ⟨List.mem_map_of_mem hc, hb⟩

theorem Precedes.mem_keys (h : p.Precedes op a b) : a ∈ p.keys ∧ b ∈ p.keys := by
  rcases h with ⟨-, h⟩ | ⟨-, h⟩
  · exact h.mem_keys
  · exact h.mem_keys.symm

/-- What goes before another key along some way is planned, as both ends of `Depends` are. -/
theorem mem_keys_of_transGen (h : Relation.TransGen (p.Precedes op) a b) : a ∈ p.keys := by
  induction h using Relation.TransGen.head_induction_on with
  | single h => exact h.mem_keys.1
  | head h => exact h.mem_keys.1

theorem deletes_iff (hn : p.keys.Nodup) {c : Change} (hc : c ∈ p) :
    p.Deletes c.key ↔ c.action = .delete := by
  constructor
  · rintro ⟨c', hc', hk, ha⟩
    rwa [← List.inj_on_of_nodup_map hn hc' hc hk]
  · exact fun ha => ⟨c, hc, rfl, ha⟩

theorem reverses_iff (hn : p.keys.Nodup) {c d : Change} (hc : c ∈ p) (hd : d ∈ p) :
    p.Reverses op d.key c.key ↔ op = .destroy ∨ d.action = .delete ∧ c.action = .delete := by
  unfold Reverses
  rw [deletes_iff hn hc, deletes_iff hn hd]

/-- **The edges of a plan.** `Plan.edges`, a list that is computed, states `Precedes`, a relation.
`hn` lets a key stand for its one change; were it planned twice, an edge would only follow the
first. -/
theorem mem_edges_iff (hn : p.keys.Nodup) : (a, b) ∈ p.edges op ↔ p.Precedes op a b := by
  rw [mem_edges]
  constructor
  · rintro ⟨c, hc, d, hd, dependency, hf, ho⟩
    obtain ⟨hdep, rfl⟩ := find?_eq_some hf
    have hdepends : p.Depends op c.key dependency.key :=
      ⟨c, hc, rfl, Change.mem_dependencies.mp hd, List.mem_map_of_mem hdep⟩
    have hrev : p.Reverses op dependency.key c.key ↔ _ := reverses_iff hn hc hdep
    unfold Change.orient at ho
    split at ho
    · next hcond =>
      cases ho
      exact .inl ⟨(hrev.mpr hcond).symm, hdepends⟩
    · next hcond =>
      cases ho
      exact .inr ⟨fun h => hcond (hrev.mp h), hdepends⟩
  · intro h
    -- the dependent and its dependency, whichever of them goes first
    have hchanges : ∀ a b, p.Depends op a b → ∃ c ∈ p, c.key = a ∧ ∃ d ∈ p, d.key = b ∧
        b ∈ c.dependencies op ∧ p.find? b = some d := by
      rintro a b ⟨c, hc, hk, hd, hb⟩
      obtain ⟨d, hf⟩ := mem_keys.mp hb
      obtain ⟨hdp, hdk⟩ := find?_eq_some hf
      exact ⟨c, hc, hk, d, hdp, hdk, Change.mem_dependencies.mpr hd, hf⟩
    rcases h with ⟨hrev, hd⟩ | ⟨hrev, hd⟩
    · obtain ⟨c, hc, rfl, d, hdp, rfl, hmem, hf⟩ := hchanges a b hd
      refine ⟨c, hc, d.key, hmem, d, hf, ?_⟩
      exact if_pos ((reverses_iff hn hc hdp).mp hrev.symm)
    · obtain ⟨c, hc, rfl, d, hdp, rfl, hmem, hf⟩ := hchanges b a hd
      refine ⟨c, hc, d.key, hmem, d, hf, ?_⟩
      exact if_neg fun hcond => hrev ((reverses_iff hn hc hdp).mpr hcond)

theorem edges_eq_precedes (hn : p.keys.Nodup) :
    (fun a b => (a, b) ∈ p.edges op) = p.Precedes op := by
  funext a b
  exact propext (mem_edges_iff hn)

/-- With `.destroy` every dependency is reversed, whatever the actions. -/
theorem precedes_destroy : p.Precedes .destroy = p.Depends .destroy := by
  funext a b
  simp [Precedes, Reverses]

/-- Where nothing is deleted, no dependency is reversed. -/
theorem precedes_of_kept (hop : op ≠ .destroy) (h : ∀ k, ¬ p.Deletes k) :
    p.Precedes op = fun a b => p.Depends op b a := by
  funext a b
  simp [Precedes, Reverses, hop, h]

/-! ## What a plan is refused for -/

/-- The key that `repeated?` names stands twice, or was in `before`. For `build` that list is
empty. -/
theorem duplicate_of_repeated? {before ks : List String} {k : String}
    (h : repeated? before ks = some k) : k ∈ before ∧ k ∈ ks ∨ List.Duplicate k ks := by
  induction ks generalizing before with
  | nil => cases h
  | cons m ks ih =>
    simp only [repeated?] at h
    split at h
    · next hm =>
      cases h
      exact .inl ⟨hm, List.mem_cons_self⟩
    · rcases ih h with ⟨hb, hk⟩ | hd
      · rcases List.mem_cons.mp hb with rfl | hb
        · exact .inr hk.duplicate_cons_self
        · exact .inl ⟨hb, List.mem_cons_of_mem _ hk⟩
      · exact .inr (hd.duplicate_cons m)

/-- The pair that `missing?` names is one that `Misses` describes; `not_lacks_of_missing?` is the
other half. -/
theorem misses_of_missing? {k d : String} (h : p.missing? = some (k, d)) : p.Misses k d := by
  obtain ⟨c, hc, hsome⟩ := List.exists_of_findSome?_eq_some h
  split at hsome
  · next ha =>
    obtain ⟨d', hd', he⟩ := Option.map_eq_some_iff.mp hsome
    cases he
    have hnot : d ∉ p.keys := by simpa using List.find?_some hd'
    exact ⟨c, hc, rfl, ha, List.mem_of_find?_eq_some hd', hnot⟩
  · cases hsome

theorem not_lacks_of_missing? (h : p.missing? = none) : ¬ p.Lacks := by
  rintro ⟨k, d, c, hc, -, ha, hd, hnot⟩
  have hnone := List.findSome?_eq_none_iff.mp h c hc
  rw [if_pos ha, Option.map_eq_none_iff, List.find?_eq_none] at hnone
  exact hnone d hd (by simpa using hnot)

/-- A resource that depends on itself has an edge to itself, so this check, too, finds a cycle of
`Precedes`. -/
theorem edge_of_selfDependent? (hn : p.keys.Nodup) {k : String}
    (h : p.selfDependent? op = some k) : (k, k) ∈ p.edges op := by
  obtain ⟨c, hf, rfl⟩ := Option.map_eq_some_iff.mp h
  have hc := List.mem_of_find?_eq_some hf
  have hself : c.key ∈ c.dependencies op := by simpa using List.find?_some hf
  refine mem_edges.mpr ⟨c, hc, c.key, hself, c, find?_of_mem hn hc, ?_⟩
  unfold Change.orient
  split <;> rfl

end Plan

namespace Graph

variable {op : Operation} {p : Plan} {g : Graph}

/-- The graph of a plan: each key waits for those that go before it, and these stand before it in
the serial order. -/
structure Arranges (g : Graph) (op : Operation) (p : Plan) : Prop where
  operation : g.operation = op
  plan : g.plan = p
  mem_dependencies : ∀ k j, j ∈ g.dependencies k ↔ p.Precedes op j k
  sorted : ∀ k, (g.dependencies k).Pairwise (· < ·)
  order_perm : g.order.Perm p.keys
  sublist_order : ∀ j k, p.Precedes op j k → [j, k].Sublist g.order

/-- `mergeSort` sorts by `≤`, and `Edges.before_nodup` makes that strict. -/
theorem Sound.dependencies_sorted (hg : g.Sound) (k : String) :
    (g.dependencies k).Pairwise (· < ·) := by
  have hle : (g.dependencies k).Pairwise fun a b => decide (a ≤ b) = true := by
    refine List.pairwise_mergeSort (fun a b c hab hbc => ?_) (fun a b => ?_) _
    · exact decide_eq_true (String.le_trans (of_decide_eq_true hab) (of_decide_eq_true hbc))
    · simpa using String.le_total a b
  have hne : (g.dependencies k).Nodup :=
    (List.mergeSort_perm ..).nodup_iff.mpr (Edges.before_nodup hg.edges_nodup k)
  refine (hle.and hne).imp ?_
  rintro a b ⟨hab, hne⟩
  exact Std.lt_of_le_of_ne (of_decide_eq_true hab) hne

/-- An edge leads onward in `order`; stated by `Sublist`, which says more than that both are in
it. -/
theorem Sound.sublist_order (hg : g.Sound) {a b : String} (h : (a, b) ∈ g.edges) :
    [a, b].Sublist g.order := by
  have hb : b ∈ g.order := hg.order_perm.mem_iff.mpr (hg.mem_keys_of_edge h).2
  rcases DepthFirst.sublist_of_firstBackward? hg.forward hb (Edges.mem_before.mpr h) with
    rfl | hnil | hsub
  · exact absurd h (hg.irrefl a)
  · cases hnil
  · exact hsub

theorem arranges_of_build (h : build op p = .ok g) : g.Arranges op p := by
  obtain ⟨hg, rfl, rfl⟩ := build_sound h
  have hedge : ∀ a b, (a, b) ∈ g.edges ↔ g.plan.Precedes g.operation a b := fun a b => by
    rw [hg.edges_eq, Plan.mem_edges_iff hg.keys_nodup]
  refine ⟨rfl, rfl, fun k j => ?_, hg.dependencies_sorted, hg.order_perm, fun j k hjk => ?_⟩
  · rw [mem_dependencies, hedge]
  · exact hg.sublist_order ((hedge j k).mpr hjk)

theorem not_lacks_of_build (h : build op p = .ok g) : ¬ p.Lacks := by
  unfold build at h
  split at h
  · cases h
  · split at h
    · cases h
    · next hmiss => exact Plan.not_lacks_of_missing? hmiss

/-- What an answer says about the plan. -/
inductive Verdict (op : Operation) (p : Plan) : Except GraphError Graph → Prop
  | duplicate {k : String} (hk : List.Duplicate k p.keys) :
    Verdict op p (.error (.duplicateResource k))
  | missing {k d : String} (hn : p.keys.Nodup) (hm : p.Misses k d) :
    Verdict op p (.error (.missingDependency k d))
  | cycle {k : String} (hn : p.keys.Nodup) (hm : ¬ p.Lacks)
    (hk : Relation.TransGen (p.Precedes op) k k) : Verdict op p (.error (.cycle k))
  | graph {g : Graph} (hn : p.keys.Nodup) (hm : ¬ p.Lacks) (hac : Acyclic (p.Precedes op))
    (hg : g.Arranges op p) : Verdict op p (.ok g)

/-- One case for each way out of `build`, in the order of its checks. The results below only read
it. -/
theorem build_verdict (op : Operation) (p : Plan) : Verdict op p (build op p) := by
  cases hb : build op p with
  | ok g =>
    obtain ⟨hg, rfl, rfl⟩ := build_sound hb
    have hac : Acyclic (g.plan.Precedes g.operation) := by
      rw [← Plan.edges_eq_precedes hg.keys_nodup, ← hg.edges_eq]
      exact hg.acyclic
    exact .graph hg.keys_nodup (not_lacks_of_build hb) hac (arranges_of_build hb)
  | error e =>
    -- each check that fails leaves its own error, and has the checks before it passed
    unfold build at hb
    split at hb
    · next k hrep =>
      cases hb
      rcases Plan.duplicate_of_repeated? hrep with ⟨hnil, -⟩ | hd
      · cases hnil
      · exact .duplicate hd
    · next hrep =>
      have hn := (Plan.repeated?_eq_none hrep).1
      split at hb
      · next k d hmiss =>
        cases hb
        exact .missing hn (Plan.misses_of_missing? hmiss)
      · next hmiss =>
        have hm := Plan.not_lacks_of_missing? hmiss
        split at hb
        · next k hself =>
          cases hb
          have hedge := Plan.edge_of_selfDependent? hn hself
          exact .cycle hn hm (.single ((Plan.mem_edges_iff hn).mp hedge))
        · dsimp only at hb
          split at hb
          · next n hback =>
            cases hb
            obtain ⟨k, rfl, hk⟩ := Edges.cycle_of_order (fun _ _ => Plan.edges_subset) hn hback
            rw [Plan.edges_eq_precedes hn] at hk
            exact .cycle hn hm hk
          · cases hb

namespace Verdict

variable {answer : Except GraphError Graph}

theorem duplicate_iff (h : Verdict op p answer) :
    (∃ k, answer = .error (.duplicateResource k)) ↔ ¬ p.keys.Nodup := by
  cases h with
  | duplicate hk => simp [hk.not_nodup]
  | missing hn | cycle hn | graph hn => simp [hn]

theorem missing_iff (h : Verdict op p answer) :
    (∃ k d, answer = .error (.missingDependency k d)) ↔ p.keys.Nodup ∧ p.Lacks := by
  cases h with
  | duplicate hk => simp [hk.not_nodup]
  | missing hn hm =>
    have hm : p.Lacks := ⟨_, _, hm⟩
    simp [hn, hm]
  | cycle hn hm | graph hn hm => simp [hm]

theorem cycle_iff (h : Verdict op p answer) : (∃ k, answer = .error (.cycle k)) ↔
    p.keys.Nodup ∧ ¬ p.Lacks ∧ ¬ Acyclic (p.Precedes op) := by
  cases h with
  | duplicate hk => simp [hk.not_nodup]
  | missing hn hm =>
    have hm : p.Lacks := ⟨_, _, hm⟩
    simp [hm]
  | cycle hn hm hk =>
    have hac : ¬ Acyclic (p.Precedes op) := fun hac => hac _ hk
    simp [hn, hm, hac]
  | graph hn hm hac => simp [hac]

theorem ok_iff (h : Verdict op p answer) : (∃ g, answer = .ok g) ↔
    p.keys.Nodup ∧ ¬ p.Lacks ∧ Acyclic (p.Precedes op) := by
  cases h with
  | duplicate hk => simp [hk.not_nodup]
  | missing hn hm =>
    have hm : p.Lacks := ⟨_, _, hm⟩
    simp [hm]
  | cycle hn hm hk =>
    have hac : ¬ Acyclic (p.Precedes op) := fun hac => hac _ hk
    simp [hac]
  | graph hn hm hac => simp [hn, hm, hac]

/-- The key named for a cycle lies on it, and is one of the plan's: it is never the start of the
search. -/
theorem transGen_of_cycle (h : Verdict op p answer) {k : String}
    (hk : answer = .error (.cycle k)) :
    k ∈ p.keys ∧ Relation.TransGen (p.Precedes op) k k := by
  subst hk
  cases h with
  | cycle hn hm hk => exact ⟨Plan.mem_keys_of_transGen hk, hk⟩

end Verdict

/-- **Which plans have a graph.** A plan is refused for a key that stands twice, else for a missing
dependency of an applied resource, else for a cycle, on which the key named lies. Otherwise it has a
graph, which tells for each key, sorted, what goes before it (`Arranges`). -/
theorem build_decides (op : Operation) (p : Plan) :
    ((∃ k, build op p = .error (.duplicateResource k)) ↔ ¬ p.keys.Nodup) ∧
    ((∃ k d, build op p = .error (.missingDependency k d)) ↔ p.keys.Nodup ∧ p.Lacks) ∧
    ((∃ k, build op p = .error (.cycle k)) ↔
      p.keys.Nodup ∧ ¬ p.Lacks ∧ ¬ Acyclic (p.Precedes op)) ∧
    (∀ k, build op p = .error (.cycle k) →
      k ∈ p.keys ∧ Relation.TransGen (p.Precedes op) k k) ∧
    ((∃ g, build op p = .ok g) ↔ p.keys.Nodup ∧ ¬ p.Lacks ∧ Acyclic (p.Precedes op)) ∧
    ∀ g, build op p = .ok g → g.Arranges op p := by
  have hv := build_verdict op p
  refine ⟨hv.duplicate_iff, hv.missing_iff, hv.cycle_iff, fun k hk => hv.transGen_of_cycle hk,
    hv.ok_iff, fun g hg => arranges_of_build hg⟩

end Graph

end Provision
