import Mathlib.Data.List.Induction
import Mathlib.Data.List.Nodup
import Provision.Proofs.Graph.Build
import Provision.Summary

/-!
# Tallies

* `Graph.tally`: the summary of the results of nodes, in the order in which they came to be known.
  `Graph.mem_failures_tally`: it lists the nodes that did not succeed.
* `Graph.counters_tally_perm`: its counters depend neither on the order nor on the statuses, but
  only on which nodes succeeded, failed or were skipped.
* `Summary.Accounts`: a summary counts every change of a plan once. `Graph.tally_accounts`: a tally
  of one result for each node does.
-/

namespace Provision

theorem Status.eq_ok_iff_isOk {r : Except Status Unit} : r = .ok () ↔ r.isOk = true := by
  cases r with
  | ok u => exact ⟨fun _ => rfl, fun _ => rfl⟩
  | error s => exact ⟨nofun, nofun⟩

namespace Graph

/-- The action planned for a key. -/
def actionAt (g : Graph) (k : String) : Action := ((g.find? k).map Change.action).getD .unchanged

/-- The summary of the results of nodes, in the order in which they came to be known. -/
def tally (g : Graph) (op : Operation) (results : List (String × Except Status Unit)) : Summary :=
  results.foldl (fun s r => s.count op (g.actionAt r.1) r.1 r.2) .empty

theorem tally_append_singleton (g : Graph) (op : Operation)
    (results : List (String × Except Status Unit)) (r : String × Except Status Unit) :
    g.tally op (results ++ [r]) = (g.tally op results).count op (g.actionAt r.1) r.1 r.2 := by
  unfold tally
  rw [List.foldl_append, List.foldl_cons, List.foldl_nil]

end Graph

namespace Summary

theorem failures_succeed (s : Summary) (op : Operation) (a : Action) :
    (s.succeed op a).failures = s.failures := by
  unfold succeed
  split
  · rfl
  · cases a <;> rfl

theorem failures_fail (s : Summary) (key : String) (status : Status) :
    (s.fail key status).failures = s.failures ++ [(key, status)] := by
  unfold fail
  dsimp only
  split <;> rfl

end Summary

/-- `Summary.failures` of a `tally` lists every node that did not succeed with its status, and no
other one. An equivalence of members only: the order is that of `results`. -/
theorem Graph.mem_failures_tally {g : Graph} {op : Operation}
    {results : List (String × Except Status Unit)} {k : String} {s : Status} :
    (k, s) ∈ (g.tally op results).failures ↔ (k, .error s) ∈ results := by
  induction results using List.reverseRecOn with
  | nil => exact iff_of_false List.not_mem_nil List.not_mem_nil
  | append_singleton results r ih =>
    obtain ⟨n, result⟩ := r
    rw [tally_append_singleton, List.mem_append, ← ih]
    cases result with
    | ok u => simp [Summary.count, Summary.failures_succeed]
    | error s' => simp [Summary.count, Summary.failures_fail]

/-! ## Counters -/

/-- What a result counts as. -/
inductive Verdict where
  | succeeded
  | failed
  | skipped
deriving DecidableEq

/-- What a result counts as. -/
def Verdict.of : Except Status Unit → Verdict
  | .ok _ => .succeeded
  | .error s => if s.kind.isSkip then .skipped else .failed

namespace Summary

/-- The summary without the list of failures. -/
def counters (s : Summary) : Summary := { s with failures := [] }

/-- Counts one more node. -/
def tick (op : Operation) (s : Summary) (v : Action × Verdict) : Summary :=
  match v.2 with
  | .succeeded => s.succeed op v.1
  | .failed => { s with failed := s.failed + 1 }
  | .skipped => { s with skipped := s.skipped + 1 }

theorem counters_count (s : Summary) (op : Operation) (a : Action) (key : String)
    (r : Except Status Unit) :
    (s.count op a key r).counters = s.counters.tick op (a, .of r) := by
  cases r with
  | ok u =>
    show (s.succeed op a).counters = s.counters.succeed op a
    unfold succeed
    split
    · rfl
    · cases a <;> rfl
  | error status =>
    show (s.fail key status).counters = s.counters.tick op (a, .of (.error status))
    unfold fail tick Verdict.of
    dsimp only
    split <;> rfl

/-- **Commutation.** `tick` raises one counter by one, so nodes can be counted in any order. -/
theorem tick_comm (op : Operation) (s : Summary) (v v' : Action × Verdict) :
    (s.tick op v).tick op v' = (s.tick op v').tick op v := by
  -- Operations, actions and verdicts are few: every combination computes.
  obtain ⟨a, v⟩ := v
  obtain ⟨a', v'⟩ := v'
  cases op <;> cases v <;> cases v' <;> cases a <;> cases a' <;> rfl

end Summary

namespace Graph

variable {g : Graph} {op : Operation} {rs rs' : List (String × Except Status Unit)}

theorem counters_tally (g : Graph) (op : Operation) (rs : List (String × Except Status Unit)) :
    (g.tally op rs).counters =
      (rs.map fun r => (g.actionAt r.1, Verdict.of r.2)).foldl (Summary.tick op) .empty := by
  induction rs using List.reverseRecOn with
  | nil => rfl
  | append_singleton rs r ih =>
    rw [tally_append_singleton, Summary.counters_count, ih, List.map_append, List.foldl_append]
    rfl

/-- **Order.** Two tallies count alike if each node has one result in either, and the same `Verdict`
in both. The statuses may differ: which of several failed predecessors blocks a node is left to the
schedule. -/
theorem counters_tally_perm (hn : (rs.map Prod.fst).Nodup) (hn' : (rs'.map Prod.fst).Nodup)
    (h : ∀ k r, (k, r) ∈ rs → ∃ r', (k, r') ∈ rs' ∧ Verdict.of r' = Verdict.of r)
    (h' : ∀ k r', (k, r') ∈ rs' → ∃ r, (k, r) ∈ rs ∧ Verdict.of r = Verdict.of r') :
    (g.tally op rs).counters = (g.tally op rs').counters := by
  have hnodup : ∀ {rs : List (String × Except Status Unit)}, (rs.map Prod.fst).Nodup →
      (rs.map fun r => (r.1, Verdict.of r.2)).Nodup := fun {rs} hn => by
    refine List.Nodup.of_map Prod.fst ?_
    rwa [List.map_map]
  -- Keys with their verdicts are the same on both sides, in another order.
  have hperm : (rs.map fun r => (r.1, Verdict.of r.2)).Perm
      (rs'.map fun r => (r.1, Verdict.of r.2)) := by
    refine (List.perm_ext_iff_of_nodup (hnodup hn) (hnodup hn')).mpr fun ⟨k, v⟩ => ?_
    simp only [List.mem_map, Prod.mk.injEq, Prod.exists]
    constructor
    · rintro ⟨k, r, hr, rfl, rfl⟩
      obtain ⟨r', hr', he⟩ := h k r hr
      exact ⟨k, r', hr', rfl, he⟩
    · rintro ⟨k, r', hr', rfl, rfl⟩
      obtain ⟨r, hr, he⟩ := h' k r' hr'
      exact ⟨k, r, hr, rfl, he⟩
  have hshape : ∀ rs : List (String × Except Status Unit),
      rs.map (fun r => (g.actionAt r.1, Verdict.of r.2)) =
        (rs.map fun r => (r.1, Verdict.of r.2)).map fun v => (g.actionAt v.1, v.2) := fun rs => by
    rw [List.map_map]
    rfl
  rw [counters_tally, counters_tally, hshape rs, hshape rs']
  exact (hperm.map _).foldl_eq' (fun v _ v' _ s => Summary.tick_comm op s v v') _

end Graph

/-! ## What a tally adds up to -/

namespace Summary

/-- How many nodes succeeded with an action, outside a refresh. -/
def counter (s : Summary) : Action → Nat
  | .create => s.created
  | .update => s.updated
  | .delete => s.deleted
  | .unchanged => s.unchanged

/-- The number `f` of a summary counts the nodes that succeed with an action of `q`, and no
other. -/
structure Counter (op : Operation) (f : Summary → Nat) (q : Action → Prop) [DecidablePred q] :
    Prop where
  empty : f .empty = 0
  succeed : ∀ s a, f (s.succeed op a) = f s + if q a then 1 else 0
  fail : ∀ s key status, f (s.fail key status) = f s

theorem Counter.ofAction (op : Operation) (a : Action) :
    Counter op (·.counter a) fun b => op ≠ .refresh ∧ b = a where
  empty := by cases a <;> rfl
  succeed s b := by cases op <;> cases b <;> cases a <;> rfl
  fail s key status := by
    unfold Summary.fail
    dsimp only
    split <;> cases a <;> rfl

theorem Counter.ofRefresh (op : Operation) : Counter op refreshed fun _ => op = .refresh where
  empty := rfl
  succeed s a := by cases op <;> cases a <;> rfl
  fail s key status := by
    unfold Summary.fail
    dsimp only
    split <;> rfl

theorem total_count (s : Summary) (op : Operation) (a : Action) (key : String)
    (r : Except Status Unit) : (s.count op a key r).total = s.total + 1 := by
  cases r with
  | ok u => exact s.total_succeed op a
  | error status => exact s.total_fail key status

/-- `fail` lists a node as it raises `failed` or `skipped`, and `succeed` does neither. -/
theorem listed_count {s : Summary} (h : s.failures.length = s.failed + s.skipped)
    (op : Operation) (a : Action) (key : String) (r : Except Status Unit) :
    (s.count op a key r).failures.length =
      (s.count op a key r).failed + (s.count op a key r).skipped := by
  cases r with
  | ok u =>
    show (s.succeed op a).failures.length = (s.succeed op a).failed + (s.succeed op a).skipped
    cases op <;> cases a <;> exact h
  | error status =>
    show (s.fail key status).failures.length =
      (s.fail key status).failed + (s.fail key status).skipped
    rw [failures_fail, List.length_append, List.length_singleton, h]
    unfold fail
    dsimp only
    split <;> dsimp only <;> omega

/-- A summary counts every change of a plan once, given which of their nodes succeeded. -/
structure Accounts (s : Summary) (op : Operation) (p : Plan) (succeeded : String → Prop)
    [DecidablePred succeeded] : Prop where
  total : s.total = p.length
  /-- No node is listed twice. -/
  nodup : (s.failures.map Prod.fst).Nodup
  listed : ∀ k, k ∈ s.failures.map Prod.fst ↔ k ∈ p.keys ∧ ¬ succeeded k
  length_failures : s.failures.length = s.failed + s.skipped
  counter : ∀ a, s.counter a =
    if op = .refresh then 0 else p.countP fun c => c.action = a ∧ succeeded c.key
  refreshed : s.refreshed = if op = .refresh then p.countP fun c => succeeded c.key else 0

end Summary

namespace Graph

variable {g : Graph} {op : Operation} {rs : List (String × Except Status Unit)}

theorem total_tally (g : Graph) (op : Operation) (rs : List (String × Except Status Unit)) :
    (g.tally op rs).total = rs.length := by
  induction rs using List.reverseRecOn with
  | nil => rfl
  | append_singleton rs r ih =>
    rw [tally_append_singleton, Summary.total_count, ih, List.length_append, List.length_singleton]

theorem length_failures_tally (g : Graph) (op : Operation)
    (rs : List (String × Except Status Unit)) :
    (g.tally op rs).failures.length = (g.tally op rs).failed + (g.tally op rs).skipped := by
  induction rs using List.reverseRecOn with
  | nil => rfl
  | append_singleton rs r ih =>
    rw [tally_append_singleton]
    exact Summary.listed_count ih op _ r.1 r.2

/-- The nodes are listed in the order of their results, each at most as often as it has results. -/
theorem failures_tally_sublist (g : Graph) (op : Operation)
    (rs : List (String × Except Status Unit)) :
    ((g.tally op rs).failures.map Prod.fst).Sublist (rs.map Prod.fst) := by
  induction rs using List.reverseRecOn with
  | nil => exact List.Sublist.refl _
  | append_singleton rs r ih =>
    obtain ⟨k, r⟩ := r
    rw [tally_append_singleton, List.map_append]
    cases r with
    | ok u =>
      show (((g.tally op rs).succeed op _).failures.map Prod.fst).Sublist _
      rw [Summary.failures_succeed]
      exact ih.trans (List.sublist_append_left ..)
    | error status =>
      show (((g.tally op rs).fail k status).failures.map Prod.fst).Sublist _
      rw [Summary.failures_fail, List.map_append]
      exact ih.append (List.Sublist.refl _)

/-- A `Summary.Counter` of a `tally` is the number of results that it counts. -/
theorem counter_tally {f : Summary → Nat} {q : Action → Prop} [DecidablePred q]
    (h : Summary.Counter op f q) (g : Graph) (rs : List (String × Except Status Unit)) :
    f (g.tally op rs) = rs.countP fun r => q (g.actionAt r.1) ∧ r.2.isOk := by
  induction rs using List.reverseRecOn with
  | nil => exact h.empty
  | append_singleton rs r ih =>
    obtain ⟨k, r⟩ := r
    rw [tally_append_singleton, List.countP_append, List.countP_singleton, ← ih]
    cases r with
    | ok u => simp [Summary.count, h.succeed, Except.isOk, Except.toBool]
    | error status => simp [Summary.count, h.fail, Except.isOk, Except.toBool]

section

variable (hn : g.plan.keys.Nodup) (hp : (rs.map Prod.fst).Perm g.plan.keys)
  {succeeded : String → Prop} [DecidablePred succeeded]
  (hs : ∀ k r, (k, r) ∈ rs → (succeeded k ↔ r.isOk = true))

include hn hp hs

/-- **Recount.** Results and changes are counted alike if every node of the plan has one result. The
calc goes from results to their keys, over to the keys of the plan (`hp`) and back to its
changes. -/
theorem countP_results (q : Action → Prop) [DecidablePred q] :
    (rs.countP fun r => q (g.actionAt r.1) ∧ r.2.isOk) =
      g.plan.countP fun c => q c.action ∧ succeeded c.key := by
  have hresult : ∀ r ∈ rs, decide (q (g.actionAt r.1) ∧ r.2.isOk = true) = true ↔
      decide (q (g.actionAt r.1) ∧ succeeded r.1) = true := fun r hr => by
    rw [decide_eq_true_eq, decide_eq_true_eq, hs r.1 r.2 hr]
  -- The keys of the plan are distinct, so `actionAt` finds the action of the change itself.
  have hchange : ∀ c ∈ g.plan, decide (q (g.actionAt c.key) ∧ succeeded c.key) = true ↔
      decide (q c.action ∧ succeeded c.key) = true := fun c hc => by
    have hact : g.actionAt c.key = c.action := by
      unfold actionAt
      rw [show g.find? c.key = some c from Plan.find?_of_mem hn hc]
      rfl
    rw [hact]
  calc (rs.countP fun r => q (g.actionAt r.1) ∧ r.2.isOk)
      = rs.countP fun r => q (g.actionAt r.1) ∧ succeeded r.1 := List.countP_congr hresult
    _ = (rs.map Prod.fst).countP fun k => q (g.actionAt k) ∧ succeeded k := by
      rw [List.countP_map]
      rfl
    _ = g.plan.keys.countP fun k => q (g.actionAt k) ∧ succeeded k := hp.countP_eq _
    _ = g.plan.countP fun c => q (g.actionAt c.key) ∧ succeeded c.key := by
      rw [Plan.keys, List.countP_map]
      rfl
    _ = g.plan.countP fun c => q c.action ∧ succeeded c.key := List.countP_congr hchange

/-- **Main result.** The tally of one result for each node accounts for the plan: every change is
counted once, under its action, as refreshed, failed or skipped. -/
theorem tally_accounts (op : Operation) : (g.tally op rs).Accounts op g.plan succeeded where
  total := by
    rw [total_tally, ← List.length_map (f := Prod.fst), hp.length_eq]
    exact List.length_map ..
  nodup := (hp.nodup_iff.mpr hn).sublist (failures_tally_sublist g op rs)
  listed k := by
    constructor
    · intro hk
      obtain ⟨⟨_, s⟩, hm, rfl⟩ := List.mem_map.mp hk
      have hr := mem_failures_tally.mp hm
      refine ⟨hp.mem_iff.mp (List.mem_map_of_mem (f := Prod.fst) hr), fun hsucc => ?_⟩
      have := (hs _ _ hr).mp hsucc
      cases this
    · rintro ⟨hk, hfail⟩
      obtain ⟨⟨_, r⟩, hr, rfl⟩ := List.mem_map.mp (hp.mem_iff.mpr hk)
      cases r with
      | ok u => exact absurd ((hs _ _ hr).mpr rfl) hfail
      | error s => exact List.mem_map.mpr ⟨(_, s), mem_failures_tally.mpr hr, rfl⟩
  length_failures := length_failures_tally g op rs
  counter a := by
    rw [counter_tally (Summary.Counter.ofAction op a),
      countP_results hn hp hs fun b => op ≠ .refresh ∧ b = a]
    by_cases ho : op = .refresh <;> simp [ho]
  refreshed := by
    rw [counter_tally (Summary.Counter.ofRefresh op),
      countP_results hn hp hs fun _ => op = .refresh]
    by_cases ho : op = .refresh <;> simp [ho]

end

end Graph

end Provision
