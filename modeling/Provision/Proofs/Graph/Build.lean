import Provision.Graph
import Provision.Proofs.Fields
import Provision.Proofs.Graph.Search

/-!
# Graphs that were built

* `Graph.Sound`: what `Graph.build` checks and arranges. The keys differ, every edge stands once
  and joins two different keys of the plan, and no edge leads back.
* `Graph.build_sound`: every graph that is built is sound.
* `Graph.Sound.induct`: what follows for a key from all keys it waits for holds of every key.
* `Graph.mem_before_of_depends`: an applied resource waits for the planned keys it depends on.
-/

namespace Provision

namespace Plan

theorem find?_eq_some {p : Plan} {key : String} {c : Change} (h : p.find? key = some c) :
    c ∈ p ∧ c.key = key := by
  refine ⟨List.mem_of_find?_eq_some h, ?_⟩
  simpa using List.find?_some h

theorem mem_keys {p : Plan} {key : String} : key ∈ p.keys ↔ ∃ c, p.find? key = some c := by
  constructor
  · intro h
    obtain ⟨c, hc, rfl⟩ := List.mem_map.mp h
    exact Option.isSome_iff_exists.mp (List.find?_isSome.mpr ⟨c, hc, by simp⟩)
  · rintro ⟨c, hc⟩
    obtain ⟨hm, rfl⟩ := find?_eq_some hc
    exact List.mem_map_of_mem hm

/-- A change is what `find?` gives at its key, if no key is planned twice; else a later one would be
hidden. -/
theorem find?_of_mem {p : Plan} (hn : p.keys.Nodup) {c : Change} (hc : c ∈ p) :
    p.find? c.key = some c := by
  obtain ⟨c', hc'⟩ := mem_keys.mp (List.mem_map_of_mem (f := Change.key) hc)
  obtain ⟨hm, hk⟩ := find?_eq_some hc'
  rw [hc', List.inj_on_of_nodup_map hn hm hc hk]

/-- `before` is what `repeated?` has passed, so the tail must avoid it as well. -/
theorem repeated?_eq_none {before ks : List String} (h : repeated? before ks = none) :
    ks.Nodup ∧ ∀ k ∈ ks, k ∉ before := by
  induction ks generalizing before with
  | nil => exact ⟨List.nodup_nil, nofun⟩
  | cons k ks ih =>
    simp only [repeated?] at h
    split at h
    · cases h
    · next hk =>
      obtain ⟨hn, hb⟩ := ih h
      refine ⟨List.nodup_cons.mpr ⟨fun hm => hb k hm List.mem_cons_self, hn⟩, fun n hm => ?_⟩
      rcases List.mem_cons.mp hm with rfl | hm
      · exact hk
      · exact fun hb' => hb n hm (List.mem_cons_of_mem _ hb')

end Plan

namespace Edges

@[simp] theorem mem_before {es : Edges} {a b : String} : a ∈ es.before b ↔ (a, b) ∈ es := by
  simp [before]

@[simp] theorem mem_after {es : Edges} {a b : String} : b ∈ es.after a ↔ (a, b) ∈ es := by
  simp [after]

theorem before_nodup {es : Edges} (h : es.Nodup) (b : String) : (es.before b).Nodup := by
  refine List.Nodup.map_on (fun x hx y hy he => ?_) (h.filter _)
  simp only [List.mem_filter, decide_eq_true_eq] at hx hy
  exact Prod.ext he (hx.2.trans hy.2.symm)

theorem after_nodup {es : Edges} (h : es.Nodup) (a : String) : (es.after a).Nodup := by
  refine List.Nodup.map_on (fun x hx y hy he => ?_) (h.filter _)
  simp only [List.mem_filter, decide_eq_true_eq] at hx hy
  exact Prod.ext (hx.2.trans hy.2.symm) he

theorem mem_entries {es : Edges} {keys : List String} {k : String} :
    k ∈ es.entries keys ↔ k ∈ keys ∧ es.before k = [] := by
  simp [entries]

/-! ## The start -/

theorem some_mem_sources {es : Edges} {p k : String} : some p ∈ es.sources k ↔ (p, k) ∈ es := by
  unfold sources
  split
  · next h =>
    have : p ∉ es.before k := by simp [h]
    simpa using this
  · simp

theorem none_mem_sources {es : Edges} {k : String} : none ∈ es.sources k ↔ es.before k = [] := by
  unfold sources
  split
  · next h => simp [h]
  · next h => simp [h]

section

variable {es : Edges} {keys : List String}

/-- Nothing leads to the start, so no cycle goes through it. -/
theorem none_notMem_next (n : Option String) : none ∉ es.next keys n := by
  cases n <;> simp [next]

theorem some_mem_next {j k : String} : some k ∈ es.next keys (some j) ↔ (j, k) ∈ es := by
  simp [next]

/-- A way in `next` that begins at a key goes along the edges, since it can never come to the
start. -/
theorem transGen_of_next {j : String} {n : Option String}
    (h : Relation.TransGen (fun a b => b ∈ es.next keys a) (some j) n) :
    ∃ k, n = some k ∧ Relation.TransGen (fun a b => (a, b) ∈ es) j k := by
  induction h with
  | @single n hn =>
    cases n with
    | none => exact absurd hn (none_notMem_next _)
    | some k => exact ⟨k, rfl, .single (some_mem_next.mp hn)⟩
  | @tail m n _ hn ih =>
    obtain ⟨k, rfl, hk⟩ := ih
    cases n with
    | none => exact absurd hn (none_notMem_next _)
    | some l => exact ⟨l, rfl, hk.tail (some_mem_next.mp hn)⟩

variable (hes : ∀ a b, (a, b) ∈ es → a ∈ keys ∧ b ∈ keys)

include hes

theorem next_subset : ∀ n ∈ none :: keys.map some, ∀ m ∈ es.next keys n,
    m ∈ none :: keys.map some := by
  intro n _ m hm
  refine List.mem_cons_of_mem _ ?_
  cases n with
  | none =>
    obtain ⟨k, hk, rfl⟩ := List.mem_map.mp hm
    exact List.mem_map_of_mem (mem_entries.mp hk).1
  | some j =>
    obtain ⟨k, hk, rfl⟩ := List.mem_map.mp hm
    exact List.mem_map_of_mem (hes j k (mem_after.mp hk)).2

/-- What `previous` lists of a node leads to it by `next`; this is the link that
`DepthFirst.cycle_of_firstBackward?` asks for. -/
theorem next_of_previous {n m : Option String} (hn : n ∈ none :: keys.map some)
    (hm : m ∈ es.previous n) : n ∈ es.next keys m ∧ m ∈ none :: keys.map some := by
  cases n with
  | none => cases hm
  | some k =>
    have hk : k ∈ keys := by simpa using hn
    cases m with
    | none =>
      refine ⟨List.mem_map_of_mem (mem_entries.mpr ⟨hk, none_mem_sources.mp hm⟩), ?_⟩
      exact List.mem_cons_self
    | some j =>
      have he := some_mem_sources.mp hm
      exact ⟨some_mem_next.mpr he, List.mem_cons_of_mem _ (List.mem_map_of_mem (hes j k he).1)⟩

/-- `order` lists the start and the keys, each once, by `DepthFirst.order_perm`. One more than the
keys is deep enough, for the start. -/
theorem order_perm (hn : keys.Nodup) : (es.order keys).Perm (none :: keys.map some) := by
  refine DepthFirst.order_perm (next_subset hes) ?_ (by simp)
  refine List.nodup_cons.mpr ⟨by simp, hn.map fun _ _ he => Option.some.inj he⟩

/-- A node that `order` has too late is a key on a cycle. So the name of the start is never shown in
an error. -/
theorem cycle_of_order (hn : keys.Nodup) {n : Option String}
    (h : DepthFirst.firstBackward? es.previous [] (es.order keys) = some n) :
    ∃ k, n = some k ∧ Relation.TransGen (fun a b => (a, b) ∈ es) k k := by
  have hsize : (none :: keys.map some).length ≤ keys.length + 1 := by simp
  have ha := DepthFirst.order_arranged (next_subset hes) hsize fun _ hk => hk
  have hmem : ∀ n, n ∈ es.order keys ↔ n ∈ none :: keys.map some := fun _ =>
    (order_perm hes hn).mem_iff
  have hcycle := DepthFirst.cycle_of_firstBackward? ha.nodup ha.forward (fun n hn m hm => by
    obtain ⟨hnm, hk⟩ := next_of_previous hes ((hmem n).mp hn) hm
    exact ⟨hnm, .inr ((hmem m).mpr hk)⟩) h
  cases n with
  | none =>
    -- a cycle through the start would have to come back to it
    cases hcycle with
    | single hm | tail _ hm => exact absurd hm (none_notMem_next _)
  | some j =>
    obtain ⟨k, hk, hjk⟩ := transGen_of_next hcycle
    cases hk
    exact ⟨j, rfl, hjk⟩

end

/-- Taking the start out of the list makes no predecessor late, since the start is only ever one
itself. -/
theorem firstBackward?_filterMap {es : Edges} {ns before : List (Option String)}
    (h : DepthFirst.firstBackward? es.previous before ns = none) :
    DepthFirst.firstBackward? es.before (before.filterMap id) (ns.filterMap id) = none := by
  induction ns generalizing before with
  | nil => rfl
  | cons n ns ih =>
    simp only [DepthFirst.firstBackward?] at h
    split at h
    · cases h
    · next hnone =>
      have hrest := ih h
      cases n with
      | none => exact hrest
      | some k =>
        have hall : (es.before k).find? (· ∉ k :: before.filterMap id) = none := by
          refine List.find?_eq_none.mpr fun p hp => ?_
          have := List.find?_eq_none.mp hnone (some p) (some_mem_sources.mpr (mem_before.mp hp))
          simpa using this
        rw [List.filterMap_cons_some (f := id) rfl, DepthFirst.firstBackward?, hall]
        exact hrest

end Edges

namespace Plan

theorem edges_nodup (op : Operation) (p : Plan) : (p.edges op).Nodup := nodup_eraseDups _

/-- Each edge comes from a change and a planned dependency of it. A dependency that is not planned
leaves no trace. -/
theorem mem_edges {op : Operation} {p : Plan} {a b : String} :
    (a, b) ∈ p.edges op ↔ ∃ c ∈ p, ∃ d ∈ c.dependencies op, ∃ dependency,
      p.find? d = some dependency ∧ dependency.orient op c = (a, b) := by
  unfold edges
  simp only [List.mem_eraseDups, List.mem_flatMap, List.mem_filterMap, Option.map_eq_some_iff]

theorem edges_subset {op : Operation} {p : Plan} {a b : String} (h : (a, b) ∈ p.edges op) :
    a ∈ p.keys ∧ b ∈ p.keys := by
  obtain ⟨c, hc, d, -, dependency, hd, ho⟩ := mem_edges.mp h
  have hkd : dependency.key ∈ p.keys := List.mem_map_of_mem (find?_eq_some hd).1
  have hkc : c.key ∈ p.keys := List.mem_map_of_mem hc
  unfold Change.orient at ho
  split at ho
  · obtain ⟨rfl, rfl⟩ := Prod.mk.inj ho
    exact ⟨hkc, hkd⟩
  · obtain ⟨rfl, rfl⟩ := Prod.mk.inj ho
    exact ⟨hkd, hkc⟩

/-- No edge leads from a key to itself unless `selfDependent?` finds one. `Change.orient` does not
matter here: both directions are the same. -/
theorem edges_irrefl {op : Operation} {p : Plan} (h : p.selfDependent? op = none) (k : String) :
    (k, k) ∉ p.edges op := by
  intro hk
  obtain ⟨c, hc, d, hd, dependency, hf, ho⟩ := mem_edges.mp hk
  have hne : c.key ∉ c.dependencies op := by
    have := List.find?_eq_none.mp (Option.map_eq_none_iff.mp h) c hc
    simpa using this
  have he : c.key = d := by
    rw [← (find?_eq_some hf).2]
    unfold Change.orient at ho
    split at ho
    · exact (Prod.mk.inj ho).1.trans (Prod.mk.inj ho).2.symm
    · exact (Prod.mk.inj ho).2.trans (Prod.mk.inj ho).1.symm
  exact hne (he ▸ hd)

end Plan

namespace Graph

/-- What `Graph.build` checks and arranges. -/
structure Sound (g : Graph) : Prop where
  keys_nodup : g.plan.keys.Nodup
  edges_eq : g.edges = g.plan.edges g.operation
  irrefl : ∀ k, (k, k) ∉ g.edges
  /-- Along the order no edge leads back. -/
  forward : DepthFirst.firstBackward? g.edges.before [] g.order = none
  order_perm : g.order.Perm g.plan.keys

/-- Whatever `build` accepts is `Sound`, and is the graph of the plan that it was given. -/
theorem build_sound {op : Operation} {p : Plan} {g : Graph} (h : build op p = .ok g) :
    g.Sound ∧ g.operation = op ∧ g.plan = p := by
  unfold build at h
  split at h
  · cases h
  · next hrep =>
    split at h
    · cases h
    · split at h
      · cases h
      · next hself =>
        dsimp only at h
        split at h
        · cases h
        · next hback =>
          cases h
          have hn := (Plan.repeated?_eq_none hrep).1
          refine ⟨⟨hn, rfl, Plan.edges_irrefl hself, Edges.firstBackward?_filterMap hback, ?_⟩,
            rfl, rfl⟩
          have hperm : ((p.edges op).order p.keys).Perm (none :: p.keys.map some) :=
            Edges.order_perm (fun _ _ => Plan.edges_subset) hn
          simpa using hperm.filterMap id

namespace Sound

variable {g : Graph}

theorem edges_nodup (hg : g.Sound) : g.edges.Nodup := hg.edges_eq ▸ Plan.edges_nodup _ _

theorem mem_keys_of_edge (hg : g.Sound) {a b : String} (h : (a, b) ∈ g.edges) :
    a ∈ g.plan.keys ∧ b ∈ g.plan.keys :=
  Plan.edges_subset (hg.edges_eq ▸ h)

/-- **Induction over a graph.** What follows for a key from all keys that it waits for holds of
every key. It goes along `order`, not along the edges, so no argument about cycles is needed. -/
theorem induct (hg : g.Sound) {P : String → Prop}
    (hstep : ∀ k, (∀ p ∈ g.edges.before k, P p) → P k) {k : String} (hk : k ∈ g.plan.keys) : P k :=
  DepthFirst.forall_of_firstBackward? (fun n hn => hg.irrefl n (Edges.mem_before.mp hn)) hstep
    g.order [] hg.forward nofun k (hg.order_perm.mem_iff.mpr hk)

end Sound

theorem mem_dependencies {g : Graph} {p k : String} : p ∈ g.dependencies k ↔ (p, k) ∈ g.edges := by
  simp [dependencies]

theorem mem_dependents {g : Graph} {p k : String} : k ∈ g.dependents p ↔ (p, k) ∈ g.edges := by
  simp [dependents]

/-- A resource that is not deleted waits for the planned keys that it depends on. For deletions, and
with `.destroy`, the edge leads the other way. -/
theorem mem_before_of_depends {g : Graph} (hg : g.Sound) {c : Change} {d : String}
    (hop : g.operation ≠ .destroy) (hc : c ∈ g.plan) (ha : c.action ≠ .delete)
    (hd : d ∈ c.dependencies g.operation) (hk : d ∈ g.plan.keys) : (d, c.key) ∈ g.edges := by
  obtain ⟨dependency, hf⟩ := Plan.mem_keys.mp hk
  rw [hg.edges_eq, Plan.mem_edges]
  refine ⟨c, hc, d, hd, dependency, hf, ?_⟩
  unfold Change.orient
  rw [if_neg (by simp [hop, ha]), (Plan.find?_eq_some hf).2]

end Graph

end Provision
