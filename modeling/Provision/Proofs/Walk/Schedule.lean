import Provision.Proofs.Graph.Build
import Provision.Proofs.Walk.Step

/-!
# What the scheduler keeps

* `Walk.underway`, `Walk.active`: the nodes on their way through the workers, and all nodes whose
  results the scheduler does not know. All others are decided.
* `Walk.Owes`: a node, or the start of the walk, has still to tell another node of its departure.
* `Walk.Scheduled`: every node of the graph is at exactly one place, and the count of every node is
  the number of departures that it is still owed. `Scheduled.start`, `Scheduled.step`: every walk
  keeps this.
-/

namespace Provision

/-- What a node waits for: its predecessors, or else the start of the walk. -/
def Graph.sources (g : Graph) (k : String) : List (Option String) := g.edges.sources k

namespace Graph

theorem some_mem_sources {g : Graph} {p k : String} : some p ∈ g.sources k ↔ (p, k) ∈ g.edges :=
  Edges.some_mem_sources

theorem none_mem_sources {g : Graph} {k : String} : none ∈ g.sources k ↔ g.edges.before k = [] :=
  Edges.none_mem_sources

theorem Sound.sources_nodup {g : Graph} (hg : g.Sound) (k : String) : (g.sources k).Nodup := by
  unfold sources Edges.sources
  split
  · exact List.nodup_singleton none
  · exact (Edges.before_nodup hg.edges_nodup k).map fun _ _ he => Option.some.inj he

/-- `Walk.awaitedAt` counts the sources of a node: its predecessors, or else the start alone. -/
theorem length_sources (g : Graph) (k : String) : (g.sources k).length = Walk.awaitedAt g k := by
  unfold sources Edges.sources Walk.awaitedAt
  split
  · next h => simp [h]
  · next h =>
    rw [List.length_map]
    have := List.length_pos_iff.mpr h
    omega

end Graph

/-- `d'` is what is left of the departure `d` after nodes were told of it. -/
structure Departure.Leaves (d d' : Departure) : Prop where
  key : d'.key = d.key
  succeeded : d'.succeeded = d.succeeded
  untold : d'.untold.Sublist d.untold

theorem Departure.leaves_told (d : Departure) (key : String) : d.Leaves (d.told key) :=
  ⟨rfl, rfl, List.erase_sublist⟩

namespace Walk

variable {σ : Type}

/-- The nodes on their way through the workers. -/
def underway (w : Walk σ) : List String :=
  w.queue ++ w.busy.map Prod.fst ++ w.results.map Prod.fst

/-- The nodes whose results the scheduler does not know. -/
def active (w : Walk σ) : List String := w.awaited.keys ++ w.underway

theorem mem_underway_of_queue {w : Walk σ} {key : String} (hq : key ∈ w.queue) :
    key ∈ w.underway :=
  List.mem_append_left _ (List.mem_append_left _ hq)

theorem mem_underway_of_busy {w : Walk σ} {key : String} {t : Task} (hb : (key, t) ∈ w.busy) :
    key ∈ w.underway :=
  List.mem_append_left _ (List.mem_append_right _ (List.mem_map_of_mem (f := Prod.fst) hb))

theorem mem_underway_of_result {w : Walk σ} {key : String} {r : Except Status Unit}
    (hr : (key, r) ∈ w.results) : key ∈ w.underway :=
  List.mem_append_right _ (List.mem_map_of_mem (f := Prod.fst) hr)

theorem mem_active_of_underway {w : Walk σ} {key : String} (hu : key ∈ w.underway) :
    key ∈ w.active :=
  List.mem_append_right _ hu

/-! ## What is owed -/

/-- The source `s` has still to tell `k`: it has not departed, or `k` is untold of its departure. -/
def Owes (active : List String) (departures : List Departure) (k : String) (s : Option String) :
    Prop :=
  (∃ p ∈ active, s = some p) ∨ ∃ d ∈ departures, d.key = s ∧ k ∈ d.untold

/-- The node `k` is owed `n` departures. -/
def Counts (g : Graph) (active : List String) (departures : List Departure) (k : String) (n : Nat) :
    Prop :=
  ∃ ss : List (Option String), ss.Nodup ∧ ss.length = n ∧
    ∀ s, s ∈ ss ↔ s ∈ g.sources k ∧ Owes active departures k s

section

variable {g : Graph} {active active' : List String} {departures departures' : List Departure}
  {k key : String} {n : Nat}

theorem Counts.congr (h : Counts g active departures k n)
    (he : ∀ s ∈ g.sources k, Owes active' departures' k s ↔ Owes active departures k s) :
    Counts g active' departures' k n := by
  obtain ⟨ss, hn, hl, hm⟩ := h
  refine ⟨ss, hn, hl, fun s => ?_⟩
  rw [hm s]
  exact and_congr_right fun hs => (he s hs).symm

theorem Counts.pos (h : Counts g active departures k n) (hn : 0 < n) :
    ∃ s ∈ g.sources k, Owes active departures k s := by
  obtain ⟨ss, -, rfl, hm⟩ := h
  obtain ⟨s, hs⟩ := List.exists_mem_of_length_pos hn
  exact ⟨s, (hm s).mp hs⟩

theorem Counts.zero (h : Counts g active departures k 0) {s : Option String}
    (hs : s ∈ g.sources k) : ¬ Owes active departures k s := by
  obtain ⟨ss, -, hl, hm⟩ := h
  intro ho
  have := (hm s).mpr ⟨hs, ho⟩
  rw [List.length_eq_zero_iff.mp hl] at this
  cases this

theorem owes_congr (ha : ∀ p, p ∈ active' ↔ p ∈ active) (s : Option String) :
    Owes active' departures k s ↔ Owes active departures k s := by
  unfold Owes
  simp only [ha]

/-- `Choice.leave` drops a departure that all were told of, which owes nothing. -/
theorem owes_leave {d : Departure} {rest : List Departure} (hu : d.untold = [])
    (s : Option String) : Owes active (d :: rest) k s ↔ Owes active rest k s := by
  refine or_congr_right ⟨?_, ?_⟩
  · rintro ⟨d', hd', hk⟩
    rcases List.mem_cons.mp hd' with rfl | hd'
    · rw [hu] at hk
      cases hk.2
    · exact ⟨d', hd', hk⟩
  · rintro ⟨d', hd', hk⟩
    exact ⟨d', List.mem_cons_of_mem _ hd', hk⟩

/-- To tell `key` settles just what `d` owes to `key`. No other departure may have the key of `d`,
nor may that node be active, or it would still owe it. -/
theorem owes_told {d : Departure} {rest : List Departure}
    (hd : (d.key :: rest.map Departure.key).Nodup) (hu : d.untold.Nodup)
    (ha : ∀ p, d.key = some p → p ∉ active) (s : Option String) :
    Owes active (d.told key :: rest) k s ↔
      Owes active (d :: rest) k s ∧ ¬ (k = key ∧ s = d.key) := by
  have hrest : ∀ d' ∈ rest, d'.key ≠ d.key := fun d' hd' he =>
    (List.nodup_cons.mp hd).1 (he ▸ List.mem_map_of_mem hd')
  have hmem : k ∈ (d.told key).untold ↔ k ≠ key ∧ k ∈ d.untold := List.Nodup.mem_erase_iff hu
  constructor
  · rintro (⟨p, hp, rfl⟩ | ⟨d', hd', rfl, hk⟩)
    · exact ⟨.inl ⟨p, hp, rfl⟩, fun h => ha p h.2.symm hp⟩
    · rcases List.mem_cons.mp hd' with rfl | hd'
      · obtain ⟨hne, hk⟩ := hmem.mp hk
        exact ⟨.inr ⟨d, List.mem_cons_self, rfl, hk⟩, fun h => hne h.1⟩
      · exact ⟨.inr ⟨d', List.mem_cons_of_mem _ hd', rfl, hk⟩, fun h => hrest d' hd' h.2⟩
  · rintro ⟨⟨p, hp, rfl⟩ | ⟨d', hd', rfl, hk⟩, hne⟩
    · exact .inl ⟨p, hp, rfl⟩
    · rcases List.mem_cons.mp hd' with rfl | hd'
      · exact .inr ⟨_, List.mem_cons_self, rfl, hmem.mpr ⟨fun h => hne ⟨h, rfl⟩, hk⟩⟩
      · exact .inr ⟨d', List.mem_cons_of_mem _ hd', rfl, hk⟩

/-- **Step.** The node that is told counts one less and every other node as much as before. `hs`:
the departure is one of the sources that the node counts. -/
theorem Counts.told {d : Departure} {rest : List Departure} (h : Counts g active (d :: rest) k n)
    (hd : (d.key :: rest.map Departure.key).Nodup) (hu : d.untold.Nodup)
    (ha : ∀ p, d.key = some p → p ∉ active) (hk : key ∈ d.untold) (hs : d.key ∈ g.sources key) :
    Counts g active (d.told key :: rest) k (if k = key then n - 1 else n) := by
  split
  · next he =>
    subst he
    -- Of the sources that `key` is owed, the one that departed is struck off.
    obtain ⟨ss, hn, hl, hm⟩ := h
    have hmem : d.key ∈ ss := (hm d.key).mpr ⟨hs, .inr ⟨d, List.mem_cons_self, rfl, hk⟩⟩
    refine ⟨ss.erase d.key, hn.erase _, by rw [List.length_erase_of_mem hmem, hl], fun s => ?_⟩
    rw [List.Nodup.mem_erase_iff hn, hm s, owes_told hd hu ha]
    constructor
    · rintro ⟨hne, hs, ho⟩
      exact ⟨hs, ho, fun h => hne h.2⟩
    · rintro ⟨hs, ho, hne⟩
      exact ⟨fun h => hne ⟨rfl, h⟩, hs, ho⟩
  · next hne =>
    refine h.congr fun s _ => ?_
    rw [owes_told hd hu ha]
    exact and_iff_left fun h => hne h.1

/-- A node that departs owed its dependents the departure while it was active, and owes it as a
`Departure` now: what is owed to `k` does not change. -/
theorem owes_depart {b : Bool} (hkey : key ∈ active)
    (ha : ∀ p, p ∈ active' ↔ p ∈ active ∧ p ≠ key)
    (hd : ∀ d, d ∈ departures' ↔ d = ⟨some key, b, g.dependents key⟩ ∨ d ∈ departures)
    (hn : ∀ d ∈ departures, d.key ≠ some key) (s : Option String) (hs : s ∈ g.sources k) :
    Owes active' departures' k s ↔ Owes active departures k s := by
  constructor
  · rintro (⟨p, hp, rfl⟩ | ⟨d, hd', rfl, hk⟩)
    · exact .inl ⟨p, ((ha p).mp hp).1, rfl⟩
    · rcases (hd d).mp hd' with rfl | hd'
      · exact .inl ⟨key, hkey, rfl⟩
      · exact .inr ⟨d, hd', rfl, hk⟩
  · rintro (⟨p, hp, rfl⟩ | ⟨d, hd', rfl, hk⟩)
    · by_cases he : p = key
      · -- What `key` owed by being active it owes by the new departure.
        subst he
        refine .inr ⟨_, (hd _).mpr (.inl rfl), rfl, ?_⟩
        exact Graph.mem_dependents.mpr (Graph.some_mem_sources.mp hs)
      · exact .inl ⟨p, (ha p).mpr ⟨hp, he⟩, rfl⟩
    · exact .inr ⟨d, (hd d).mpr (.inr hd'), rfl, hk⟩

end

/-! ## Places -/

theorem count_active (w : Walk σ) (k : String) :
    w.active.count k = w.awaited.keys.count k + w.queue.count k + (w.busy.map Prod.fst).count k +
      (w.results.map Prod.fst).count k := by
  simp only [active, underway, List.count_append, Nat.add_assoc]

variable {setup : Setup σ} {g : Graph} {jobs : Nat} {w w' : Walk σ} {ch : Choice}
  {decided ds : List (String × Except Status Unit)}

/-- A node that is awaited stands among the keys that are left and at the front. -/
private theorem count_awaited {key : String} {n : Nat} (h : w.awaited.get? key = some n)
    (k : String) :
    w.awaited.keys.count k = ([key].count k) + (w.awaited.erase key).keys.count k := by
  rw [(Keyed.keys_perm_erase (Keyed.mem_keys.mpr ⟨n, h⟩)).count_eq k, ← List.singleton_append,
    List.count_append]

private theorem count_queue {key : String} (h : key ∈ w.queue) (k : String) :
    w.queue.count k = ([key].count k) + (w.queue.erase key).count k := by
  rw [(List.perm_cons_erase h).count_eq k, ← List.singleton_append, List.count_append]

private theorem count_busy {b : String × Task} (h : b ∈ w.busy) (k : String) :
    (w.busy.map Prod.fst).count k =
      ([b.1].count k) + ((w.busy.erase b).map Prod.fst).count k := by
  rw [((List.perm_cons_erase h).map Prod.fst).count_eq k, List.map_cons, ← List.singleton_append,
    List.count_append]

private theorem count_results {key : String} {r : Except Status Unit}
    (h : w.results.lookup key = some r) (k : String) :
    (w.results.map Prod.fst).count k =
      ([key].count k) + ((w.results.eraseP (·.1 == key)).map Prod.fst).count k := by
  rw [((results_perm h).map Prod.fst).count_eq k, List.map_cons, ← List.singleton_append,
    List.count_append]

/-- **Conservation.** No step loses or doubles a node: those it takes out of `active` are the ones
whose results it tells the scheduler. -/
theorem Step.active_perm (h : Step setup g jobs w ch w' ds) :
    (w'.active ++ ds.map Prod.fst).Perm w.active := by
  -- How often `k` occurs: each case takes `key` from one list and adds it to another.
  refine List.perm_iff_count.mpr fun k => ?_
  rw [List.count_append, count_active, count_active]
  cases h with
  | idle | leave | cancel => simp
  | countDown hd hk ha hn =>
    rw [Keyed.keys_insert (Keyed.mem_keys.mpr ⟨_, ha⟩)]
    simp
  | enqueue hd hk ha =>
    rw [count_awaited ha k, List.count_append, List.map_nil, List.count_nil]
    dsimp only
    omega
  | skip hd hk ha =>
    rw [count_awaited ha k, List.map_singleton]
    dsimp only
    omega
  | takeCancelled hq | takeAgain hq | takeUp hq =>
    rw [count_queue hq k, List.map_append, List.count_append, List.map_singleton, List.map_nil,
      List.count_nil]
    dsimp only
    omega
  | beginOver hb | finishOver hb | finishBroken hb =>
    rw [count_busy hb k, List.map_append, List.count_append, List.map_singleton, List.map_nil,
      List.count_nil]
    dsimp only
    omega
  | beginCall hb =>
    rw [count_busy hb k, List.map_append, List.count_append, List.map_singleton, List.map_nil,
      List.count_nil]
    dsimp only
    omega
  | receive hd hr =>
    rw [count_results hr k, List.map_singleton]
    dsimp only
    omega

/-! ## The invariant -/

/-- What every walk keeps of places and counts, where `decided` are the results that the scheduler
knows. -/
structure Scheduled (g : Graph) (w : Walk σ) (decided : List (String × Except Status Unit)) :
    Prop where
  placed : (w.active ++ decided.map Prod.fst).Perm g.plan.keys
  distinct : (w.departures.map Departure.key).Nodup
  departed : ∀ d ∈ w.departures, ∀ p, d.key = some p → p ∈ decided.map Prod.fst
  untold : ∀ d ∈ w.departures, d.untold.Nodup ∧ ∀ k ∈ d.untold, d.key ∈ g.sources k
  counted : ∀ k, Counts g w.active w.departures k ((w.awaited.get? k).getD 0)
  positive : ∀ k n, w.awaited.get? k = some n → 0 < n

namespace Scheduled

theorem nodup (hg : g.Sound) (h : Scheduled g w decided) :
    (w.active ++ decided.map Prod.fst).Nodup := h.placed.nodup_iff.mpr hg.keys_nodup

theorem not_active (hg : g.Sound) (h : Scheduled g w decided) {k : String}
    (hk : k ∈ decided.map Prod.fst) : k ∉ w.active := fun ha =>
  (List.nodup_append.mp (h.nodup hg)).2.2 k ha k hk rfl

/-- `decided` has one result for each node, as `placed` has each node once. -/
theorem result_unique (hg : g.Sound) (h : Scheduled g w decided) {k : String}
    {r r' : Except Status Unit} (hr : (k, r) ∈ decided) (hr' : (k, r') ∈ decided) : r = r' := by
  have hn := (List.nodup_append.mp (h.nodup hg)).2.1
  exact (Prod.mk.inj (List.inj_on_of_nodup_map hn hr hr' rfl)).2

theorem mem_keys (h : Scheduled g w decided) {k : String} (hk : k ∈ w.active) :
    k ∈ g.plan.keys := h.placed.mem_iff.mp (List.mem_append_left _ hk)

/-- A node that a departure has still to tell is awaited with a positive count, so `Step.idle` never
happens from a scheduled walk. -/
theorem awaited_of_untold (h : Scheduled g w decided) {d : Departure} {k : String}
    (hd : d ∈ w.departures) (hk : k ∈ d.untold) :
    ∃ n, w.awaited.get? k = some n ∧ 0 < n := by
  cases ha : w.awaited.get? k with
  | some n => exact ⟨n, rfl, h.positive k n ha⟩
  | none =>
    have hc := h.counted k
    rw [ha] at hc
    exact absurd (.inr ⟨d, hd, rfl, hk⟩) (hc.zero ((h.untold d hd).2 k hk))

/-- A node is no longer awaited exactly when nothing is owed to it by any of its `sources`. -/
theorem not_awaited_iff (h : Scheduled g w decided) {k : String} :
    w.awaited.get? k = none ↔ ∀ s ∈ g.sources k, ¬ Owes w.active w.departures k s := by
  constructor
  · intro ha s hs
    have hc := h.counted k
    rw [ha] at hc
    exact hc.zero hs
  · intro ho
    cases ha : w.awaited.get? k with
    | none => rfl
    | some n =>
      have hc := h.counted k
      rw [ha] at hc
      obtain ⟨s, hs, hos⟩ := hc.pos (h.positive k n ha)
      exact absurd hos (ho s hs)

/-! ## Start and steps -/

theorem get?_start (hg : g.Sound) (run : Run σ) (states : Keyed NodeState) (k : String) :
    (start g run states).awaited.get? k =
      if k ∈ g.plan.keys then some (awaitedAt g k) else none := by
  have hn : ((g.plan.keys.map fun k => (k, awaitedAt g k)).map Prod.fst).Nodup := by
    rw [List.map_map]
    exact (List.map_id g.plan.keys).symm ▸ hg.keys_nodup
  exact (Keyed.get?_ofList hn k).trans (Fields.get?_map ..)

theorem active_start (hg : g.Sound) (run : Run σ) (states : Keyed NodeState) :
    (start g run states).active.Perm g.plan.keys := by
  have he : (start g run states).active = (start g run states).awaited.keys := by
    simp [active, underway, start]
  rw [he]
  refine (List.perm_ext_iff_of_nodup (Keyed.keys_nodup _) hg.keys_nodup).mpr fun k => ?_
  rw [Keyed.mem_keys, get?_start hg]
  by_cases hk : k ∈ g.plan.keys <;> simp [hk]

theorem start (hg : g.Sound) (run : Run σ) (states : Keyed NodeState) :
    Scheduled g (start g run states) [] where
  placed := by
    rw [List.map_nil, List.append_nil]
    exact active_start hg run states
  distinct := List.nodup_singleton _
  departed d hd p hp := by
    rw [List.mem_singleton.mp hd] at hp
    cases hp
  untold d hd := by
    rw [List.mem_singleton.mp hd]
    refine ⟨hg.keys_nodup.filter _, fun k hk => ?_⟩
    exact Graph.none_mem_sources.mpr (Edges.mem_entries.mp hk).2
  -- At the start a node is owed all its sources: its predecessors are active, and the start itself
  -- is the one departure.
  counted k := by
    rw [get?_start hg]
    have hmem := fun p => (active_start hg run states).mem_iff (a := p)
    split
    · next hk =>
      refine ⟨g.sources k, hg.sources_nodup k, g.length_sources k, fun s => ?_⟩
      refine (and_iff_left_of_imp fun hs => ?_).symm
      cases s with
      | some p =>
        have hp := (hg.mem_keys_of_edge (Graph.some_mem_sources.mp hs)).1
        exact .inl ⟨p, (hmem p).mpr hp, rfl⟩
      | none =>
        refine .inr ⟨_, List.mem_singleton_self _, rfl, ?_⟩
        exact Edges.mem_entries.mpr ⟨hk, Graph.none_mem_sources.mp hs⟩
    · next hk =>
      refine ⟨[], List.nodup_nil, rfl, fun s => ?_⟩
      refine iff_of_false nofun fun ⟨hs, ho⟩ => hk ?_
      rcases ho with ⟨p, -, rfl⟩ | ⟨d, hd, -, hkd⟩
      · exact (hg.mem_keys_of_edge (Graph.some_mem_sources.mp hs)).2
      · rw [List.mem_singleton.mp hd] at hkd
        exact (Edges.mem_entries.mp hkd).1
  positive k n hn := by
    rw [get?_start hg] at hn
    split at hn
    · cases hn
      unfold awaitedAt
      omega
    · cases hn

/-- A step of the workers: `departures` and `awaited` stay, and `active` at most changes its
order. -/
theorem move (h : Scheduled g w decided) (hp : w'.active.Perm w.active)
    (hd : w'.departures = w.departures) (ha : w'.awaited = w.awaited) :
    Scheduled g w' decided where
  placed := (hp.append_right _).trans h.placed
  distinct := hd ▸ h.distinct
  departed := hd ▸ h.departed
  untold := hd ▸ h.untold
  counted k := by
    rw [ha, hd]
    exact (h.counted k).congr fun s _ => owes_congr (fun p => hp.mem_iff) s
  positive := ha ▸ h.positive

section

variable {d : Departure} {rest : List Departure} {key : String}

/-- `Counts.told` for a scheduled walk, where the invariant gives what it asks for. -/
theorem counted_told (hg : g.Sound) (h : Scheduled g w decided) (hd : w.departures = d :: rest)
    (hk : key ∈ d.untold) (k : String) :
    Counts g w.active (d.told key :: rest) k
      (if k = key then (w.awaited.get? k).getD 0 - 1 else (w.awaited.get? k).getD 0) := by
  have hmem : d ∈ w.departures := hd ▸ List.mem_cons_self
  have hdistinct := h.distinct
  have hc := h.counted k
  rw [hd] at hc hdistinct
  refine hc.told hdistinct (h.untold d hmem).1 (fun p hp => ?_) hk ((h.untold d hmem).2 key hk)
  exact h.not_active hg (h.departed d hmem p hp)

theorem departures_told (hd : w.departures = d :: rest) :
    ∀ d' ∈ d.told key :: rest, ∃ d ∈ w.departures, d.Leaves d' := by
  intro d' hd'
  rcases List.mem_cons.mp hd' with rfl | hd'
  · exact ⟨d, hd ▸ List.mem_cons_self, d.leaves_told key⟩
  · exact ⟨d', hd ▸ List.mem_cons_of_mem _ hd', rfl, rfl, List.Sublist.refl _⟩

/-- After the last departure that a node waits for, nothing is left of its count; the others keep
theirs. -/
theorem awaited_erase (h : Scheduled g w decided) {n : Nat} (ha : w.awaited.get? key = some n)
    (hn : n ≤ 1) :
    (∀ k, ((w.awaited.erase key).get? k).getD 0 =
      if k = key then (w.awaited.get? k).getD 0 - 1 else (w.awaited.get? k).getD 0) ∧
    ∀ k m, (w.awaited.erase key).get? k = some m → 0 < m := by
  refine ⟨fun k => ?_, fun k m hm => ?_⟩
  · rw [Keyed.get?_erase]
    by_cases hke : k = key
    · subst hke
      rw [ha, if_pos rfl, if_pos rfl, Option.getD_none, Option.getD_some]
      omega
    · simp [hke, Ne.symm hke]
  · rw [Keyed.get?_erase] at hm
    split at hm
    · cases hm
    · exact h.positive k m hm

/-- Before that its count goes down by one. -/
theorem awaited_insert (h : Scheduled g w decided) {n : Nat} (ha : w.awaited.get? key = some n)
    (hn : 1 < n) :
    (∀ k, ((w.awaited.insert key (n - 1)).get? k).getD 0 =
      if k = key then (w.awaited.get? k).getD 0 - 1 else (w.awaited.get? k).getD 0) ∧
    ∀ k m, (w.awaited.insert key (n - 1)).get? k = some m → 0 < m := by
  refine ⟨fun k => ?_, fun k m hm => ?_⟩
  · rw [Keyed.get?_insert]
    by_cases hke : k = key
    · subst hke
      simp [ha]
    · simp [hke, Ne.symm hke]
  · rw [Keyed.get?_insert] at hm
    split at hm
    · cases hm
      omega
    · exact h.positive k m hm

/-- A node is told and stays active: it counts down or is queued. -/
theorem tell (hg : g.Sound) (h : Scheduled g w decided) (hd : w.departures = d :: rest)
    (hk : key ∈ d.untold) (hp : w'.active.Perm w.active)
    (hd' : w'.departures = d.told key :: rest)
    (ha : ∀ k, (w'.awaited.get? k).getD 0 =
      if k = key then (w.awaited.get? k).getD 0 - 1 else (w.awaited.get? k).getD 0)
    (hpos : ∀ k n, w'.awaited.get? k = some n → 0 < n) : Scheduled g w' decided where
  placed := (hp.append_right _).trans h.placed
  distinct := by
    have hn := h.distinct
    rw [hd] at hn
    rw [hd']
    exact hn
  departed d₁ hd₁ p hp := by
    obtain ⟨d₂, hd₂, hl⟩ := departures_told hd d₁ (hd' ▸ hd₁)
    exact h.departed d₂ hd₂ p (hl.key ▸ hp)
  untold d₁ hd₁ := by
    obtain ⟨d₂, hd₂, hl⟩ := departures_told hd d₁ (hd' ▸ hd₁)
    obtain ⟨hn₂, hs₂⟩ := h.untold d₂ hd₂
    exact ⟨hn₂.sublist hl.untold, fun k hk => hl.key ▸ hs₂ k (hl.untold.subset hk)⟩
  counted k := by
    rw [ha k, hd']
    exact (h.counted_told hg hd hk k).congr fun s _ => owes_congr (fun p => hp.mem_iff) s
  positive := hpos

/-- A node whose result the scheduler learns leaves `active`; `Scheduled.nodup` makes sure that it
is not there twice. -/
theorem mem_active_depart (hg : g.Sound) (h : Scheduled g w decided)
    (hp : (w'.active ++ [key]).Perm w.active) (p : String) :
    p ∈ w'.active ↔ p ∈ w.active ∧ p ≠ key := by
  have hn := (List.nodup_append.mp (h.nodup hg)).1
  rw [← hp.nodup_iff] at hn
  have hdisjoint := (List.nodup_append.mp hn).2.2
  rw [← hp.mem_iff]
  constructor
  · exact fun hm => ⟨List.mem_append_left _ hm, hdisjoint p hm key (List.mem_singleton_self _)⟩
  · rintro ⟨hm, hne⟩
    exact (List.mem_append.mp hm).resolve_right fun hm => hne (List.mem_singleton.mp hm)

/-- The nodes that have departed are decided, so an active node is none of them. -/
theorem ne_of_leaves (hg : g.Sound) (h : Scheduled g w decided) (hkey : key ∈ w.active)
    {d d₁ : Departure} (hd : d ∈ w.departures) (hl : d.Leaves d₁) : d₁.key ≠ some key := fun he =>
  h.not_active hg (h.departed d hd key (hl.key.symm.trans he)) hkey

section

variable {b : Bool} {ds : List Departure} (hp : (w'.active ++ [key]).Perm w.active)
  (hds : ∀ d ∈ ds, ∃ d₁ ∈ w.departures, d₁.Leaves d)
  (hd : w'.departures.Perm (⟨some key, b, g.dependents key⟩ :: ds))

include hp hds hd

/-- `owes_depart` for a scheduled walk: as the scheduler learns a result, what is owed stays. -/
theorem owes_departed (hg : g.Sound) (h : Scheduled g w decided) {k : String} {s : Option String}
    (hs : s ∈ g.sources k) :
    Owes w'.active w'.departures k s ↔ Owes w.active ds k s := by
  have hkey : key ∈ w.active := hp.mem_iff.mp (by simp)
  have hmem : ∀ d, d ∈ w'.departures ↔ d = ⟨some key, b, g.dependents key⟩ ∨ d ∈ ds := fun d => by
    rw [hd.mem_iff, List.mem_cons]
  refine owes_depart hkey (h.mem_active_depart hg hp) hmem (fun d hd => ?_) s hs
  obtain ⟨d₁, hd₁, hl⟩ := hds d hd
  exact h.ne_of_leaves hg hkey hd₁ hl

/-- The scheduler learns a result, of a skipped node or of one that a worker ended. `ds` are the
other departures. -/
theorem depart (hg : g.Sound) (h : Scheduled g w decided) (r : Except Status Unit)
    (hn : (ds.map Departure.key).Nodup)
    (hc : ∀ k, Counts g w.active ds k ((w'.awaited.get? k).getD 0))
    (hpos : ∀ k n, w'.awaited.get? k = some n → 0 < n) :
    Scheduled g w' (decided ++ [(key, r)]) where
  placed := by
    refine List.Perm.trans ?_ h.placed
    rw [List.map_append, List.map_singleton]
    refine List.Perm.trans ?_ (hp.append_right (decided.map Prod.fst))
    rw [List.append_assoc]
    exact List.perm_append_comm.append_left _
  distinct := by
    refine (hd.map _).nodup_iff.mpr (List.nodup_cons.mpr ⟨fun hm => ?_, hn⟩)
    obtain ⟨d, hd, he⟩ := List.mem_map.mp hm
    obtain ⟨d₁, hd₁, hl⟩ := hds d hd
    exact h.ne_of_leaves hg (hp.mem_iff.mp (by simp)) hd₁ hl he
  departed d hd' p hkey := by
    rw [List.map_append, List.mem_append]
    rcases List.mem_cons.mp (hd.mem_iff.mp hd') with rfl | hd'
    · cases hkey
      exact .inr (List.mem_singleton_self _)
    · obtain ⟨d₁, hd₁, hl⟩ := hds d hd'
      exact .inl (h.departed d₁ hd₁ p (hl.key ▸ hkey))
  untold d hd' := by
    rcases List.mem_cons.mp (hd.mem_iff.mp hd') with rfl | hd'
    · refine ⟨Edges.after_nodup hg.edges_nodup key, fun k hk => ?_⟩
      exact Graph.some_mem_sources.mpr (Graph.mem_dependents.mp hk)
    · obtain ⟨d₁, hd₁, hl⟩ := hds d hd'
      obtain ⟨hn₁, hs₁⟩ := h.untold d₁ hd₁
      exact ⟨hn₁.sublist hl.untold, fun k hk => hl.key ▸ hs₁ k (hl.untold.subset hk)⟩
  counted k := (hc k).congr fun s hs => h.owes_departed hp hds hd hg hs
  positive := hpos

end

/-- **Step.** Every step keeps places and counts. -/
theorem step (hg : g.Sound) (h : Scheduled g w decided) (hs : Step setup g jobs w ch w' ds) :
    Scheduled g w' (decided ++ ds) := by
  have hperm := hs.active_perm
  cases hs with
  | idle hd hk ha =>
    -- Does not happen: who is untold is still awaited.
    obtain ⟨n, hn, -⟩ := h.awaited_of_untold (hd ▸ List.mem_cons_self) hk
    rw [ha] at hn
    cases hn
  | countDown hd hk ha hn =>
    rw [List.map_nil, List.append_nil] at hperm
    rw [List.append_nil]
    obtain ⟨hcount, hpos⟩ := h.awaited_insert ha hn
    exact h.tell hg hd hk hperm rfl hcount hpos
  | enqueue hd hk ha hn =>
    rw [List.map_nil, List.append_nil] at hperm
    rw [List.append_nil]
    obtain ⟨hcount, hpos⟩ := h.awaited_erase ha hn
    exact h.tell hg hd hk hperm rfl hcount hpos
  -- A skipped node is told and departs in one step.
  | skip hd hk ha hn =>
    have hdistinct := h.distinct
    rw [hd] at hdistinct
    obtain ⟨hcount, hpos⟩ := h.awaited_erase ha hn
    refine h.depart hperm (departures_told hd) (List.Perm.swap ..) hg _ hdistinct (fun k => ?_) hpos
    rw [hcount k]
    exact h.counted_told hg hd hk k
  | @leave d rest hd hu =>
    rw [List.append_nil]
    have hsub : ∀ d' ∈ rest, d' ∈ w.departures := fun d' hd' => hd ▸ List.mem_cons_of_mem _ hd'
    have hdistinct := h.distinct
    rw [hd, List.map_cons] at hdistinct
    refine ⟨h.placed, (List.nodup_cons.mp hdistinct).2, fun d' hd' => h.departed d' (hsub d' hd'),
      fun d' hd' => h.untold d' (hsub d' hd'), fun k => ?_, h.positive⟩
    refine (h.counted k).congr fun s _ => ?_
    rw [hd]
    exact (owes_leave hu s).symm
  | takeCancelled | takeAgain | takeUp | beginOver | beginCall | finishOver | finishBroken
  | cancel =>
    rw [List.map_nil, List.append_nil] at hperm
    rw [List.append_nil]
    exact h.move hperm rfl rfl
  | @receive key c r hd hr hf =>
    refine h.depart hperm (fun d hd => absurd hd List.not_mem_nil) (List.Perm.refl _) hg r
      List.nodup_nil (fun k => ?_) h.positive
    have hc := h.counted k
    rwa [hd] at hc

end

/-- **Order.** A node that is not awaited has been told of all its predecessors, so each of them has
a result. -/
theorem exists_result (hg : g.Sound) (h : Scheduled g w decided) {k p : String}
    (ha : w.awaited.get? k = none) (he : (p, k) ∈ g.edges) :
    ¬ Owes w.active w.departures k (some p) ∧ ∃ r, (p, r) ∈ decided := by
  have ho := h.not_awaited_iff.mp ha (some p) (Graph.some_mem_sources.mpr he)
  refine ⟨ho, ?_⟩
  have hp := h.placed.mem_iff.mpr (hg.mem_keys_of_edge he).1
  rcases List.mem_append.mp hp with hp | hp
  · exact absurd (.inl ⟨p, hp, rfl⟩) ho
  · obtain ⟨⟨n, r⟩, hr, rfl⟩ := List.mem_map.mp hp
    exact ⟨r, hr⟩

/-- The other way round: no active node is a predecessor of one that is not awaited. -/
theorem not_edge_of_active (hg : g.Sound) (h : Scheduled g w decided) {key k : String}
    (hkey : key ∈ w.active) (ha : w.awaited.get? k = none) : (key, k) ∉ g.edges := by
  intro he
  obtain ⟨-, r, hr⟩ := h.exists_result hg ha he
  exact h.not_active hg (List.mem_map_of_mem hr) hkey

/-- **Completeness.** A walk that is over has decided every node of the plan once. This is where
acyclicity is needed: on a cycle nodes would await each other for ever. -/
theorem decided_perm (hg : g.Sound) (h : Scheduled g w decided) (ho : w.isOver = true) :
    (decided.map Prod.fst).Perm g.plan.keys := by
  unfold isOver at ho
  simp only [Bool.and_eq_true, List.isEmpty_iff] at ho
  obtain ⟨⟨⟨hd, hq⟩, hb⟩, hr⟩ := ho
  have hactive : w.active = w.awaited.keys := by simp [active, underway, hq, hb, hr]
  -- Along the edges: with no predecessor awaited and no departure left, nothing is owed to `k`.
  have hnone : ∀ k ∈ g.plan.keys, w.awaited.get? k = none := fun k hk => by
    refine hg.induct (P := fun k => w.awaited.get? k = none)
      (fun k ih => h.not_awaited_iff.mpr fun s hs hos => ?_) hk
    rcases hos with ⟨p, hp, rfl⟩ | ⟨d, hd', -⟩
    · rw [hactive] at hp
      obtain ⟨n, hn⟩ := Keyed.mem_keys.mp hp
      rw [ih p (Edges.mem_before.mpr (Graph.some_mem_sources.mp hs))] at hn
      cases hn
    · rw [hd] at hd'
      cases hd'
  have hempty : w.active = [] := List.eq_nil_iff_forall_not_mem.mpr fun k hk => by
    have hn := hnone k (h.mem_keys hk)
    rw [hactive] at hk
    obtain ⟨n, hs⟩ := Keyed.mem_keys.mp hk
    rw [hn] at hs
    cases hs
  have := h.placed
  rwa [hempty, List.nil_append] at this

end Scheduled

end Walk

end Provision
