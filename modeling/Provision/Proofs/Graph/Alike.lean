import Provision.Proofs.Graph.Verdict

/-!
# Plans with the same graph

* `Change.Alike`: two changes of one key that do the same and depend on the same planned keys.
* `Graph.build_congr`: plans that are alike change by change have both a graph or neither, and each
  key waits for the same ones.
* `Graph.mem_dependencies_of_kept`: what a key waits for that is not deleted.
-/

namespace Provision

/-- Two changes of one key do the same, and depend on the same ones of the keys given. What they
declare to depend on is the same altogether. -/
structure Change.Alike (op : Operation) (keys : List String) (c d : Change) : Prop where
  key : c.key = d.key
  action : c.action = d.action
  dependsOn : c.resource.dependsOn = d.resource.dependsOn
  sources : ∀ k ∈ keys, c.DependsOn op k ↔ d.DependsOn op k

namespace Change.Alike

variable {op : Operation} {keys : List String} {c d : Change}

theorem symm (h : Change.Alike op keys c d) : Change.Alike op keys d c :=
  ⟨h.key.symm, h.action.symm, h.dependsOn.symm, fun k hk => (h.sources k hk).symm⟩

theorem refl (c : Change) : Change.Alike op keys c c := ⟨rfl, rfl, rfl, fun _ _ => Iff.rfl⟩

end Change.Alike

namespace Plan

variable {op : Operation} {pairs : List (Change × Change)}

/-- The first halves of the pairs. -/
def left (pairs : List (Change × Change)) : Plan := pairs.map Prod.fst

/-- The second halves of the pairs. -/
def right (pairs : List (Change × Change)) : Plan := pairs.map Prod.snd

theorem left_swap (pairs : List (Change × Change)) : left (pairs.map Prod.swap) = right pairs := by
  simp [left, right, Function.comp_def]

theorem right_swap (pairs : List (Change × Change)) : right (pairs.map Prod.swap) = left pairs := by
  simp [left, right, Function.comp_def]

section

variable (h : ∀ q ∈ pairs, Change.Alike op (left pairs).keys q.1 q.2)

include h

theorem keys_left : (left pairs).keys = (right pairs).keys := by
  unfold keys left right
  rw [List.map_map, List.map_map]
  exact List.map_congr_left fun q hq => (h q hq).key

/-- `Change.Alike` in the other direction, so that each `…_right` below gives its converse. -/
theorem alike_swap : ∀ q ∈ pairs.map Prod.swap,
    Change.Alike op (left (pairs.map Prod.swap)).keys q.1 q.2 := by
  intro q hq
  obtain ⟨q', hq', rfl⟩ := List.mem_map.mp hq
  rw [left_swap, ← keys_left h]
  exact (h q' hq').symm

theorem depends_right {a b : String} (hd : (left pairs).Depends op a b) :
    (right pairs).Depends op a b := by
  obtain ⟨c, hc, rfl, hdep, hb⟩ := hd
  obtain ⟨q, hq, rfl⟩ := List.mem_map.mp hc
  refine ⟨q.2, List.mem_map_of_mem hq, (h q hq).key.symm, ((h q hq).sources b hb).mp hdep, ?_⟩
  rwa [← keys_left h]

theorem deletes_right {k : String} (hk : (left pairs).Deletes k) : (right pairs).Deletes k := by
  obtain ⟨c, hc, rfl, ha⟩ := hk
  obtain ⟨q, hq, rfl⟩ := List.mem_map.mp hc
  exact ⟨q.2, List.mem_map_of_mem hq, (h q hq).key.symm, (h q hq).action ▸ ha⟩

theorem lacks_right (hl : (left pairs).Lacks) : (right pairs).Lacks := by
  obtain ⟨k, d, c, hc, rfl, ha, hd, hk⟩ := hl
  obtain ⟨q, hq, rfl⟩ := List.mem_map.mp hc
  refine ⟨_, d, q.2, List.mem_map_of_mem hq, rfl, (h q hq).action ▸ ha,
    (h q hq).dependsOn ▸ hd, ?_⟩
  rwa [← keys_left h]

theorem depends_iff {a b : String} :
    (left pairs).Depends op a b ↔ (right pairs).Depends op a b := by
  refine ⟨depends_right h, fun hd => ?_⟩
  have := depends_right (alike_swap h) (a := a) (b := b)
  rw [left_swap, right_swap] at this
  exact this hd

theorem deletes_iff_right {k : String} : (left pairs).Deletes k ↔ (right pairs).Deletes k := by
  refine ⟨deletes_right h, fun hk => ?_⟩
  have := deletes_right (alike_swap h) (k := k)
  rw [left_swap, right_swap] at this
  exact this hk

theorem lacks_iff : (left pairs).Lacks ↔ (right pairs).Lacks := by
  refine ⟨lacks_right h, fun hl => ?_⟩
  have := lacks_right (alike_swap h)
  rw [left_swap, right_swap] at this
  exact this hl

/-- The same keys go before others: `Plan.Precedes` is made of `Depends` and `Deletes`, on which
both plans agree. -/
theorem precedes_eq : (left pairs).Precedes op = (right pairs).Precedes op := by
  funext a b
  refine propext ?_
  unfold Precedes Reverses
  rw [depends_iff h, depends_iff h, deletes_iff_right h, deletes_iff_right h]

end

end Plan

namespace Graph

variable {op : Operation}

/-- Plans that are `Change.Alike` change by change have both a graph or neither, and each key waits
for the same ones. Their errors need not name the same key, nor their orders be the same list. -/
theorem build_congr {pairs : List (Change × Change)}
    (h : ∀ q ∈ pairs, Change.Alike op (Plan.left pairs).keys q.1 q.2) :
    ((∃ g, build op (Plan.left pairs) = .ok g) ↔ ∃ g, build op (Plan.right pairs) = .ok g) ∧
    ∀ g g', build op (Plan.left pairs) = .ok g → build op (Plan.right pairs) = .ok g' →
      ∀ k, g.dependencies k = g'.dependencies k := by
  constructor
  · rw [(build_verdict op _).ok_iff, (build_verdict op _).ok_iff, Plan.keys_left h,
      Plan.lacks_iff h, Plan.precedes_eq h]
  · intro g g' hg hg' k
    have ha := arranges_of_build hg
    have ha' := arranges_of_build hg'
    have hperm : (g.dependencies k).Perm (g'.dependencies k) := by
      refine (List.perm_ext_iff_of_nodup ((ha.sorted k).imp Std.ne_of_lt)
        ((ha'.sorted k).imp Std.ne_of_lt)).mpr fun j => ?_
      rw [ha.mem_dependencies, ha'.mem_dependencies, Plan.precedes_eq h]
    exact hperm.eq_of_pairwise (fun a b _ _ hab hba => absurd hba (String.lt_asymm hab))
      (ha.sorted k) (ha'.sorted k)

/-- A key that is not deleted waits for exactly the planned ones that it depends on: `Change.orient`
turns an edge round only between two deletions. -/
theorem mem_dependencies_of_kept {p : Plan} {g : Graph} (hb : build op p = .ok g)
    (hop : op ≠ .destroy) {c : Change} (hc : c ∈ p) (ha : c.action ≠ .delete) {d : String} :
    d ∈ g.dependencies c.key ↔ c.DependsOn op d ∧ d ∈ p.keys := by
  obtain ⟨hg, -, rfl⟩ := build_sound hb
  have hrev : ¬ g.plan.Reverses op d c.key := by
    rintro (hd | ⟨-, hdel⟩)
    · exact hop hd
    · exact ha ((Plan.deletes_iff hg.keys_nodup hc).mp hdel)
  rw [(arranges_of_build hb).mem_dependencies]
  constructor
  · rintro (⟨h, -⟩ | ⟨-, c', hc', hk, hd, hmem⟩)
    · exact absurd h hrev
    · rw [← List.inj_on_of_nodup_map hg.keys_nodup hc' hc hk]
      exact ⟨hd, hmem⟩
  · rintro ⟨hd, hmem⟩
    exact .inr ⟨hrev, c, hc, rfl, hd, hmem⟩

end Graph

end Provision
