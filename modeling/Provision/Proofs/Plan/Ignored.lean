import Provision.Proofs.Attributes.Same
import Provision.Proofs.Graph.Alike
import Provision.Proofs.Plan.Coverage

/-!
# Manifests that differ in ignored fields

* `Resource.Alike`: two resources differ in ignored fields at most.
* `Plan.actionFor_congr`: they get the same action, unless one would be left alone and the other
  does not resolve.
* `Plan.apply_ignoring`: what two manifests that are alike have in common: their actions, whether
  their plans have a graph, and what waits for what in it. All of this depends on ignored fields
  through the references in them, and `Plan.apply_not_ignoring` shows that it does.
-/

namespace Provision

namespace Resource

/-- Two resources differ in ignored fields at most. -/
structure Alike (ignored : List FieldPath) (r s : Resource) : Prop where
  id : r.id = s.id
  type : r.type = s.type
  dependsOn : r.dependsOn = s.dependsOn
  attributes : (r.attributes.prune ignored).same (s.attributes.prune ignored) = true

/-- Every reference of the resource names a scalar. -/
def Resolves (known : Index) (r : Resource) : Prop := ∃ a, r.attributes.resolve known = .ok a

/-- Two resources, when they are applied, depend on the same ones of the keys given. -/
def Joined (keys : List String) (r s : Resource) : Prop :=
  ∀ k ∈ keys, k ∈ r.dependsOn ++ r.attributes.referencedKeys ↔
    k ∈ s.dependsOn ++ s.attributes.referencedKeys

end Resource

namespace Resource.Alike

variable {ignored : List FieldPath} {prior : Index} {r s : Resource}

theorem symm (h : Alike ignored r s) : Alike ignored s r :=
  ⟨h.id.symm, h.type.symm, h.dependsOn.symm, Attributes.same_symm h.attributes⟩

/-- `Alike` compares pruned trees, but resolving comes first; `resolve_prune` lets the two be
exchanged. -/
theorem same_of_resolve (h : Alike ignored r s) {a b : Attributes}
    (ha : r.attributes.resolve prior = .ok a) (hb : s.attributes.resolve prior = .ok b) :
    (a.prune ignored).same (b.prune ignored) = true := by
  obtain ⟨b', hb', hsame⟩ :=
    Attributes.same_of_resolve h.attributes (Attributes.resolve_prune ignored ha)
  have hprune := Attributes.resolve_prune ignored hb
  rw [← Except.ok.inj (hb'.symm.trans hprune)]
  exact hsame

end Resource.Alike

namespace Plan

variable {ignored : List FieldPath} {prior : Index} {r s : Resource}

/-! ## Actions -/

/-- What is left alone resolves, since a reference that does not counts as a difference in
`differs`. -/
theorem resolves_of_unchanged (h : actionFor prior ignored r = .unchanged) : r.Resolves prior := by
  obtain ⟨recorded, -, hd⟩ := actionFor_eq_unchanged_iff.mp h
  obtain ⟨-, -, a, ha, -⟩ := differs_eq_false_iff.mp hd
  exact ⟨a, ha⟩

/-- If one of two resources that are alike is left alone and the other one resolves, it is left
alone too, by `same_trans`. -/
theorem unchanged_of_alike (h : r.Alike ignored s) (hs : s.Resolves prior)
    (hr : actionFor prior ignored r = .unchanged) : actionFor prior ignored s = .unchanged := by
  obtain ⟨recorded, hget, hd⟩ := actionFor_eq_unchanged_iff.mp hr
  obtain ⟨ht, hdep, a, ha, hsame⟩ := differs_eq_false_iff.mp hd
  obtain ⟨b, hb⟩ := hs
  refine actionFor_eq_unchanged_iff.mpr ⟨recorded, ?_, ?_⟩
  · rw [← hget]
    exact congrArg _ h.id.symm
  · exact differs_eq_false_iff.mpr ⟨ht.trans h.type, hdep.trans h.dependsOn, b, hb,
      Attributes.same_trans hsame (h.same_of_resolve ha hb)⟩

/-- Resources that are alike get the same action, unless one would be left alone and the other does
not resolve. Only the references in ignored fields can make that difference. -/
theorem actionFor_congr (h : r.Alike ignored s) :
    actionFor prior ignored r = actionFor prior ignored s ↔
      (actionFor prior ignored r = .unchanged → s.Resolves prior) ∧
      (actionFor prior ignored s = .unchanged → r.Resolves prior) := by
  constructor
  · intro he
    exact ⟨fun hr => resolves_of_unchanged (he ▸ hr), fun hs => resolves_of_unchanged (he ▸ hs)⟩
  · rintro ⟨hr, hs⟩
    have hcreate : actionFor prior ignored r = .create ↔ actionFor prior ignored s = .create := by
      rw [actionFor_eq_create_iff, actionFor_eq_create_iff]
      unfold Resource.key
      rw [h.id]
    have hunchanged : actionFor prior ignored r = .unchanged ↔
        actionFor prior ignored s = .unchanged :=
      ⟨fun hu => unchanged_of_alike h (hr hu) hu, fun hu => unchanged_of_alike h.symm (hs hu) hu⟩
    cases hr' : actionFor prior ignored r with
    | create => exact (hcreate.mp hr').symm
    | unchanged => exact (hunchanged.mp hr').symm
    | delete => exact absurd hr' actionFor_ne_delete
    | update =>
      cases hs' : actionFor prior ignored s with
      | update => rfl
      | create => exact absurd (hr'.symm.trans (hcreate.mpr hs')) nofun
      | unchanged => exact absurd (hr'.symm.trans (hunchanged.mpr hs')) nofun
      | delete => exact absurd hs' actionFor_ne_delete

/-! ## Plans -/

/-- A resource with the action planned for it. -/
def changeFor (prior : Index) (ignored : List FieldPath) (r : Resource) : Change :=
  ⟨r, actionFor prior ignored r⟩

/-- What is recorded and not desired, to be deleted. -/
def dropped (prior : Index) (desired : List Resource) : Plan :=
  (prior.byId.filter fun r => !desired.any (·.id = r.id)).map (⟨·, .delete⟩)

theorem apply_eq (desired : List Resource) (prior : Index) (ignored : List FieldPath) :
    apply desired prior ignored = desired.map (changeFor prior ignored) ++ dropped prior desired :=
  rfl

theorem dependsOn_changeFor (ha : (actionFor prior ignored r).isApply = true) {k : String} :
    (changeFor prior ignored r).DependsOn .apply k ↔
      k ∈ r.dependsOn ++ r.attributes.referencedKeys := by
  simp [Change.DependsOn, changeFor, ha]

section

variable {ms : List (Resource × Resource)}

/-- The changes planned for two manifests, side by side. -/
def sideBySide (prior : Index) (ignored : List FieldPath) (ms : List (Resource × Resource)) :
    List (Change × Change) :=
  ms.map (Prod.map (changeFor prior ignored) (changeFor prior ignored)) ++
    (dropped prior (ms.map Prod.fst)).map fun c => (c, c)

theorem left_sideBySide (prior : Index) (ignored : List FieldPath)
    (ms : List (Resource × Resource)) :
    left (sideBySide prior ignored ms) = apply (ms.map Prod.fst) prior ignored := by
  simp [left, sideBySide, apply_eq, Function.comp_def]

variable (h : ∀ q ∈ ms, Resource.Alike ignored q.1 q.2)

include h

/-- Manifests that are alike have the same ids, so they drop the same resources. -/
theorem dropped_congr : dropped prior (ms.map Prod.fst) = dropped prior (ms.map Prod.snd) := by
  have hids : (ms.map Prod.fst).map Resource.id = (ms.map Prod.snd).map Resource.id := by
    rw [List.map_map, List.map_map]
    exact List.map_congr_left fun q hq => (h q hq).id
  have hany : ∀ (r : Resource) (rs : List Resource), rs.any (fun d => decide (d.id = r.id)) =
      (rs.map Resource.id).any fun i => decide (i = r.id) := fun r rs => by
    rw [List.any_map]
    rfl
  unfold dropped
  simp only [hany, hids]

theorem right_sideBySide :
    right (sideBySide prior ignored ms) = apply (ms.map Prod.snd) prior ignored := by
  simp [right, sideBySide, apply_eq, Function.comp_def, dropped_congr h]

theorem keys_apply_congr : (apply (ms.map Prod.fst) prior ignored).keys =
    (apply (ms.map Prod.snd) prior ignored).keys := by
  unfold keys
  rw [apply_eq, apply_eq, dropped_congr h, List.map_append, List.map_append]
  simp only [List.map_map]
  congr 1
  exact List.map_congr_left fun q hq => (h q hq).id

/-- The deletions are the same in both plans, so only the desired resources matter. -/
theorem actions_eq_iff :
    (apply (ms.map Prod.fst) prior ignored).map Change.action =
        (apply (ms.map Prod.snd) prior ignored).map Change.action ↔
      ∀ q ∈ ms, actionFor prior ignored q.1 = actionFor prior ignored q.2 := by
  rw [apply_eq, apply_eq, dropped_congr h, List.map_append, List.map_append,
    List.append_cancel_right_eq]
  simp only [List.map_map]
  exact List.map_inj_left

/-- Changes with the same action are `Change.Alike`, if the resources to be applied depend on the
same planned ones. For the others nothing is asked, as their references do not count. -/
theorem alike_sideBySide
    (ha : ∀ q ∈ ms, actionFor prior ignored q.1 = actionFor prior ignored q.2)
    {keys : List String} (hj : ∀ q ∈ ms, (actionFor prior ignored q.1).isApply = true →
      q.1.Joined keys q.2) :
    ∀ q ∈ sideBySide prior ignored ms, Change.Alike .apply keys q.1 q.2 := by
  intro q hq
  rcases List.mem_append.mp hq with hq | hq
  · obtain ⟨⟨r, s⟩, hm, rfl⟩ := List.mem_map.mp hq
    refine ⟨(h _ hm).id, ha _ hm, (h _ hm).dependsOn, fun k hk => ?_⟩
    by_cases happly : (actionFor prior ignored r).isApply = true
    · have hright : (actionFor prior ignored s).isApply = true := ha _ hm ▸ happly
      exact (dependsOn_changeFor happly).trans
        ((hj _ hm happly k hk).trans (dependsOn_changeFor hright).symm)
    · have hright : ¬ (actionFor prior ignored s).isApply = true := ha _ hm ▸ happly
      have hdeps : r.dependsOn = s.dependsOn := (h _ hm).dependsOn
      simp [Change.DependsOn, changeFor, happly, hright, hdeps]
  · obtain ⟨c, -, rfl⟩ := List.mem_map.mp hq
    exact .refl c

/-- The converse of `alike_sideBySide`: what waits for what tells which planned keys an applied
resource depends on. -/
theorem joined_of_dependencies {g g' : Graph}
    (hb : Graph.build .apply (apply (ms.map Prod.fst) prior ignored) = .ok g)
    (hb' : Graph.build .apply (apply (ms.map Prod.snd) prior ignored) = .ok g')
    (hd : ∀ k, g.dependencies k = g'.dependencies k) {q : Resource × Resource} (hq : q ∈ ms)
    (ha : (actionFor prior ignored q.1).isApply = true)
    (ha' : (actionFor prior ignored q.2).isApply = true) :
    q.1.Joined (apply (ms.map Prod.fst) prior ignored).keys q.2 := by
  intro k hk
  have hleft := Graph.mem_dependencies_of_kept hb nofun
    (c := changeFor prior ignored q.1) (mem_apply_of_mem (List.mem_map_of_mem hq))
    actionFor_ne_delete (d := k)
  have hright := Graph.mem_dependencies_of_kept hb' nofun
    (c := changeFor prior ignored q.2) (mem_apply_of_mem (List.mem_map_of_mem hq))
    actionFor_ne_delete (d := k)
  have hkey : (changeFor prior ignored q.1).key = (changeFor prior ignored q.2).key := (h q hq).id
  rw [dependsOn_changeFor ha, and_iff_left hk, hd, hkey] at hleft
  rw [dependsOn_changeFor ha', and_iff_left (keys_apply_congr h ▸ hk)] at hright
  exact hleft.symm.trans hright

/-- **Ignored fields.** Take two manifests that differ in ignored fields at most. Their resources
get the same actions if and only if, wherever one is left alone, the other resolves as well. Where
the actions are the same, and the references in the ignored fields join no other planned resources
to those that are applied (`Joined`), both plans have a graph or neither; and in two graphs every
key waits for the same ones if and only if these references join no others. -/
theorem apply_ignoring {p p' : Plan} (hp : p = apply (ms.map Prod.fst) prior ignored)
    (hp' : p' = apply (ms.map Prod.snd) prior ignored) :
    p.keys = p'.keys ∧
    (p.map Change.action = p'.map Change.action ↔ ∀ q ∈ ms,
      (actionFor prior ignored q.1 = .unchanged → q.2.Resolves prior) ∧
      (actionFor prior ignored q.2 = .unchanged → q.1.Resolves prior)) ∧
    (p.map Change.action = p'.map Change.action →
      ((∀ q ∈ ms, (actionFor prior ignored q.1).isApply = true → q.1.Joined p.keys q.2) →
        ((∃ g, Graph.build .apply p = .ok g) ↔ ∃ g, Graph.build .apply p' = .ok g)) ∧
      ∀ g g', Graph.build .apply p = .ok g → Graph.build .apply p' = .ok g' →
        ((∀ k, g.dependencies k = g'.dependencies k) ↔
          ∀ q ∈ ms, (actionFor prior ignored q.1).isApply = true → q.1.Joined p.keys q.2)) := by
  subst hp hp'
  refine ⟨keys_apply_congr h, ?_, fun hactions => ?_⟩
  · rw [actions_eq_iff h]
    exact forall₂_congr fun q hq => actionFor_congr (h q hq)
  · have ha := (actions_eq_iff h).mp hactions
    have hcongr := fun hj => Graph.build_congr (alike_sideBySide h ha hj)
    rw [left_sideBySide, right_sideBySide h] at hcongr
    refine ⟨fun hj => (hcongr hj).1, fun g g' hb hb' => ⟨fun hd q hq hq' => ?_, fun hj => ?_⟩⟩
    · exact joined_of_dependencies h hb hb' hd hq hq' (ha q hq ▸ hq')
    · exact (hcongr hj).2 g g' hb hb'

end

/-! ## Stamps -/

/-- A resource `b` that refers to `a`, and has a stamp. -/
def stamped (stamp : Value) : Resource :=
  ⟨"b", "Local", [("t", stamp), ("x", .string "$converge_path.a.v")], []⟩

/-- Two manifests of `a` and `b` with different stamps on `b`. The second one refers to `a`. -/
def stampedTwice : List (Resource × Resource) :=
  [(⟨"a", "Local", [], []⟩, ⟨"a", "Local", [], []⟩),
    (stamped (.number (.int 1)), stamped (.string "$converge_path.a.w"))]

/-- The graph of `a` and `b` to be created. -/
def stampedGraph (stamp : Value) : Graph where
  operation := .apply
  plan := [⟨⟨"a", "Local", [], []⟩, .create⟩, ⟨stamped stamp, .create⟩]
  edges := [("a", "b")]
  order := ["a", "b"]

theorem apply_ignoring_stamps :
    (∀ q ∈ stampedTwice, Resource.Alike [⟨["t"]⟩] q.1 q.2) ∧ ∀ k,
      (stampedGraph (.number (.int 1))).dependencies k =
        (stampedGraph (.string "$converge_path.a.w")).dependencies k := by
  have halike : ∀ q ∈ stampedTwice, Resource.Alike [⟨["t"]⟩] q.1 q.2 := by
    intro q hq
    simp only [stampedTwice, List.mem_cons, List.not_mem_nil, or_false] at hq
    rcases hq with rfl | rfl
    · exact ⟨rfl, rfl, rfl, rfl⟩
    · exact ⟨rfl, rfl, rfl, by decide +kernel⟩
  obtain ⟨-, -, hgraphs⟩ := apply_ignoring halike rfl rfl
  have hjoined : ∀ q ∈ stampedTwice, (actionFor .empty [⟨["t"]⟩] q.1).isApply = true →
      q.1.Joined (apply (stampedTwice.map Prod.fst) .empty [⟨["t"]⟩]).keys q.2 := by
    have hrefs : ∀ q ∈ stampedTwice, q.1.dependsOn ++ q.1.attributes.referencedKeys =
        q.2.dependsOn ++ q.2.attributes.referencedKeys := by decide +kernel
    intro q hq _ k _
    rw [hrefs q hq]
  have hg : Graph.build .apply (apply (stampedTwice.map Prod.fst) .empty [⟨["t"]⟩]) =
    .ok (stampedGraph (.number (.int 1))) := by decide +kernel
  have hg' : Graph.build .apply (apply (stampedTwice.map Prod.snd) .empty [⟨["t"]⟩]) =
    .ok (stampedGraph (.string "$converge_path.a.w")) := by decide +kernel
  have hactions : (apply (stampedTwice.map Prod.fst) .empty [⟨["t"]⟩]).map Change.action =
      (apply (stampedTwice.map Prod.snd) .empty [⟨["t"]⟩]).map Change.action := by decide +kernel
  exact ⟨halike, ((hgraphs hactions).2 _ _ hg hg').mpr hjoined⟩

/-- The resource `a` with a stamp. -/
def marked (stamp : Value) : Resource := ⟨"a", "Local", [("t", stamp)], []⟩

/-- Two manifests of `a` with different stamps. The second one refers to what is not there. -/
def markedTwice : List (Resource × Resource) :=
  [(marked (.number (.int 1)), marked (.string "$converge_path.gone.v"))]

/-- Two manifests of `a`, and of `b` that depends on it. The second stamp refers to `b`. -/
def tangled : List (Resource × Resource) :=
  [(marked (.number (.int 1)), marked (.string "$converge_path.b.v")),
    (⟨"b", "Local", [], ["a"]⟩, ⟨"b", "Local", [], ["a"]⟩)]

/-- It is not so that ignored fields take no part in decisions: whether `a` is left alone depends on
whether its stamp resolves (`markedTwice`), and whether a plan has a graph on what it refers to
(`tangled`). -/
theorem apply_not_ignoring :
    (¬ ∀ (ms : List (Resource × Resource)) (ignored : List FieldPath) (prior : Index),
      (∀ q ∈ ms, Resource.Alike ignored q.1 q.2) →
      (apply (ms.map Prod.fst) prior ignored).map Change.action =
        (apply (ms.map Prod.snd) prior ignored).map Change.action) ∧
    ¬ ∀ (ms : List (Resource × Resource)) (ignored : List FieldPath) (prior : Index),
      (∀ q ∈ ms, Resource.Alike ignored q.1 q.2) →
      ((∃ g, Graph.build .apply (apply (ms.map Prod.fst) prior ignored) = .ok g) ↔
        ∃ g, Graph.build .apply (apply (ms.map Prod.snd) prior ignored) = .ok g) := by
  constructor
  · intro h
    have halike : ∀ q ∈ markedTwice, Resource.Alike [⟨["t"]⟩] q.1 q.2 := by
      intro q hq
      obtain rfl := List.mem_singleton.mp hq
      exact ⟨rfl, rfl, rfl, rfl⟩
    have hactions := h markedTwice _ (.ofResources [⟨"a", "Local", [], []⟩]) halike
    have ha := (actions_eq_iff halike).mp hactions _ List.mem_cons_self
    exact absurd ha (by decide +kernel)
  · intro h
    have halike : ∀ q ∈ tangled, Resource.Alike [⟨["t"]⟩] q.1 q.2 := by
      intro q hq
      simp only [tangled, List.mem_cons, List.not_mem_nil, or_false] at hq
      rcases hq with rfl | rfl
      · exact ⟨rfl, rfl, rfl, rfl⟩
      · exact ⟨rfl, rfl, rfl, rfl⟩
    have hb : Graph.build .apply (apply (tangled.map Prod.fst) .empty [⟨["t"]⟩]) =
      .ok ⟨.apply, tangled.map fun q => ⟨q.1, .create⟩, [("a", "b")], ["a", "b"]⟩ := by
      decide +kernel
    have hb' : Graph.build .apply (apply (tangled.map Prod.snd) .empty [⟨["t"]⟩]) =
      .error (.cycle "b") := by decide +kernel
    obtain ⟨g, hg⟩ := (h tangled _ .empty halike).mp ⟨_, hb⟩
    cases hb'.symm.trans hg

end Plan

end Provision
