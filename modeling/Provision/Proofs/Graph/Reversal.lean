import Provision.Proofs.Graph.Verdict

/-!
# Cycles of reversed dependencies

Among deleted resources the dependents go first, and elsewhere the dependencies. So the order of a
plan can run in circles where its dependencies do not.

* `Plan.Entangles`: a deleted key goes before another one, directly or by way of kept keys.
  `Plan.acyclic_precedes_iff`: where dependencies have no cycle, only deleted keys that are
  entangled with each other make one.
* `Graph.cycle_iff_entangled`: this is exactly when a plan without cyclic dependencies is refused
  for a cycle. `Graph.cycle_knot`: it happens.
-/

namespace Provision

namespace Plan

variable {op : Operation} {p : Plan} {a b : String}

/-- The kept key `b` depends on `a`. -/
def Climbs (op : Operation) (p : Plan) (a b : String) : Prop :=
  p.Depends op b a ∧ ¬ p.Deletes b

/-- The deleted key `a` goes before the deleted `b`: it depends on `b`, or `b` depends on a kept key
that depends, through kept ones, on `a`. -/
def Entangles (op : Operation) (p : Plan) (a b : String) : Prop :=
  p.Deletes a ∧ p.Deletes b ∧
    (p.Depends op a b ∨ ∃ k, Relation.TransGen (p.Climbs op) a k ∧ p.Depends op b k)

/-- Dependencies along which `f` falls are `Acyclic`; it is how concrete plans are checked. -/
theorem acyclic_of_rank (f : String → Nat) (h : ∀ c ∈ p, ∀ d ∈ c.dependencies op, f d < f c.key) :
    Acyclic (p.Depends op) := by
  refine Acyclic.of_rank f fun a b hab => ?_
  obtain ⟨c, hc, rfl, hd, -⟩ := hab
  exact h c hc b (Change.mem_dependencies.mpr hd)

/-- Between two deleted keys the dependent goes first: here `Precedes` is `Depends`, not its
reverse. -/
theorem precedes_iff_of_deletes (ha : p.Deletes a) (hb : p.Deletes b) :
    p.Precedes op a b ↔ p.Depends op a b := by
  have hrev : p.Reverses op a b := .inr ⟨ha, hb⟩
  simp [Precedes, hrev]

section

variable (hop : op ≠ .destroy)

include hop

/-- What goes before a kept key is a dependency of it. The step of a way towards a kept key is a
`Climbs` step. -/
theorem precedes_iff_climbs (hb : ¬ p.Deletes b) : p.Precedes op a b ↔ p.Climbs op a b := by
  have hrev : ¬ p.Reverses op a b := fun h => h.elim hop fun h => hb h.2
  simp [Precedes, Climbs, hrev, hb]

/-- A kept key goes before whatever depends on it, deleted keys among them. -/
theorem precedes_iff_of_kept (ha : ¬ p.Deletes a) : p.Precedes op a b ↔ p.Depends op b a := by
  have hrev : ¬ p.Reverses op a b := fun h => h.elim hop fun h => ha h.1
  simp [Precedes, hrev]

/-- `Entangles` is a way in `Precedes`, of one reversed edge, or up through kept keys and down to a
deleted one. -/
theorem Entangles.precedes (h : p.Entangles op a b) : Relation.TransGen (p.Precedes op) a b := by
  obtain ⟨ha, hb, hd | ⟨k, hak, hd⟩⟩ := h
  · exact .single ((precedes_iff_of_deletes ha hb).mpr hd)
  · have hclimbs : ∀ x y, p.Climbs op x y → p.Precedes op x y :=
      fun x y hxy => (precedes_iff_climbs hop hxy.2).mpr hxy
    have hkept : ¬ p.Deletes k := by
      cases hak with
      | single h => exact h.2
      | tail _ h => exact h.2
    exact (Relation.TransGen.mono hclimbs _ _ hak).tail ((precedes_iff_of_kept hop hkept).mpr hd)

/-- A way from a deleted key leads to the deleted keys it `Entangles`, and from the last of these up
to a kept one. -/
theorem transGen_of_deletes (ha : p.Deletes a) (h : Relation.TransGen (p.Precedes op) a b) :
    (p.Deletes b ∧ Relation.TransGen (p.Entangles op) a b) ∨
    (¬ p.Deletes b ∧ ∃ d, p.Deletes d ∧ Relation.ReflTransGen (p.Entangles op) a d ∧
      Relation.TransGen (p.Climbs op) d b) := by
  -- A way that is at a kept key climbs on, until it comes down to a deleted one that depends on it.
  induction h with
  | @single b hab =>
    by_cases hb : p.Deletes b
    · have hd := (precedes_iff_of_deletes ha hb).mp hab
      exact .inl ⟨hb, .single ⟨ha, hb, .inl hd⟩⟩
    · exact .inr ⟨hb, a, ha, .refl, .single ((precedes_iff_climbs hop hb).mp hab)⟩
  | @tail b c _ hbc ih =>
    by_cases hc : p.Deletes c
    · refine .inl ⟨hc, ?_⟩
      rcases ih with ⟨hb, hab⟩ | ⟨hb, d, hd, had, hdb⟩
      · exact hab.tail ⟨hb, hc, .inl ((precedes_iff_of_deletes hb hc).mp hbc)⟩
      · exact .tail' had ⟨hd, hc, .inr ⟨b, hdb, (precedes_iff_of_kept hop hb).mp hbc⟩⟩
    · have hclimb := (precedes_iff_climbs hop hc).mp hbc
      refine .inr ⟨hc, ?_⟩
      rcases ih with ⟨hb, hab⟩ | ⟨-, d, hd, had, hdb⟩
      · exact ⟨b, hb, hab.to_reflTransGen, .single hclimb⟩
      · exact ⟨d, hd, had, hdb.tail hclimb⟩

/-- A way stays among kept keys, where it only climbs, or comes by a deleted one. -/
theorem climbs_or_deletes (h : Relation.TransGen (p.Precedes op) a b) :
    Relation.TransGen (p.Climbs op) a b ∨ ∃ d, p.Deletes d ∧
      Relation.TransGen (p.Precedes op) a d ∧ Relation.ReflTransGen (p.Precedes op) d b := by
  induction h with
  | @single b hab =>
    by_cases hb : p.Deletes b
    · exact .inr ⟨b, hb, .single hab, .refl⟩
    · exact .inl (.single ((precedes_iff_climbs hop hb).mp hab))
  | @tail b c hab hbc ih =>
    rcases ih with hclimbs | ⟨d, hd, had, hdb⟩
    · by_cases hc : p.Deletes c
      · exact .inr ⟨c, hc, hab.tail hbc, .refl⟩
      · exact .inl (hclimbs.tail ((precedes_iff_climbs hop hc).mp hbc))
    · exact .inr ⟨d, hd, had, hdb.tail hbc⟩

/-- Where dependencies have no cycle, only deleted keys that are entangled can make one: a cycle of
kept keys only would be one of dependencies. -/
theorem acyclic_precedes_iff (hac : Acyclic (p.Depends op)) :
    Acyclic (p.Precedes op) ↔ Acyclic (p.Entangles op) := by
  constructor
  · intro h k hk
    exact h k (hk.lift' id fun a b hab => hab.precedes hop)
  · intro h k hk
    rcases climbs_or_deletes hop hk with hclimbs | ⟨d, hd, hkd, hdk⟩
    · exact hac.swap k (Relation.TransGen.mono (fun a b hab => hab.1) _ _ hclimbs)
    · -- the same cycle, seen from a deleted key
      have hcycle : Relation.TransGen (p.Precedes op) d d := .trans_right hdk hkd
      rcases transGen_of_deletes hop hd hcycle with ⟨-, hdd⟩ | ⟨hnot, -⟩
      · exact h d hdd
      · exact hnot hd

end

end Plan

namespace Graph

/-- **Cycles that nobody declared.** A plan whose dependencies have no cycle is refused for one if
and only if deleted resources are entangled in a circle, unless everything is destroyed. `Nodup` and
`Lacks` are the two checks that `build` makes before. -/
theorem cycle_iff_entangled {op : Operation} {p : Plan} (hac : Acyclic (p.Depends op)) :
    (∃ k, build op p = .error (.cycle k)) ↔
      p.keys.Nodup ∧ ¬ p.Lacks ∧ op ≠ .destroy ∧ ¬ Acyclic (p.Entangles op) := by
  rw [(build_verdict op p).cycle_iff]
  by_cases hop : op = .destroy
  · subst hop
    rw [Plan.precedes_destroy]
    simp [hac]
  · rw [Plan.acyclic_precedes_iff hop hac]
    simp [hop]

/-! ## A knot -/

/-- The deleted `a` depends on the deleted `b` and on `k`, which is kept and depends on `b`. -/
def knot : Plan :=
  [⟨⟨"a", "Local", [], ["b", "k"]⟩, .delete⟩, ⟨⟨"k", "Local", [], ["b"]⟩, .update⟩,
    ⟨⟨"b", "Local", [], []⟩, .delete⟩]

theorem acyclic_knot : Acyclic (knot.Depends .apply) :=
  Plan.acyclic_of_rank (fun k => if k = "a" then 2 else if k = "k" then 1 else 0) (by decide)

theorem cycle_iff_entangled_knot :
    Acyclic (knot.Depends .apply) ∧ build .apply knot = .error (.cycle "k") ∧
      ¬ Acyclic (knot.Entangles .apply) := by
  have hk : build .apply knot = .error (.cycle "k") := by decide +kernel
  obtain ⟨-, -, -, hknot⟩ := (cycle_iff_entangled acyclic_knot).mp ⟨"k", hk⟩
  exact ⟨acyclic_knot, hk, hknot⟩

/-- It is not so that a plan whose dependencies have no cycle is never refused for one: `knot`
is. -/
theorem cycle_knot :
    ¬ ∀ (op : Operation) (p : Plan), Acyclic (p.Depends op) →
      ∀ k, build op p ≠ .error (.cycle k) := by
  intro h
  exact h .apply knot acyclic_knot "k" (by decide +kernel)

end Graph

end Provision
