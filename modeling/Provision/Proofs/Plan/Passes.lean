import Provision.Proofs.Attributes.Substitution
import Provision.Run.Node

/-!
# The order of the two passes

References are resolved first, then ignored fields are dropped, before a resource is handed to a
backend and before it is compared with what is recorded.

* `Attributes.passes_commute`: for a tree that resolves, the other order gives the same tree, hands
  the same resource to a backend and finds the same differences.
* `Attributes.resolve_prune_ok_iff`: what else there is to resolve when fields are dropped first.
-/

namespace Provision

namespace Change

variable {σ : Type}

/-- The resource as a backend would see it if ignored fields were dropped before references are
resolved. -/
def plannedPrunedFirst (setup : Setup σ) (known : Index) (c : Change) : Except Status Resource := do
  let attributes ← (c.resource.attributes.prune setup.ignored).resolve known
  return { c.resource with attributes }

end Change

namespace Plan

/-- Whether a desired resource would be out of line with its recorded state if ignored fields were
dropped before references are resolved. -/
def differsPrunedFirst (prior : Index) (ignored : List FieldPath) (recorded desired : Resource) :
    Bool :=
  if recorded.type ≠ desired.type ∨ recorded.dependsOn ≠ desired.dependsOn then true
  else match (desired.attributes.prune ignored).resolve prior with
    | .error _ => true
    | .ok wanted => !(recorded.attributes.prune ignored).same wanted

end Plan

namespace Attributes

variable {a : Attributes} {m : Index} {ps : List FieldPath}

/-- A reference is left after pruning if and only if no path covers it, by `at?_prune`; `without`
leaves a string as it is. -/
theorem unresolved_prune_iff {place : Value.Place} {body : String} :
    Value.Unresolved m (.map (a.prune ps)) place body ↔
      Value.Unresolved m (.map a) place body ∧ FieldPath.coverAny ps place.trace = false := by
  have hstands : (Value.map (a.prune ps)).at? place = some (.string (Reference.marker ++ body)) ↔
      (Value.map a).at? place = some (.string (Reference.marker ++ body)) ∧
        FieldPath.coverAny ps place.trace = false := by
    rw [at?_prune]
    cases FieldPath.coverAny ps place.trace with
    | true => simp
    | false =>
      generalize (Value.map a).at? place = x
      cases x with
      | none => simp
      | some v => cases v <;> simp [Value.without]
  constructor
  · rintro ⟨hp, hb⟩
    exact ⟨⟨(hstands.mp hp).1, hb⟩, (hstands.mp hp).2⟩
  · rintro ⟨⟨hp, hb⟩, hcover⟩
    exact ⟨hstands.mpr ⟨hp, hcover⟩, hb⟩

/-- With fields dropped first, those references need not resolve that a path covers. This is how far
the two orders differ, and why `passes_commute` asks the whole tree to resolve. -/
theorem resolve_prune_ok_iff (ha : a.Ordered) (ps : List FieldPath) :
    (∃ r, (a.prune ps).resolve m = .ok r) ↔ ∀ place body,
      Value.Unresolved m (.map a) place body → FieldPath.coverAny ps place.trace = true := by
  rw [resolve_ok_iff (ha.prune ps)]
  refine forall₂_congr fun place body => ?_
  rw [unresolved_prune_iff, not_and, Bool.not_eq_false]

/-- **The order of the passes.** If a tree resolves, what is left of it after pruning resolves to
what is left of the result. So a backend gets the same resource (`plannedPrunedFirst`), and a plan
finds the same differences (`differsPrunedFirst`), in either order. -/
theorem passes_commute {r : Attributes} (ps : List FieldPath) (h : a.resolve m = .ok r) :
    (a.prune ps).resolve m = .ok (r.prune ps) ∧
    (∀ {σ : Type} (setup : Setup σ) (c : Change), c.resource.attributes = a → setup.ignored = ps →
      c.planned setup m = c.plannedPrunedFirst setup m) ∧
    ∀ recorded desired : Resource, desired.attributes = a →
      Plan.differs m ps recorded desired = Plan.differsPrunedFirst m ps recorded desired := by
  have hprune := resolve_prune ps h
  refine ⟨hprune, ?_, ?_⟩
  · rintro σ setup c rfl rfl
    unfold Change.planned Change.plannedPrunedFirst
    rw [h, hprune]
    rfl
  · rintro recorded desired rfl
    unfold Plan.differs Plan.differsPrunedFirst
    rw [h, hprune]

/-- A reference beside a list with ignored fields. -/
def shelf : Attributes :=
  [("ports", .list [.map [("open", .bool true), ("stamp", .string "$converge_path.web.port")]]),
    ("size", .string "$converge_path.web.port")]

theorem passes_commute_shelf :
    (shelf.prune [⟨["ports", "stamp"]⟩]).resolve rackIndex =
      .ok [("ports", .list [.map [("open", .bool true)]]), ("size", .number (.int 80))] := by
  have h : shelf.resolve rackIndex = .ok
      [("ports", .list [.map [("open", .bool true), ("stamp", .number (.int 80))]]),
        ("size", .number (.int 80))] := by decide +kernel
  rw [(passes_commute [⟨["ports", "stamp"]⟩] h).1]
  decide +kernel

end Attributes

end Provision
