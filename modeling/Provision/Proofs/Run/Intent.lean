import Provision.Run.Node

/-!
# What a node intends

* `Change.eq_of_planned`: what is planned for a resource differs from it in the attributes only.
* `Change.intent_cases`: what a node is to do is one of four things, whatever is known to it. No
  other proof opens `Change.intent`.
* `Change.Intends`: the four things that a node can be about to do, each with the reason for it.
  `Change.intends_of_intent`: whatever it intends is one of them.
* `Change.attributes_of_intent`: the attributes that a backend is asked to bring about.
-/

namespace Provision

namespace Change

variable {σ : Type} {setup : Setup σ} {known : Index} {c : Change}

/-- `planned` resolves the attributes and then prunes them; all else is as the `Change` has it. -/
theorem eq_of_planned {planned : Resource} (h : c.planned setup known = .ok planned) :
    ∃ a, c.resource.attributes.resolve known = .ok a ∧
      planned = { c.resource with attributes := a.prune setup.ignored } := by
  unfold Change.planned at h
  cases hr : c.resource.attributes.resolve known with
  | error s =>
    rw [hr] at h
    cases h
  | ok a =>
    rw [hr] at h
    cases h
    exact ⟨a, rfl, rfl⟩

theorem planned_keeps {planned : Resource} (h : c.planned setup known = .ok planned) :
    planned.id = c.resource.id ∧ planned.type = c.resource.type ∧
      planned.dependsOn = c.resource.dependsOn := by
  obtain ⟨a, -, rfl⟩ := eq_of_planned h
  exact ⟨rfl, rfl, rfl⟩

/-- `ifServed` changes nothing about a call that it lets through. -/
theorem ifServed_eq {call : Call} {i : Intent} (h : ifServed setup call = .ok i) :
    i = .call call := by
  unfold ifServed at h
  cases hs : setup.backends.get call.type with
  | error s =>
    rw [hs] at h
    cases h
  | ok b =>
    rw [hs] at h
    cases h
    rfl

/-- A call that `ifServed` stops is one for which there is no backend. -/
theorem ifServed_eq_error {call : Call} {s : Status} :
    ifServed setup call = .error s ↔ setup.backends.get call.type = .error s := by
  unfold ifServed
  cases setup.backends.get call.type with
  | error s' =>
    constructor
    · rintro ⟨⟩
      rfl
    · rintro ⟨⟩
      rfl
  | ok b => exact ⟨nofun, nofun⟩

/-- **Cases.** The operation and the action say which of four things a node is to do; what is known
to it says at most whether it can. A create and an update come to the same. -/
theorem intent_cases (setup : Setup σ) (c : Change) :
    (setup.operation = .refresh ∧
      ∀ known, c.intent setup known = ifServed setup (.read (setup.recordedOr c.resource))) ∨
    (setup.operation ≠ .refresh ∧ c.action.isApply = true ∧ ∀ known, c.intent setup known = (do
      let planned ← c.planned setup known
      ifServed setup (.apply (setup.prior.get? c.key) planned))) ∨
    (setup.operation ≠ .refresh ∧ c.action = .delete ∧
      ∀ known, c.intent setup known = ifServed setup (.delete (setup.recordedOr c.resource))) ∨
    (setup.operation ≠ .refresh ∧ c.action = .unchanged ∧
      ∀ known, c.intent setup known = .ok (.keep (setup.prior.get? c.key))) := by
  unfold intent
  cases setup.operation with
  | refresh => exact .inl ⟨rfl, fun _ => rfl⟩
  | apply | destroy =>
    cases c.action with
    | create | update => exact .inr (.inl ⟨nofun, rfl, fun _ => rfl⟩)
    | delete => exact .inr (.inr (.inl ⟨nofun, rfl, fun _ => rfl⟩))
    | unchanged => exact .inr (.inr (.inr ⟨nofun, rfl, fun _ => rfl⟩))

/-- A node to be created or updated has its backend apply what is planned. -/
theorem intent_of_isApply (hop : setup.operation ≠ .refresh) (ha : c.action.isApply = true) :
    c.intent setup known = (do
      let planned ← c.planned setup known
      ifServed setup (.apply (setup.prior.get? c.key) planned)) := by
  rcases intent_cases setup c with ⟨h, -⟩ | ⟨-, -, hi⟩ | ⟨-, h, -⟩ | ⟨-, h, -⟩
  · exact absurd h hop
  · exact hi known
  · rw [h] at ha
    cases ha
  · rw [h] at ha
    cases ha

theorem intent_of_unchanged (hop : setup.operation ≠ .refresh) (ha : c.action = .unchanged) :
    c.intent setup known = .ok (.keep (setup.prior.get? c.key)) := by
  rcases intent_cases setup c with ⟨h, -⟩ | ⟨-, h, -⟩ | ⟨-, h, -⟩ | ⟨-, -, hi⟩
  · exact absurd h hop
  · rw [ha] at h
    cases h
  · cases ha.symm.trans h
  · exact hi known

/-- How a node comes to what it intends: a refresh reads every resource, and otherwise its action
decides. The arguments of a call are variables, so that a case analysis also opens calls that are
given with other arguments. -/
inductive Intends (setup : Setup σ) (known : Index) (c : Change) : Intent → Prop
  | read {recorded : Resource} (hop : setup.operation = .refresh)
    (hr : setup.recordedOr c.resource = recorded) :
    Intends setup known c (.call (.read recorded))
  | apply {recorded : Option Resource} {planned : Resource} (hop : setup.operation ≠ .refresh)
    (ha : c.action.isApply = true) (hr : setup.prior.get? c.key = recorded)
    (hp : c.planned setup known = .ok planned) :
    Intends setup known c (.call (.apply recorded planned))
  | delete {recorded : Resource} (hop : setup.operation ≠ .refresh) (ha : c.action = .delete)
    (hr : setup.recordedOr c.resource = recorded) :
    Intends setup known c (.call (.delete recorded))
  | keep {recorded : Option Resource} (hop : setup.operation ≠ .refresh)
    (ha : c.action = .unchanged) (hr : setup.prior.get? c.key = recorded) :
    Intends setup known c (.keep recorded)

/-- **Inversion.** Whatever `Change.intent` finds for a node is listed in `Intends`. -/
theorem intends_of_intent {i : Intent} (h : c.intent setup known = .ok i) :
    c.Intends setup known i := by
  rcases intent_cases setup c with ⟨hop, hi⟩ | ⟨hop, ha, hi⟩ | ⟨hop, ha, hi⟩ | ⟨hop, ha, hi⟩
  · cases ifServed_eq ((hi known).symm.trans h)
    exact .read hop rfl
  · rw [hi] at h
    cases hp : c.planned setup known with
    | error s =>
      rw [hp] at h
      cases h
    | ok planned =>
      rw [hp] at h
      cases ifServed_eq h
      exact .apply hop ha rfl hp
  · cases ifServed_eq ((hi known).symm.trans h)
    exact .delete hop ha rfl
  · cases (hi known).symm.trans h
    exact .keep hop ha rfl

/-- What a backend is asked to apply has the attributes of the `Change`, resolved first and then
pruned. -/
theorem attributes_of_intent {prior : Option Resource} {planned : Resource}
    (h : c.intent setup known = .ok (.call (.apply prior planned))) :
    ∃ a, c.resource.attributes.resolve known = .ok a ∧
      planned.attributes = a.prune setup.ignored := by
  cases intends_of_intent h with
  | apply _ _ _ hp =>
    obtain ⟨a, ha, rfl⟩ := eq_of_planned hp
    exact ⟨a, ha, rfl⟩

end Change

end Provision
