import Mathlib.Data.List.Lex
import Provision.Proofs.Attributes.Commute
import Provision.Proofs.Attributes.Ordered

/-!
# References put in place

* `Value.at?_resolve`: what stands at a place of a resolved tree is what stood there, resolved.
  `Value.Replaced`: what resolving makes of a part of a tree.
* `Value.Place.Before`: the order in which places are visited. `Value.FirstUnresolved`: the first
  reference in this order that leads nowhere.
* `Value.resolve_eq_error_iff`: a tree does not resolve if and only if it has such a reference, and
  the status is that of the first one.
* `Attributes.resolve_places`: so resolving puts in scalars for references, changes nothing else and
  fails for one reason only.
-/

namespace Provision

namespace Reference

/-- A reference is the marker and its body; there is no other way to write one. -/
theorem body?_eq_some_iff {s body : String} : body? s = some body ↔ s = marker ++ body := by
  unfold body?
  rw [Option.map_eq_some_iff]
  constructor
  · rintro ⟨cs, hcs, rfl⟩
    rw [List.isPrefixOf?_eq_some_iff_append_eq] at hcs
    rw [← String.toList_inj, String.toList_append, String.toList_ofList, hcs]
  · rintro rfl
    refine ⟨body.toList, ?_, String.ofList_toList⟩
    rw [List.isPrefixOf?_eq_some_iff_append_eq, String.toList_append]

theorem body?_marker (body : String) : body? (marker ++ body) = some body :=
  body?_eq_some_iff.mpr rfl

end Reference

namespace Value

variable {m : Index} {u v w : Value}

/-! ## Parts of a resolved tree -/

theorem length_resolveItems {vs ws : List Value} (h : resolveItems m vs = .ok ws) :
    ws.length = vs.length := by
  induction vs generalizing ws with
  | nil =>
    cases h
    rfl
  | cons v vs ih =>
    obtain ⟨w, ws, -, hvs, rfl⟩ := resolveItems_cons.mp h
    exact congrArg Nat.succ (ih hvs)

theorem getElem?_resolveItems {vs ws : List Value} (h : resolveItems m vs = .ok ws) (i : Nat) :
    Option.Rel (fun v w => v.resolve m = .ok w) vs[i]? ws[i]? := by
  induction vs generalizing ws i with
  | nil =>
    cases h
    exact .none
  | cons v vs ih =>
    obtain ⟨w, ws, hv, hvs, rfl⟩ := resolveItems_cons.mp h
    cases i with
    | zero => exact .some hv
    | succ i => exact ih hvs i

theorem get?_resolveFields {fs gs : List (String × Value)} (h : resolveFields m fs = .ok gs)
    (key : String) :
    Option.Rel (fun v w => v.resolve m = .ok w) (Fields.get? key fs) (Fields.get? key gs) := by
  induction fs generalizing gs with
  | nil =>
    cases h
    exact .none
  | cons f fs ih =>
    obtain ⟨w, gs, hv, hfs, rfl⟩ := resolveFields_cons.mp h
    rw [Fields.get?_cons, Fields.get?_cons]
    split
    · exact .some hv
    · exact ih hfs

theorem enter?_of_isScalar (h : v.isScalar = true) (step : Step) : v.enter? step = none := by
  cases v with
  | null | bool | number | string => rfl
  | list | map => cases h

/-- What resolving makes of a part of a tree: the scalar that a reference names, a container of the
same shape for a container, and every other leaf as it is. -/
inductive Replaced (m : Index) : Value → Value → Prop
  | reference {body : String} {v : Value} (h : Reference.lookUp m body = .ok v)
    (hs : v.isScalar = true) : Replaced m (.string (Reference.marker ++ body)) v
  | leaf {v : Value} (hs : v.isScalar = true)
    (hb : ∀ body, v ≠ .string (Reference.marker ++ body)) : Replaced m v v
  | list {vs ws : List Value} (h : ws.length = vs.length) : Replaced m (.list vs) (.list ws)
  | map {fs gs : List (String × Value)} (h : Fields.keys gs = Fields.keys fs) :
    Replaced m (.map fs) (.map gs)

/-- At the root of a tree `resolve` does one of four things, which are the cases of `Replaced`. -/
theorem replaced_of_resolve (h : v.resolve m = .ok w) : Replaced m v w := by
  cases v with
  | null | bool | number =>
    cases h
    exact .leaf rfl nofun
  | string s =>
    simp only [resolve] at h
    split at h
    · next body hb =>
      obtain rfl := Reference.body?_eq_some_iff.mp hb
      exact .reference h (Reference.isScalar_of_find (Reference.lookUp_eq_ok.mp h))
    · next hb =>
      cases h
      refine .leaf rfl fun body he => ?_
      rw [Value.string.inj he, Reference.body?_marker] at hb
      cases hb
  | list vs =>
    obtain ⟨ws, hvs, rfl⟩ := resolve_list.mp h
    exact .list (length_resolveItems hvs)
  | map fs =>
    obtain ⟨gs, hfs, rfl⟩ := resolve_map.mp h
    exact .map (keys_resolveFields hfs)

/-- Resolving goes below each step on its own. For a string this says that the scalar put in has no
parts that were not there before. -/
theorem enter?_resolve (h : v.resolve m = .ok w) (step : Step) :
    Option.Rel (fun v w => v.resolve m = .ok w) (v.enter? step) (w.enter? step) := by
  have hscalar (hv : v.isScalar = true) (hw : w.isScalar = true) :
      Option.Rel (fun v w => v.resolve m = .ok w) (v.enter? step) (w.enter? step) := by
    rw [enter?_of_isScalar hv, enter?_of_isScalar hw]
    exact .none
  cases v with
  | null | bool | number =>
    cases h
    exact hscalar rfl rfl
  | string s =>
    cases replaced_of_resolve h with
    | reference _ hs => exact hscalar rfl hs
    | leaf hs _ => exact hscalar rfl hs
  | list vs =>
    obtain ⟨ws, hvs, rfl⟩ := resolve_list.mp h
    cases step with
    | field key => exact .none
    | item i => exact getElem?_resolveItems hvs i
  | map fs =>
    obtain ⟨gs, hfs, rfl⟩ := resolve_map.mp h
    cases step with
    | field key => exact get?_resolveFields hfs key
    | item i => exact .none

/-- What stands at a place of a resolved tree is what stood there, resolved, and there is something
if and only if there was (`Option.Rel`). -/
theorem at?_resolve (h : v.resolve m = .ok w) (place : Place) :
    Option.Rel (fun v w => v.resolve m = .ok w) (v.at? place) (w.at? place) := by
  induction place generalizing v w with
  | nil => exact .some h
  | cons step place ih =>
    rw [at?_cons, at?_cons]
    have hstep := enter?_resolve h step
    generalize v.enter? step = x at hstep
    generalize w.enter? step = y at hstep
    cases hstep with
    | none => exact .none
    | some h => exact ih h

/-! ## Visiting a tree -/

/-- Whether the part after one step is visited before that after another one. -/
def Step.Before : Step → Step → Prop
  | .field k, .field l => k < l
  | .item i, .item j => i < j
  | _, _ => False

/-- Whether a place is visited before another one: maps by key, lists by position, and all that
stands below a place before what comes after it. -/
abbrev Place.Before : Place → Place → Prop := List.Lex Step.Before

instance : Std.Asymm Step.Before where
  asymm s t h h' := by
    cases s <;> cases t
    · exact String.lt_asymm h h'
    · exact h
    · exact h
    · exact Nat.lt_asymm h h'

/-- The steps into one container are in line; a field and an item are never compared, as no tree has
both. -/
theorem before_cases {s t : Step} (hs : v.enter? s = some u) (ht : v.enter? t = some w) :
    s.Before t ∨ s = t ∨ t.Before s := by
  cases v with
  | null | bool | number | string => cases hs
  | list vs =>
    cases s with
    | field => cases hs
    | item i =>
      cases t with
      | field => cases ht
      | item j => exact (Nat.lt_trichotomy i j).imp_right (Or.imp_left (congrArg Step.item))
  | map fs =>
    cases s with
    | item => cases hs
    | field k =>
      cases t with
      | item => cases ht
      | field l =>
        by_cases hkl : k < l
        · exact .inl hkl
        · by_cases hlk : l < k
          · exact .inr (.inr hlk)
          · have heq := String.le_antisymm (String.not_lt.mp hlk) (String.not_lt.mp hkl)
            exact .inr (.inl (congrArg Step.field heq))

theorem sizeOf_enter? {step : Step} (h : v.enter? step = some u) : sizeOf u < sizeOf v := by
  cases v with
  | null | bool | number | string => cases h
  | list vs =>
    cases step with
    | field => cases h
    | item i =>
      have := List.sizeOf_lt_of_mem (List.mem_of_getElem? h)
      simp only [Value.list.sizeOf_spec]
      omega
  | map fs =>
    cases step with
    | item => cases h
    | field k =>
      have := List.sizeOf_lt_of_mem (Fields.get?_eq_some_mem h)
      simp only [Value.map.sizeOf_spec, Prod.mk.sizeOf_spec] at this ⊢
      omega

/-- To prove something of all trees, prove it of a tree whose parts, one step down, have it. One
case instead of one for each constructor and two for lists of them. -/
theorem induct {P : Value → Prop}
    (h : ∀ v, (∀ step u, v.enter? step = some u → P u) → P v) (v : Value) : P v :=
  h v fun _ u _ => induct h u
termination_by sizeOf v
decreasing_by exact sizeOf_enter? ‹_›

/-! ## Trees that do not resolve -/

theorem resolveItems_eq_error {s : Status} {vs : List Value} (h : resolveItems m vs = .error s) :
    ∃ (i : Nat) (v : Value), vs[i]? = some v ∧ v.resolve m = .error s ∧
      ∀ (j : Nat) (u : Value), j < i → vs[j]? = some u → ∃ w, u.resolve m = .ok w := by
  induction vs with
  | nil => cases h
  | cons v vs ih =>
    rcases resolveItems_cons_eq_error.mp h with hv | ⟨hv, hvs⟩
    · exact ⟨0, v, rfl, hv, fun _ _ hj => absurd hj (Nat.not_lt_zero _)⟩
    · obtain ⟨i, x, hx, hs, hbefore⟩ := ih hvs
      refine ⟨i + 1, x, hx, hs, fun j u hj hu => ?_⟩
      cases j with
      | zero =>
        cases hu
        exact hv
      | succ j => exact hbefore j u (Nat.lt_of_succ_lt_succ hj) hu

theorem resolveFields_eq_error {s : Status} {fs : List (String × Value)} (hfs : Fields.Sorted fs)
    (h : resolveFields m fs = .error s) :
    ∃ k v, Fields.get? k fs = some v ∧ v.resolve m = .error s ∧
      ∀ l u, l < k → Fields.get? l fs = some u → ∃ w, u.resolve m = .ok w := by
  induction fs with
  | nil => cases h
  | cons f fs ih =>
    obtain ⟨n, v⟩ := f
    obtain ⟨hn, hfs⟩ := List.pairwise_cons.mp hfs
    rcases resolveFields_cons_eq_error.mp h with hv | ⟨hv, hrest⟩
    · refine ⟨n, v, by simp, hv, fun l u hl hu => ?_⟩
      -- all other keys are greater
      rw [Fields.get?_cons, if_neg (fun he : n = l => String.lt_irrefl l (he ▸ hl))] at hu
      exact absurd (hn _ (Fields.get?_eq_some_mem hu)) (String.lt_asymm hl)
    · obtain ⟨k, x, hx, hs, hbefore⟩ := ih hfs hrest
      have hnk : n ≠ k := fun he =>
        String.lt_irrefl _ (he ▸ hn _ (Fields.get?_eq_some_mem hx) : k < k)
      refine ⟨k, x, by rw [Fields.get?_cons, if_neg hnk, hx], hs, fun l u hl hu => ?_⟩
      rw [Fields.get?_cons] at hu
      split at hu
      · cases hu
        exact hv
      · exact hbefore l u hl hu

/-- A tree that does not resolve is a reference that leads nowhere, or has a part that does not
resolve after parts that do. `Ordered` is what makes the fields come in the order of
`Step.Before`. -/
theorem error_cases {s : Status} (hv : v.Ordered) (h : v.resolve m = .error s) :
    (∃ body, v = .string (Reference.marker ++ body) ∧ Reference.find? m body = none ∧
      s = .unresolved (Reference.key body) body) ∨
    ∃ step u, v.enter? step = some u ∧ u.resolve m = .error s ∧
      ∀ t x, t.Before step → v.enter? t = some x → ∃ w, x.resolve m = .ok w := by
  cases v with
  | null | bool | number => cases h
  | string text =>
    simp only [resolve] at h
    split at h
    · next body hb =>
      obtain rfl := Reference.body?_eq_some_iff.mp hb
      exact .inl ⟨body, rfl, Reference.error_of_lookUp h⟩
    · cases h
  | list vs =>
    obtain ⟨i, u, hu, hs, hbefore⟩ := resolveItems_eq_error (resolve_list_eq_error.mp h)
    refine .inr ⟨.item i, u, hu, hs, fun t x ht hx => ?_⟩
    cases t with
    | field => cases hx
    | item j => exact hbefore j x ht hx
  | map fs =>
    obtain ⟨k, u, hu, hs, hbefore⟩ := resolveFields_eq_error hv.1 (resolve_map_eq_error.mp h)
    refine .inr ⟨.field k, u, hu, hs, fun t x ht hx => ?_⟩
    cases t with
    | item => cases hx
    | field l => exact hbefore l x ht hx

/-- A reference at a place that leads nowhere. -/
structure Unresolved (m : Index) (v : Value) (place : Place) (body : String) : Prop where
  stands : v.at? place = some (.string (Reference.marker ++ body))
  missing : Reference.find? m body = none

/-- The reference that leads nowhere and is visited before all others that do. -/
structure FirstUnresolved (m : Index) (v : Value) (place : Place) (body : String) : Prop where
  unresolved : Unresolved m v place body
  first : ∀ p b, Unresolved m v p b → p = place ∨ place.Before p

/-- Where a tree resolves, each of its references names something, by `at?_resolve` at the place
where it stands. -/
theorem isSome_find_of_resolve (h : v.resolve m = .ok w) {place : Place} {body : String}
    (hp : v.at? place = some (.string (Reference.marker ++ body))) :
    (Reference.find? m body).isSome = true := by
  have hat := at?_resolve h place
  rw [hp] at hat
  generalize w.at? place = x at hat
  cases hat with
  | some hr =>
    simp only [resolve, Reference.body?_marker] at hr
    rw [Reference.lookUp_eq_ok.mp hr]
    rfl

theorem not_unresolved (h : v.resolve m = .ok w) {place : Place} {body : String} :
    ¬ Unresolved m v place body := by
  intro hu
  have := isSome_find_of_resolve h hu.stands
  rw [hu.missing] at this
  cases this

/-- There is one first reference, as `Place.Before` is asymmetric; so the status is determined. -/
theorem FirstUnresolved.unique {place p : Place} {body b : String}
    (h : FirstUnresolved m v place body) (h' : FirstUnresolved m v p b) : body = b := by
  have hp : p = place := by
    rcases h.first p b h'.unresolved with hp | hp
    · exact hp
    · rcases h'.first place body h.unresolved with hp' | hp'
      · exact hp'.symm
      · exact absurd hp' ((List.Lex.asymm Step.Before).asymm _ _ hp)
  subst hp
  have := h.unresolved.stands.symm.trans h'.unresolved.stands
  exact (String.append_right_inj _).mp (Value.string.inj (Option.some.inj this))

/-- The half with the argument: the way to the reference is built step by step, and what is visited
before each step resolves. -/
theorem exists_firstUnresolved {s : Status} (hv : v.Ordered) (h : v.resolve m = .error s) :
    ∃ place body, FirstUnresolved m v place body ∧ s = .unresolved (Reference.key body) body := by
  induction v using induct with
  | h v ih =>
    -- either this is the reference, or one part holds it and all that is visited before resolves
    rcases error_cases hv h with ⟨body, rfl, hb, rfl⟩ | ⟨step, u, hu, hs, hbefore⟩
    · refine ⟨[], body, ⟨⟨rfl, hb⟩, fun p b hp => ?_⟩, rfl⟩
      cases p with
      | nil => exact .inl rfl
      | cons => cases hp.stands
    · obtain ⟨place, body, hfirst, rfl⟩ := ih step u hu (hv.enter? hu) hs
      refine ⟨step :: place, body, ⟨⟨?_, hfirst.unresolved.missing⟩, fun p b hp => ?_⟩, rfl⟩
      · rw [at?_cons, hu]
        exact hfirst.unresolved.stands
      · cases p with
        | nil =>
          cases hp.stands
          cases hu
        | cons t p =>
          obtain ⟨x, hx, hp'⟩ := Option.bind_eq_some_iff.mp (at?_cons v t p ▸ hp.stands)
          -- another reference that leads nowhere: before this part, in it, or behind it
          rcases before_cases hx hu with ht | rfl | ht
          · obtain ⟨w, hw⟩ := hbefore t x ht hx
            exact absurd ⟨hp', hp.missing⟩ (not_unresolved hw)
          · cases hx.symm.trans hu
            exact (hfirst.first p b ⟨hp', hp.missing⟩).imp (congrArg (List.cons t)) .cons
          · exact .inr (.rel ht)

/-- A tree does not resolve if and only if a reference leads nowhere, and the status tells of the
first one in `Place.Before`. -/
theorem resolve_eq_error_iff {s : Status} (hv : v.Ordered) : v.resolve m = .error s ↔
    ∃ place body, FirstUnresolved m v place body ∧ s = .unresolved (Reference.key body) body := by
  refine ⟨exists_firstUnresolved hv, ?_⟩
  rintro ⟨place, body, hfirst, rfl⟩
  cases h : v.resolve m with
  | ok w => exact absurd hfirst.unresolved (not_unresolved h)
  | error s =>
    obtain ⟨p, b, hfirst', rfl⟩ := exists_firstUnresolved hv h
    rw [hfirst.unique hfirst']

end Value

namespace Attributes

variable {m : Index} {a : Attributes}

/-- A tree resolves if and only if none of its references is `Unresolved`. -/
theorem resolve_ok_iff (ha : a.Ordered) :
    (∃ r, a.resolve m = .ok r) ↔ ∀ place body, ¬ Value.Unresolved m (.map a) place body := by
  constructor
  · rintro ⟨r, h⟩ place body
    exact Value.not_unresolved (Value.resolve_map.mpr ⟨r, h, rfl⟩)
  · intro h
    cases hr : a.resolve m with
    | ok r => exact ⟨r, rfl⟩
    | error s =>
      obtain ⟨place, body, hfirst, -⟩ :=
        Value.exists_firstUnresolved ha (Value.resolve_map_eq_error.mpr hr)
      exact absurd hfirst.unresolved (h place body)

/-- **References put in place.** A tree resolves if and only if each string with the marker names a
scalar. Then the resolved tree has at each place what `Replaced` says: the scalar for such a string,
a container of the same shape, any other leaf as it was. Otherwise the status tells of the first
such string that names nothing, with maps visited in the order of their keys and lists in that of
their items. -/
theorem resolve_places (m : Index) (a : Attributes) (ha : a.Ordered) :
    ((∃ r, a.resolve m = .ok r) ↔ ∀ place body,
      (Value.map a).at? place = some (.string (Reference.marker ++ body)) →
        ∃ v, Reference.lookUp m body = .ok v) ∧
    (∀ r, a.resolve m = .ok r → ∀ place,
      Option.Rel (Value.Replaced m) ((Value.map a).at? place) ((Value.map r).at? place)) ∧
    ∀ s, a.resolve m = .error s ↔ ∃ place body,
      Value.FirstUnresolved m (.map a) place body ∧ s = .unresolved (Reference.key body) body := by
  refine ⟨?_, fun r h place => ?_, fun s => ?_⟩
  · rw [resolve_ok_iff ha]
    refine forall₂_congr fun place body => ⟨fun h hp => ?_, fun h hu => ?_⟩
    · cases hb : Reference.find? m body with
      | none => exact absurd ⟨hp, hb⟩ h
      | some v => exact ⟨v, Reference.lookUp_eq_ok.mpr hb⟩
    · obtain ⟨v, hv⟩ := h hu.stands
      cases hu.missing.symm.trans (Reference.lookUp_eq_ok.mp hv)
  · have hat := Value.at?_resolve (Value.resolve_map.mpr ⟨r, h, rfl⟩) place
    generalize (Value.map a).at? place = x at hat
    generalize (Value.map r).at? place = y at hat
    cases hat with
    | none => exact .none
    | some h => exact .some (Value.replaced_of_resolve h)
  · exact Value.resolve_map_eq_error.symm.trans (Value.resolve_eq_error_iff ha)

/-- Something to refer to. -/
def rackIndex : Index := .ofResources [⟨"web", "Local", [("port", .number (.int 80))], []⟩]

/-- Two references, the first of them below a list. -/
def rack : Attributes :=
  [("a", .list [.bool true, .map [("p", .string "$converge_path.web.port")]]),
    ("b", .string "$converge_path.db.host")]

theorem resolve_places_rack :
    rack.Ordered ∧ rack.resolve rackIndex = .error (.unresolved "db" "db.host") ∧
      rack.resolve .empty = .error (.unresolved "web" "web.port") ∧
      ∀ m ∈ [rackIndex, .empty], ∃ place body, Value.FirstUnresolved m (.map rack) place body := by
  have hlist : (Value.list [.bool true, .map [("p", .string "$converge_path.web.port")]]).Ordered :=
    ⟨trivial, ⟨List.pairwise_singleton _ _, trivial, trivial⟩, trivial⟩
  have hrack : rack.Ordered := ⟨List.pairwise_pair.mpr (by decide), hlist, trivial, trivial⟩
  have hfull : rack.resolve rackIndex = .error (.unresolved "db" "db.host") := by decide +kernel
  have hempty : rack.resolve .empty = .error (.unresolved "web" "web.port") := by decide +kernel
  refine ⟨hrack, hfull, hempty, fun m hm => ?_⟩
  obtain ⟨s, hs⟩ : ∃ s, rack.resolve m = .error s := by
    rcases List.mem_pair.mp hm with rfl | rfl
    · exact ⟨_, hfull⟩
    · exact ⟨_, hempty⟩
  obtain ⟨place, body, hfirst, -⟩ := ((resolve_places m rack hrack).2.2 s).mp hs
  exact ⟨place, body, hfirst⟩

end Attributes

end Provision
