import Provision.Proofs.Attributes.Prune

/-!
# Places of a pruned tree

A place is reached by steps, into maps by key and into lists by position. Its trace are the keys
among them.

* `Value.without`: drops, in one pass, every field whose trace is dropped.
  `Value.without_without`: two passes are one. `Value.at?_without`: what stands where afterwards.
* `Attributes.prune_eq_withoutFields`: to prune is such a pass; it drops the traces that start with
  one of the paths.
* `Attributes.prune_places`: so pruning drops exactly the places addressed, leaves all others in
  shape, and depends on nothing but the shortest paths that name a field.
-/

namespace Provision

namespace FieldPath

/-- Whether the path leads to a trace or to what stands above it. The empty path leads nowhere. -/
def covers (p : FieldPath) (trace : List String) : Bool :=
  !p.isEmpty && p.segments.isPrefixOf trace

/-- Whether one of the paths covers a trace. -/
def coverAny (ps : List FieldPath) (trace : List String) : Bool := ps.any (·.covers trace)

theorem covers_iff {p : FieldPath} {trace : List String} :
    p.covers trace = true ↔ p.segments ≠ [] ∧ p.segments <+: trace := by
  simp [covers, isEmpty]

/-- The computed form, which `prune` can be compared with, and the form in which statements speak of
paths. -/
theorem coverAny_iff {ps : List FieldPath} {trace : List String} :
    coverAny ps trace = true ↔ ∃ p ∈ ps, p.segments ≠ [] ∧ p.segments <+: trace := by
  simp [coverAny, covers_iff]

theorem coverAny_nil (ps : List FieldPath) : coverAny ps [] = false := by
  rw [Bool.eq_false_iff]
  intro h
  obtain ⟨p, -, hne, hp⟩ := coverAny_iff.mp h
  exact hne (List.prefix_nil.mp hp)

theorem coverAny_append {ps : List FieldPath} {trace : List String}
    (h : coverAny ps trace = true) (more : List String) : coverAny ps (trace ++ more) = true := by
  obtain ⟨p, hp, hne, hprefix⟩ := coverAny_iff.mp h
  exact coverAny_iff.mpr ⟨p, hp, hne, hprefix.trans (List.prefix_append ..)⟩

/-- Paths that extend others of the list add nothing to what is covered. -/
theorem coverAny_of_extends {ps qs : List FieldPath}
    (h : ∀ p ∈ ps, p.segments ≠ [] → ∃ q ∈ qs, q.segments ≠ [] ∧ q.segments <+: p.segments)
    {trace : List String} (hp : coverAny ps trace = true) : coverAny qs trace = true := by
  obtain ⟨p, hp, hne, hprefix⟩ := coverAny_iff.mp hp
  obtain ⟨q, hq, hqne, hqp⟩ := h p hp hne
  exact coverAny_iff.mpr ⟨q, hq, hqne, hqp.trans hprefix⟩

end FieldPath

namespace Value

/-! ## Places -/

/-- A step into a tree. -/
inductive Step where
  | field (key : String)
  | item (position : Nat)
deriving DecidableEq

/-- The key of a step into a map. -/
def Step.key? : Step → Option String
  | .field key => some key
  | .item _ => none

/-- The steps that lead to a place. -/
abbrev Place := List Step

/-- The keys on the way to a place. -/
def Place.trace (place : Place) : List String := place.filterMap Step.key?

@[simp] theorem Place.trace_nil : Place.trace [] = [] := rfl

@[simp] theorem Place.trace_field (key : String) (place : Place) :
    Place.trace (.field key :: place) = key :: place.trace := rfl

@[simp] theorem Place.trace_item (position : Nat) (place : Place) :
    Place.trace (.item position :: place) = place.trace := rfl

/-- What stands one step into a tree. -/
def enter? : Value → Step → Option Value
  | .map fields, .field key => Fields.get? key fields
  | .list items, .item position => items[position]?
  | _, _ => none

/-- What stands at a place. -/
def at? (v : Value) (place : Place) : Option Value := place.foldlM enter? v

@[simp] theorem at?_nil (v : Value) : v.at? [] = some v := rfl

theorem at?_cons (v : Value) (step : Step) (place : Place) :
    v.at? (step :: place) = (v.enter? step).bind (·.at? place) := rfl

/-! ## Dropping by trace -/

mutual

/-- Drops every field whose trace is dropped. -/
def without (dropped : List String → Bool) : Value → Value
  | .list items => .list (withoutItems dropped items)
  | .map fields => .map (withoutFields dropped fields)
  | v => v

/-- `without`, of every item. -/
def withoutItems (dropped : List String → Bool) : List Value → List Value
  | [] => []
  | v :: vs => v.without dropped :: withoutItems dropped vs

/-- `without`, of the fields that are left. -/
def withoutFields (dropped : List String → Bool) :
    List (String × Value) → List (String × Value)
  | [] => []
  | (k, v) :: fs =>
    if dropped [k] then withoutFields dropped fs
    else (k, v.without fun trace => dropped (k :: trace)) :: withoutFields dropped fs

end

variable {dropped : List String → Bool}

theorem withoutItems_eq_map (vs : List Value) :
    withoutItems dropped vs = vs.map (·.without dropped) := by
  induction vs with
  | nil => rfl
  | cons v vs ih => simp [withoutItems, ih]

theorem get?_withoutFields (key : String) (fs : List (String × Value)) :
    Fields.get? key (withoutFields dropped fs) =
      if dropped [key] then none
      else (Fields.get? key fs).map (·.without fun trace => dropped (key :: trace)) := by
  induction fs with
  | nil => simp [withoutFields]
  | cons f fs ih =>
    obtain ⟨n, v⟩ := f
    by_cases hn : n = key
    · subst hn
      by_cases hd : dropped [n] = true
      · simpa [withoutFields, hd] using ih
      · simp [withoutFields, hd]
    · by_cases hd : dropped [n] = true <;> simp [withoutFields, hd, hn, ih]

theorem without_of_isScalar {v : Value} (h : v.isScalar = true) : v.without dropped = v := by
  cases v with
  | null | bool | number | string => rfl
  | list | map => cases h

theorem enter?_without_item (v : Value) (position : Nat) :
    (v.without dropped).enter? (.item position) =
      (v.enter? (.item position)).map (·.without dropped) := by
  cases v with
  | list vs => simp [without, enter?, withoutItems_eq_map]
  | null | bool | number | string | map => rfl

theorem enter?_without_field (v : Value) (key : String) :
    (v.without dropped).enter? (.field key) =
      if dropped [key] then none
      else (v.enter? (.field key)).map (·.without fun trace => dropped (key :: trace)) := by
  cases v with
  | map fs => exact get?_withoutFields key fs
  | null | bool | number | string | list => simp [without, enter?]

/-- **What stands where.** There is nothing left at a dropped trace, and at each other place what
stood there, `without` what is dropped below it. `hmore` says that nothing is spared below a dropped
trace; else a field could be gone and a part of it be asked for. -/
theorem at?_without (hnil : dropped [] = false)
    (hmore : ∀ trace more, dropped trace = true → dropped (trace ++ more) = true) (v : Value)
    (place : Place) :
    (v.without dropped).at? place =
      if dropped place.trace then none
      else (v.at? place).map (·.without fun trace => dropped (place.trace ++ trace)) := by
  induction place generalizing v dropped with
  | nil => simp [hnil]
  | cons step place ih =>
    rw [at?_cons, at?_cons]
    cases step with
    | item position =>
      rw [enter?_without_item, Place.trace_item]
      cases v.enter? (.item position) with
      | none => exact (ite_self none).symm
      | some w => exact ih hnil hmore w
    | field key =>
      rw [enter?_without_field, Place.trace_field]
      by_cases hkey : dropped [key] = true
      · have htrace : dropped (key :: Place.trace place) = true := hmore [key] _ hkey
        rw [if_pos hkey, if_pos htrace]
        rfl
      · rw [if_neg hkey]
        cases v.enter? (.field key) with
        | none => exact (ite_self none).symm
        | some w =>
          refine ih ?_ (fun trace more h => hmore (key :: trace) more h) w
          simpa using hkey

/-! ## Two passes, and none -/

mutual

/-- Two passes drop what either of them drops, so a list of paths can be one pass. -/
theorem without_without (d e : List String → Bool) : ∀ v : Value,
    (v.without d).without e = v.without fun trace => d trace || e trace
  | .null | .bool _ | .number _ | .string _ => rfl
  | .list vs => by
    simp only [without]
    rw [withoutItems_withoutItems d e vs]
  | .map fs => by
    simp only [without]
    rw [withoutFields_withoutFields d e fs]

theorem withoutItems_withoutItems (d e : List String → Bool) : ∀ vs : List Value,
    withoutItems e (withoutItems d vs) = withoutItems (fun trace => d trace || e trace) vs
  | [] => rfl
  | v :: vs => by
    simp only [withoutItems]
    rw [without_without d e v, withoutItems_withoutItems d e vs]

theorem withoutFields_withoutFields (d e : List String → Bool) :
    ∀ fs : List (String × Value),
      withoutFields e (withoutFields d fs) = withoutFields (fun trace => d trace || e trace) fs
  | [] => rfl
  | (k, v) :: fs => by
    have ih := withoutFields_withoutFields d e fs
    have hv := without_without (fun trace => d (k :: trace)) (fun trace => e (k :: trace)) v
    by_cases hd : d [k] = true
    · simp [withoutFields, hd, ih]
    · by_cases he : e [k] = true <;> simp [withoutFields, hd, he, ih, hv]

end

mutual

theorem without_false : ∀ v : Value, (v.without fun _ => false) = v
  | .null | .bool _ | .number _ | .string _ => rfl
  | .list vs => by
    simp only [without]
    rw [withoutItems_false vs]
  | .map fs => by
    simp only [without]
    rw [withoutFields_false fs]

theorem withoutItems_false : ∀ vs : List Value, withoutItems (fun _ => false) vs = vs
  | [] => rfl
  | v :: vs => by
    simp only [withoutItems]
    rw [without_false v, withoutItems_false vs]

theorem withoutFields_false : ∀ fs : List (String × Value), withoutFields (fun _ => false) fs = fs
  | [] => rfl
  | (k, v) :: fs => by
    simp [withoutFields, without_false v, withoutFields_false fs]

end

/-! ## One path -/

mutual

/-- `remove`, which cuts the path on its way down, is `without`, which compares whole traces. For
the empty path they differ: `remove` drops nothing then, although every trace starts with it. -/
theorem remove_eq_without {path : List String} (hne : path ≠ []) : ∀ v : Value,
    v.remove path = v.without path.isPrefixOf
  | .null | .bool _ | .number _ | .string _ => rfl
  | .list vs => by
    simp only [remove, without, List.isEmpty_iff, hne, if_false]
    rw [removeItems_eq_withoutItems hne vs]
  | .map fs => by
    simp only [remove, without]
    rw [removeFields_eq_withoutFields hne fs]

theorem removeItems_eq_withoutItems {path : List String} (hne : path ≠ []) : ∀ vs : List Value,
    removeItems path vs = withoutItems path.isPrefixOf vs
  | [] => rfl
  | v :: vs => by
    simp only [removeItems, withoutItems]
    rw [remove_eq_without hne v, removeItems_eq_withoutItems hne vs]

theorem removeFields_eq_withoutFields {path : List String} (hne : path ≠ []) :
    ∀ fs : List (String × Value), removeFields path fs = withoutFields path.isPrefixOf fs
  | [] => by simp [removeFields, withoutFields]
  | (n, v) :: fs => by
    have ih := removeFields_eq_withoutFields hne fs
    obtain ⟨key, rest, rfl⟩ := List.exists_cons_of_ne_nil hne
    by_cases hn : n = key
    · subst hn
      by_cases hrest : rest = []
      · subst hrest
        simpa [removeFields, withoutFields] using ih
      · have hv := remove_eq_without hrest v
        simp [removeFields, withoutFields, hrest, ih, hv]
    · -- the path leads elsewhere, so nothing below this field is dropped
      have hkey : (key == n) = false := beq_eq_false_iff_ne.mpr (Ne.symm hn)
      simp [removeFields, withoutFields, List.isPrefixOf, hn, hkey, ih, without_false]

end

end Value

/-! ## Several paths -/

namespace Attributes

/-- `prune` goes through the tree once for each path; `coverAny` does it once for all. -/
theorem prune_eq_withoutFields (ps : List FieldPath) (a : Attributes) :
    a.prune ps = Value.withoutFields (FieldPath.coverAny ps) a := by
  induction ps generalizing a with
  | nil => exact (Value.withoutFields_false a).symm
  | cons p ps ih =>
    have hone : Value.removeFields p.segments a = Value.withoutFields p.covers a := by
      obtain ⟨segments⟩ := p
      cases segments with
      | nil =>
        rw [Value.removeFields_nil]
        exact (Value.withoutFields_false a).symm
      | cons key rest => exact Value.removeFields_eq_withoutFields (List.cons_ne_nil key rest) a
    rw [prune_cons, ih, hone, Value.withoutFields_withoutFields]
    rfl

/-- Paths that cover the same traces prune alike, in any order and number. -/
theorem prune_congr {ps qs : List FieldPath}
    (h : ∀ trace, FieldPath.coverAny ps trace = FieldPath.coverAny qs trace) (a : Attributes) :
    a.prune ps = a.prune qs := by
  rw [prune_eq_withoutFields, prune_eq_withoutFields, funext h]

/-- `at?_without` for the pass that `prune` is. -/
theorem at?_prune (ps : List FieldPath) (a : Attributes) (place : Value.Place) :
    (Value.map (a.prune ps)).at? place =
      if FieldPath.coverAny ps place.trace then none
      else ((Value.map a).at? place).map
        (·.without fun trace => FieldPath.coverAny ps (place.trace ++ trace)) := by
  rw [prune_eq_withoutFields]
  exact Value.at?_without (FieldPath.coverAny_nil ps)
    (fun trace more h => FieldPath.coverAny_append h more) (.map a) place

/-- **What pruning leaves.** There is something at a place afterwards if and only if there was
before, and no path that names a field is a prefix of its trace. A scalar that is left is what it
was, a list has its items in order and a map is a map, each less what is dropped below. Only the
paths that name a field and extend no other one matter, and pruning once more drops nothing. -/
theorem prune_places (ps : List FieldPath) (a : Attributes) :
    (∀ place, ((Value.map (a.prune ps)).at? place).isSome = true ↔
      ((Value.map a).at? place).isSome = true ∧
        ∀ p ∈ ps, p.segments ≠ [] → ¬ p.segments <+: place.trace) ∧
    (∀ place w, (Value.map (a.prune ps)).at? place = some w →
      ∃ v, (Value.map a).at? place = some v ∧ (v.isScalar = true → w = v) ∧
        (∀ vs, v = .list vs → w = .list (vs.map
          (·.without fun trace => FieldPath.coverAny ps (place.trace ++ trace)))) ∧
        ∀ fs, v = .map fs → ∃ gs, w = .map gs) ∧
    (∀ qs : List FieldPath,
      (∀ p ∈ ps, p.segments ≠ [] → ∃ q ∈ qs, q.segments ≠ [] ∧ q.segments <+: p.segments) →
      (∀ q ∈ qs, q.segments ≠ [] → ∃ p ∈ ps, p.segments ≠ [] ∧ p.segments <+: q.segments) →
      a.prune ps = a.prune qs) ∧
    (a.prune ps).prune ps = a.prune ps := by
  refine ⟨fun place => ?_, fun place w hw => ?_, fun qs hps hqs => ?_, prune_prune ps a⟩
  · have hcover : (∀ p ∈ ps, p.segments ≠ [] → ¬ p.segments <+: place.trace) ↔
        FieldPath.coverAny ps place.trace = false := by
      rw [Bool.eq_false_iff, Ne, FieldPath.coverAny_iff]
      simp
    rw [hcover, at?_prune]
    cases FieldPath.coverAny ps place.trace <;> simp
  · rw [at?_prune] at hw
    split at hw
    · cases hw
    · obtain ⟨v, hv, rfl⟩ := Option.map_eq_some_iff.mp hw
      refine ⟨v, hv, fun hs => Value.without_of_isScalar hs, ?_, ?_⟩
      · rintro vs rfl
        rw [Value.without, Value.withoutItems_eq_map]
      · rintro fs rfl
        exact ⟨_, rfl⟩
  · refine prune_congr (fun trace => ?_) a
    rw [Bool.eq_iff_iff]
    exact ⟨FieldPath.coverAny_of_extends hps, FieldPath.coverAny_of_extends hqs⟩

end Attributes

end Provision
