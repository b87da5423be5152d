import Mathlib.Data.List.Forall2
import Provision.Proofs.Attributes.Substitution
import Provision.Proofs.Text.Digits
import Provision.Proofs.Text.Pieces

/-!
# What references address

* `Value.Step.SpeltBy`: the texts that stand for a step into a tree; `Value.Step.text` is one.
* `Reference.foldlM_descend_eq_some_iff`: segments lead to what stands at a place that they spell.
* `Reference.lookUp_places`: so a body names a scalar if and only if its segments are the key of a
  resource and the spelling of the scalar's place, and each scalar has such a body.
-/

namespace Provision

namespace Value

/-- Whether a text stands for a step: a key for itself, a position for each of its numerals that
64 bits hold. -/
def Step.SpeltBy : Step → String → Prop
  | .field key, segment => segment = key
  | .item position, segment => position < UInt64.size ∧ Text.IsNumeral position segment

/-- The shortest text that stands for a step. -/
def Step.text : Step → String
  | .field key => key
  | .item position => toString position

/-- The texts of the steps to a place, joined by dots. -/
def Place.path (place : Place) : String := String.intercalate "." (place.map Step.text)

/-- What can be written between dots: keys without dots and positions that 64 bits hold. -/
def Step.IsPlain : Step → Prop
  | .field key => '.' ∉ key.toList
  | .item position => position < UInt64.size

theorem Step.IsPlain.speltBy_text {step : Step} (h : step.IsPlain) : step.SpeltBy step.text := by
  cases step with
  | field key => rfl
  | item position => exact ⟨h, Text.isNumeral_toString position⟩

theorem Step.IsPlain.not_mem_text {step : Step} (h : step.IsPlain) : '.' ∉ step.text.toList := by
  cases step with
  | field key => exact h
  | item position =>
    intro hdot
    have htext : (Step.item position).text.toList = Nat.toDigits 10 position := by simp [text]
    rw [htext] at hdot
    exact absurd (Nat.isDigit_of_mem_toDigits (by decide) (by decide) hdot) (by decide)

end Value

namespace Reference

variable {m : Index} {body : String} {v w : Value}

/-- `descend` is `Value.enter?` along a step that the segment spells. Whether a segment is a key or
a position is decided by the tree, not by the segment. -/
theorem descend_eq_some_iff {segment : String} :
    descend v segment = some w ↔ ∃ step, step.SpeltBy segment ∧ v.enter? step = some w := by
  cases v with
  | null | bool | number | string => exact ⟨nofun, fun ⟨_, _, h⟩ => nomatch h⟩
  | list items =>
    simp only [descend, Option.bind_eq_some_iff, Text.natural?_eq_some_iff]
    constructor
    · rintro ⟨i, hi, hw⟩
      exact ⟨.item i, hi, hw⟩
    · rintro ⟨_ | i, hi, hw⟩
      · cases hw
      · exact ⟨i, hi, hw⟩
  | map fields =>
    constructor
    · intro h
      exact ⟨.field segment, rfl, h⟩
    · rintro ⟨key | i, hkey, hw⟩
      · cases hkey
        exact hw
      · cases hw

/-- Segments lead to what stands `at?` a place that they spell, step by step (`List.Forall₂`). -/
theorem foldlM_descend_eq_some_iff {segments : List String} :
    segments.foldlM descend v = some w ↔
      ∃ place, List.Forall₂ Value.Step.SpeltBy place segments ∧ v.at? place = some w := by
  induction segments generalizing v with
  | nil =>
    constructor
    · intro h
      exact ⟨[], .nil, h⟩
    · rintro ⟨place, hplace, h⟩
      cases hplace
      exact h
  | cons segment segments ih =>
    rw [List.foldlM_cons, Option.bind_eq_bind, Option.bind_eq_some_iff]
    constructor
    · rintro ⟨u, hu, hw⟩
      obtain ⟨step, hstep, hu⟩ := descend_eq_some_iff.mp hu
      obtain ⟨place, hplace, hw⟩ := ih.mp hw
      refine ⟨step :: place, .cons hstep hplace, ?_⟩
      rw [Value.at?_cons, hu]
      exact hw
    · rintro ⟨_, hplace, hw⟩
      obtain _ | ⟨hstep, hplace⟩ := hplace
      obtain ⟨u, hu, hw⟩ := Option.bind_eq_some_iff.mp hw
      exact ⟨u, descend_eq_some_iff.mpr ⟨_, hstep, hu⟩, ih.mpr ⟨_, hplace, hw⟩⟩

/-- `find?` treats the first segment after the key on its own; in fact all of them are followed from
the attributes as one map. -/
theorem find?_eq_some_iff : find? m body = some v ↔ ∃ key segments r,
    dotted body = key :: segments ∧ segments ≠ [] ∧ m.get? key = some r ∧
      segments.foldlM descend (.map r.attributes) = some v ∧ v.isScalar = true := by
  unfold find?
  split
  · next key first rest hd =>
    simp only [hd, Option.bind_eq_bind, Option.bind_eq_some_iff]
    constructor
    · rintro ⟨r, hr, top, htop, u, hu, hv⟩
      split at hv
      · next hs =>
        obtain rfl := Option.some.inj hv
        refine ⟨key, first :: rest, r, rfl, List.cons_ne_nil _ _, hr, ?_, hs⟩
        exact Option.bind_eq_some_iff.mpr ⟨top, htop, hu⟩
      · cases hv
    · rintro ⟨_, _, r, hsegments, -, hr, hv, hs⟩
      obtain ⟨rfl, rfl⟩ := List.cons.inj hsegments
      obtain ⟨top, htop, hv⟩ := Option.bind_eq_some_iff.mp hv
      exact ⟨r, hr, top, htop, v, hv, if_pos hs⟩
  · next hshort =>
    refine ⟨nofun, ?_⟩
    rintro ⟨key, _ | ⟨first, rest⟩, r, hd, hne, -⟩
    · exact absurd rfl hne
    · exact absurd hd (hshort key first rest)

/-- The first half of `lookUp_places`: `dotted` is replaced by `String.intercalate`, and `descend`
by places. -/
theorem lookUp_eq_ok_iff : lookUp m body = .ok v ↔ ∃ key segments r place,
    body = String.intercalate "." (key :: segments) ∧
    (∀ segment ∈ key :: segments, '.' ∉ segment.toList) ∧ segments ≠ [] ∧
    m.get? key = some r ∧ List.Forall₂ Value.Step.SpeltBy place segments ∧
    (Value.map r.attributes).at? place = some v ∧ v.isScalar = true := by
  rw [lookUp_eq_ok, find?_eq_some_iff]
  constructor
  · rintro ⟨key, segments, r, hd, hne, hr, hv, hs⟩
    obtain ⟨-, hdots, rfl⟩ := dotted_eq_iff.mp hd
    obtain ⟨place, hplace, hv⟩ := foldlM_descend_eq_some_iff.mp hv
    exact ⟨key, segments, r, place, rfl, hdots, hne, hr, hplace, hv, hs⟩
  · rintro ⟨key, segments, r, place, rfl, hdots, hne, hr, hplace, hv, hs⟩
    have hd := dotted_eq_iff.mpr ⟨List.cons_ne_nil _ _, hdots, rfl⟩
    have hv := foldlM_descend_eq_some_iff.mpr ⟨place, hplace, hv⟩
    exact ⟨key, segments, r, hd, hne, hr, hv, hs⟩

/-- The body of a `literal` is the key and the texts of the steps, in dots. For an empty place there
would be a dot too many. -/
theorem body?_literal (key : String) {place : Value.Place} (hne : place ≠ []) :
    body? (literal key place.path) =
      some (String.intercalate "." (key :: place.map Value.Step.text)) := by
  rw [body?_eq_some_iff, String.intercalate_cons_of_ne_nil (by simpa using hne)]
  simp [literal, Value.Place.path, String.append_assoc]

/-- **Addresses.** `lookUp` names a scalar if and only if the body is the key of a resource that is
there and at least one more segment, and the segments spell the place of the scalar: maps are
entered by the segment as it is, also if it is empty, and lists by any numeral of a position.
Conversely each scalar has such a body, if no key on its way has a dot (`Step.IsPlain`). -/
theorem lookUp_places (m : Index) :
    (∀ body v, lookUp m body = .ok v ↔ ∃ key segments r place,
      body = String.intercalate "." (key :: segments) ∧
      (∀ segment ∈ key :: segments, '.' ∉ segment.toList) ∧ segments ≠ [] ∧
      m.get? key = some r ∧ List.Forall₂ Value.Step.SpeltBy place segments ∧
      (Value.map r.attributes).at? place = some v ∧ v.isScalar = true) ∧
    ∀ key r place v, '.' ∉ key.toList → m.get? key = some r →
      (Value.map r.attributes).at? place = some v → v.isScalar = true →
      (∀ step ∈ place, step.IsPlain) →
      ∃ body, body? (literal key (Value.Place.path place)) = some body ∧
        lookUp m body = .ok v := by
  refine ⟨fun body v => lookUp_eq_ok_iff, fun key r place v hkey hr hv hs hplain => ?_⟩
  -- the attributes themselves are no scalar
  have hne : place ≠ [] := by
    rintro rfl
    cases hv
    cases hs
  refine ⟨_, body?_literal key hne, lookUp_eq_ok_iff.mpr
    ⟨key, place.map Value.Step.text, r, place, rfl, ?_, by simpa using hne, hr, ?_, hv, hs⟩⟩
  · intro segment hsegment
    rcases List.mem_cons.mp hsegment with rfl | hsegment
    · exact hkey
    · obtain ⟨step, hstep, rfl⟩ := List.mem_map.mp hsegment
      exact (hplain step hstep).not_mem_text
  · rw [List.forall₂_map_right_iff, List.forall₂_same]
    exact fun step hstep => (hplain step hstep).speltBy_text

example : [("web.ports.1", "443"), ("web.ports.+01", "443"), ("web..", "80")].all (fun p =>
    lookUp (.ofResources [⟨"web", "Local", [("", .map [("", .string "80")]),
      ("ports", .list [.string "80", .string "443"])], []⟩]) p.1 == .ok (.string p.2)) = true := by
  decide +kernel

end Reference

end Provision
