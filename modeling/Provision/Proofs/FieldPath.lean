import Provision.FieldPath
import Provision.Proofs.Fields
import Provision.Proofs.Text.Pieces
import Provision.Settings

/-!
# Texts of field paths

* `FieldPath.Spells`: the segments that a text spells. They are its pieces between dots, less the
  empty ones; `FieldPath.segments_parse_iff`: they are what is read.
* `FieldPath.parse_text`, `FieldPath.ofJson?_toJson`: a path is what its dotted form and its
  document are read as.
* `FieldPath.parse_round_trips`: so texts are read alike if and only if they spell the same
  segments.
* `Settings.mem_fieldPaths_iff`, `Settings.fieldPaths_texts`: the fields that settings ignore are
  those that the texts spell, and they stay the same when they are written out and read again.
-/

namespace Provision

namespace FieldPath

/-- Whether a text can stand between dots as a segment. -/
def IsSegment (s : String) : Prop := s ≠ "" ∧ '.' ∉ s.toList

instance : DecidablePred IsSegment := fun s => inferInstanceAs (Decidable (s ≠ "" ∧ '.' ∉ s.toList))

/-- Whether a text is made of pieces without dots, with dots between them, of which those that are
not empty are the given segments. -/
def Spells (s : String) (segments : List String) : Prop :=
  ∃ ps : List String, (∀ p ∈ ps, '.' ∉ p.toList) ∧ String.intercalate "." ps = s ∧
    ps.filter (· ≠ "") = segments

variable {s t : String} {segments : List String} {p : FieldPath}

/-- `parse` reads exactly the segments that the text `Spells`, and there is always just one such
list. -/
theorem segments_parse_iff : (parse s).segments = segments ↔ Spells s segments := by
  constructor
  · rintro rfl
    obtain ⟨-, hdots, hs⟩ := dotted_eq_iff.mp (rfl : dotted s = dotted s)
    exact ⟨dotted s, hdots, hs, rfl⟩
  · rintro ⟨ps, hdots, rfl, rfl⟩
    by_cases hne : ps = []
    · -- the empty text, which has an empty piece, is made of no pieces just as well
      subst hne
      rfl
    · rw [parse, dotted_eq_iff.mpr ⟨hne, hdots, rfl⟩]

instance : Decidable (Spells s segments) := decidable_of_iff _ segments_parse_iff

example : Spells ".spec...ports." ["spec", "ports"] ∧ ¬ Spells "spec" ["spec", ""] := by decide

theorem Spells.isSegment (h : Spells s segments) : ∀ segment ∈ segments, IsSegment segment := by
  obtain ⟨ps, hdots, -, rfl⟩ := h
  intro segment hsegment
  obtain ⟨hmem, hne⟩ := List.mem_filter.mp hsegment
  exact ⟨of_decide_eq_true hne, hdots segment hmem⟩

/-- Segments with dots between them spell themselves. `IsSegment` is needed for both halves: an
empty segment would be dropped, and one with a dot cut in two. -/
theorem spells_intercalate (h : ∀ segment ∈ segments, IsSegment segment) :
    Spells (String.intercalate "." segments) segments := by
  refine ⟨segments, fun segment hs => (h segment hs).2, rfl, ?_⟩
  exact List.filter_eq_self.mpr fun segment hs => decide_eq_true (h segment hs).1

theorem parse_iff : parse s = p ↔ Spells s p.segments := by
  rw [← segments_parse_iff]
  exact ⟨congrArg segments, congrArg mk⟩

/-- Texts are read alike if and only if they spell the same segments; dots at the ends and dots in a
row are the only freedom. -/
theorem parse_eq_iff : parse s = parse t ↔ ∃ segments, Spells s segments ∧ Spells t segments := by
  constructor
  · intro h
    exact ⟨(parse t).segments, parse_iff.mp h, parse_iff.mp rfl⟩
  · rintro ⟨segments, hs, ht⟩
    exact parse_iff.mpr (segments_parse_iff.mpr ht ▸ hs)

/-! ## Reading what was written -/

/-- `parse` reads the `text` of a path as that path. -/
theorem parse_text (h : ∀ segment ∈ p.segments, IsSegment segment) : parse p.text = p :=
  parse_iff.mpr (spells_intercalate h)

/-- The document of a path is its `text`, so this is `parse_text`. -/
theorem ofJson?_toJson (h : ∀ segment ∈ p.segments, IsSegment segment) :
    ofJson? p.toJson = some p := by
  rw [toJson, ofJson?, Json.string?, Option.map_some, parse_text h]

/-- **Paths and their texts.** What `parse` reads has proper segments, and comes back from its
dotted form and from its document. Any proper segments can be written with dots between them. A text
is read as its pieces between dots that are not empty, so two texts are read alike if and only if
they have the same such pieces. -/
theorem parse_round_trips :
    (∀ s, (∀ segment ∈ (parse s).segments, IsSegment segment) ∧
      parse (parse s).text = parse s ∧ ofJson? (parse s).toJson = some (parse s)) ∧
    (∀ segments : List String, (∀ segment ∈ segments, IsSegment segment) →
      (parse (String.intercalate "." segments)).segments = segments) ∧
    (∀ s segments, (parse s).segments = segments ↔ Spells s segments) ∧
    ∀ s t, parse s = parse t ↔ ∃ segments, Spells s segments ∧ Spells t segments := by
  refine ⟨fun s => ?_, fun segments h => ?_, fun s segments => segments_parse_iff,
    fun s t => parse_eq_iff⟩
  · have hparse : ∀ segment ∈ (parse s).segments, IsSegment segment :=
      (parse_iff.mp rfl).isSegment
    exact ⟨hparse, parse_text hparse, ofJson?_toJson hparse⟩
  · exact segments_parse_iff.mpr (spells_intercalate h)

theorem parse_round_trips_ports :
    (∀ segment ∈ ["spec", "ports"], IsSegment segment) ∧
      (parse (String.intercalate "." ["spec", "ports"])).segments = ["spec", "ports"] ∧
      parse "spec.ports" = parse ".spec...ports." := by
  have hsegments : ∀ segment ∈ ["spec", "ports"], IsSegment segment := by decide
  obtain ⟨-, hjoined, -, halike⟩ := parse_round_trips
  have hspells : Spells ".spec...ports." ["spec", "ports"] :=
    ⟨["", "spec", "", "", "ports", ""], by decide, by decide, by decide⟩
  exact ⟨hsegments, hjoined _ hsegments,
    (halike _ _).mpr ⟨_, spells_intercalate hsegments, hspells⟩⟩

end FieldPath

/-! ## Ignored fields -/

namespace Settings

variable {texts : List String} {p : FieldPath}

/-- The ignored fields are those that one of the texts `Spells`. A text of dots only spells no
segment, and would mean the whole tree; `fieldPaths` leaves it out. -/
theorem mem_fieldPaths_iff : p ∈ fieldPaths texts ↔
    p.segments ≠ [] ∧ ∃ s ∈ texts, FieldPath.Spells s p.segments := by
  unfold fieldPaths
  rw [List.mem_eraseDups, List.mem_filter, List.mem_map, and_comm]
  refine and_congr (by simp [FieldPath.isEmpty]) (exists_congr fun s => ?_)
  rw [FieldPath.parse_iff]

/-- Ignored fields stand once each, and stay the same when they are written out with
`FieldPath.text` and read again. -/
theorem fieldPaths_texts (texts : List String) :
    (fieldPaths texts).Nodup ∧
      fieldPaths ((fieldPaths texts).map FieldPath.text) = fieldPaths texts := by
  have hnodup : (fieldPaths texts).Nodup := nodup_eraseDups _
  have hread : ((fieldPaths texts).map FieldPath.text).map FieldPath.parse = fieldPaths texts := by
    rw [List.map_map]
    refine (List.map_congr_left fun p hp => ?_).trans (List.map_id _)
    obtain ⟨-, s, -, hs⟩ := mem_fieldPaths_iff.mp hp
    exact FieldPath.parse_text hs.isSegment
  have hnamed : (fieldPaths texts).filter (!·.isEmpty) = fieldPaths texts := by
    refine List.filter_eq_self.mpr fun p hp => ?_
    simpa [FieldPath.isEmpty] using (mem_fieldPaths_iff.mp hp).1
  refine ⟨hnodup, ?_⟩
  conv => lhs; rw [fieldPaths, hread, hnamed]
  exact eraseDups_of_nodup hnodup

end Settings

end Provision
