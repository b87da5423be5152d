import Provision.FieldPath
import Provision.Path

/-!
# Texts between separators

* `ofList_splitOn_eq_iff`: what the pieces of a text between separators are. `dotted_eq_iff`,
  `Path.parts_eq_iff`: so for the two kinds of text that are cut.
* `dotted_of_not_mem`, `dotted_append`, `Path.parts_of_not_mem`, `Path.parts_append`: the pieces of
  what has no separator, and those on the two sides of one.
-/

namespace Provision

section

variable {α : Type} [DecidableEq α] {sep : α}

/-- The library has `List.intercalate_splitOn`, that no piece is lost, but not that no piece holds
the separator. -/
theorem not_mem_of_mem_splitOn {xs p : List α} (h : p ∈ xs.splitOn sep) : sep ∉ p := by
  induction xs generalizing p with
  | nil =>
    rw [List.splitOn_nil, List.mem_singleton] at h
    subst h
    exact List.not_mem_nil
  | cons x xs ih =>
    rw [List.splitOn_cons_eq_if_modifyHead] at h
    split at h
    · rcases List.mem_cons.mp h with rfl | h
      · exact List.not_mem_nil
      · exact ih h
    · next hx =>
      have hx : sep ≠ x := fun he => hx (beq_iff_eq.mpr he.symm)
      obtain ⟨q, qs, hq⟩ := List.exists_cons_of_ne_nil (List.splitOn_ne_nil sep xs)
      rw [hq] at h ih
      rcases List.mem_cons.mp h with rfl | h
      · exact List.not_mem_cons_of_ne_of_not_mem hx (ih List.mem_cons_self)
      · exact ih (List.mem_cons_of_mem q h)

/-- `List.splitOn` gives the one way to put a list together from pieces without the separator. The
empty list is one empty piece, hence `ps ≠ []`. -/
theorem splitOn_eq_iff {xs : List α} {ps : List (List α)} : xs.splitOn sep = ps ↔
    ps ≠ [] ∧ (∀ p ∈ ps, sep ∉ p) ∧ [sep].intercalate ps = xs := by
  constructor
  · rintro rfl
    exact ⟨List.splitOn_ne_nil sep xs, fun p => not_mem_of_mem_splitOn,
      List.intercalate_splitOn sep⟩
  · rintro ⟨hne, hsep, rfl⟩
    exact List.splitOn_intercalate sep hsep hne

end

section

variable {sep : Char} {s : String}

/-- `splitOn_eq_iff` for the pieces of a text as texts, put together with `String.intercalate`. -/
theorem ofList_splitOn_eq_iff {ps : List String} :
    (s.toList.splitOn sep).map String.ofList = ps ↔
      ps ≠ [] ∧ (∀ p ∈ ps, sep ∉ p.toList) ∧ String.intercalate (String.singleton sep) ps = s := by
  have hmap : (s.toList.splitOn sep).map String.ofList = ps ↔
      s.toList.splitOn sep = ps.map String.toList := by
    constructor
    · rintro rfl
      simp
    · intro h
      rw [h]
      simp
  rw [hmap, splitOn_eq_iff, ← String.toList_inj, String.toList_intercalate]
  simp

theorem ofList_splitOn_of_not_mem (h : sep ∉ s.toList) :
    (s.toList.splitOn sep).map String.ofList = [s] := by
  rw [List.splitOn_eq_singleton h, List.map_singleton, String.ofList_toList]

end

/-! ## Dotted texts -/

/-- The pieces of a field path: `dotted` undoes `String.intercalate "."` where no piece has a
dot. -/
theorem dotted_eq_iff {s : String} {ps : List String} : dotted s = ps ↔
    ps ≠ [] ∧ (∀ p ∈ ps, '.' ∉ p.toList) ∧ String.intercalate "." ps = s :=
  ofList_splitOn_eq_iff

theorem dotted_of_not_mem {s : String} (h : '.' ∉ s.toList) : dotted s = [s] :=
  ofList_splitOn_of_not_mem h

theorem dotted_append (s t : String) : dotted (s ++ "." ++ t) = dotted s ++ dotted t := by
  have htext : (s ++ "." ++ t).toList = s.toList ++ '.' :: t.toList := by simp
  rw [dotted, htext, List.splitOn_append_cons_self, List.map_append]
  rfl

/-! ## Paths -/

namespace Path

/-- The same of file system paths. An empty part, as of a path that starts with `/`, is a part
too. -/
theorem parts_eq_iff {p : String} {ps : List String} : parts p = ps ↔
    ps ≠ [] ∧ (∀ q ∈ ps, '/' ∉ q.toList) ∧ String.intercalate "/" ps = p :=
  ofList_splitOn_eq_iff

theorem parts_of_not_mem {name : String} (h : '/' ∉ name.toList) : parts name = [name] :=
  ofList_splitOn_of_not_mem h

theorem parts_append (p q : String) : parts (p ++ "/" ++ q) = parts p ++ parts q := by
  have htext : (p ++ "/" ++ q).toList = p.toList ++ '/' :: q.toList := by simp
  rw [parts, htext, List.splitOn_append_cons_self, List.map_append]
  rfl

end Path

end Provision
