import Mathlib.Data.List.Nodup
import Provision.Fields

/-!
# Lists of fields and of keys

* `nodup_eraseDups`, `eraseDups_of_nodup`: dropping repetitions leaves none, and changes nothing
  where there are none.
* `Fields.get?_eq_some_iff`: lookups find exactly what is listed, where no key is listed twice.
* `Fields.mem_of_mem_ofList`, `Fields.ofList_of_sorted`: sorting adds nothing, and changes nothing
  that is sorted.
-/

namespace Provision

/-- `eraseDups` leaves no repetition. The induction is on the length, since `eraseDups` goes on with
a filtered tail. -/
theorem nodup_eraseDups {α : Type} [BEq α] [LawfulBEq α] (xs : List α) :
    xs.eraseDups.Nodup := by
  induction h : xs.length using Nat.strongRecOn generalizing xs with
  | _ n ih =>
    cases xs with
    | nil => simp
    | cons x xs =>
      rw [List.eraseDups_cons, List.nodup_cons]
      have hlen := List.length_filter_le (fun y => !y == x) xs
      simp only [List.length_cons] at h
      exact ⟨by simp [List.mem_eraseDups], ih _ (by omega) _ rfl⟩

theorem eraseDups_of_nodup {α : Type} [BEq α] [LawfulBEq α] {xs : List α} (h : xs.Nodup) :
    xs.eraseDups = xs := by
  induction xs with
  | nil => rfl
  | cons x xs ih =>
    obtain ⟨hx, hxs⟩ := List.nodup_cons.mp h
    have hfilter : xs.filter (fun y => !y == x) = xs := by
      refine List.filter_eq_self.mpr fun y hy => ?_
      simpa using ne_of_mem_of_not_mem hy hx
    rw [List.eraseDups_cons, hfilter, ih hxs]

namespace Fields

variable {α : Type}

/-- Where the keys differ, `get?` finds exactly the pairs listed; of two pairs with one key it would
find only the first. -/
theorem get?_eq_some_iff {fs : Fields α} (hn : (keys fs).Nodup) {k : String} {v : α} :
    get? k fs = some v ↔ (k, v) ∈ fs := by
  refine ⟨get?_eq_some_mem, fun hm => ?_⟩
  cases hg : get? k fs with
  | none => exact absurd (List.mem_map_of_mem hm) (get?_eq_none_iff.mp hg)
  | some w => rw [(Prod.mk.inj (List.inj_on_of_nodup_map hn (get?_eq_some_mem hg) hm rfl)).2]

/-- `ofList` makes up no pair. It may lose one, where a later pair has the same key. -/
theorem mem_of_mem_ofList {pairs : List (String × α)} {p : String × α} (h : p ∈ ofList pairs) :
    p ∈ pairs := by
  suffices hfold : ∀ fs : Fields α, p ∈ pairs.foldl (fun fs q => insert q.1 q.2 fs) fs →
      p ∈ pairs ∨ p ∈ fs from (hfold [] h).resolve_right List.not_mem_nil
  clear h
  induction pairs with
  | nil => exact fun fs h => .inr h
  | cons q pairs ih =>
    intro fs h
    rcases ih _ h with h | h
    · exact .inl (List.mem_cons_of_mem _ h)
    · rcases mem_insert h with rfl | h
      · exact .inl List.mem_cons_self
      · exact .inr h

/-- `Sorted` fields are their own `ofList`: by `Sorted.ext` they are known by their lookups. -/
theorem ofList_of_sorted {fs : Fields α} (h : Sorted fs) : ofList fs = fs := by
  refine (sorted_ofList fs).ext h fun k => ?_
  unfold ofList
  rw [get?_foldl_insert fs [] k h.keys_nodup, get?_nil, Option.or_none]

theorem sorted_iff {fs : Fields α} : Sorted fs ↔ (keys fs).Pairwise (· < ·) :=
  List.pairwise_map.symm

end Fields

end Provision
