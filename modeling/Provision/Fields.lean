/-!
# Sorted fields

Association lists from texts to values that list their keys in code point order.

* `Fields.get?`/`Fields.insert`/`Fields.erase` look up, put and drop one key.
* `Fields.Sorted`: the keys rise strictly; `insert`, `erase` and `ofList` keep it.
* `Keyed` packs such a list with its order; `Keyed.ext_get?`: two of them are equal as soon as
  they answer every lookup alike.
-/

namespace Provision

/-- Values by key, as a list of pairs. -/
abbrev Fields (α : Type) := List (String × α)

namespace Fields

variable {α : Type}

/-- The value at the first occurrence of `k`. -/
def get? (k : String) : Fields α → Option α
  | [] => none
  | (n, v) :: rest => if n = k then some v else get? k rest

/-- Puts `v` at `k`, in order, over any value already there. -/
def insert (k : String) (v : α) : Fields α → Fields α
  | [] => [(k, v)]
  | (n, w) :: rest =>
    if n = k then (k, v) :: rest
    else if k < n then (k, v) :: (n, w) :: rest
    else (n, w) :: insert k v rest

/-- Drops every value at `k`. -/
def erase (k : String) : Fields α → Fields α
  | [] => []
  | (n, v) :: rest => if n = k then erase k rest else (n, v) :: erase k rest

/-- Sorts pairs by key; of equal keys the later one stays. -/
def ofList (pairs : List (String × α)) : Fields α :=
  pairs.foldl (fun fs p => insert p.1 p.2 fs) []

/-- The keys, in order. -/
def keys (fs : Fields α) : List String := fs.map Prod.fst

/-- The keys rise strictly, so none occurs twice. -/
def Sorted (fs : Fields α) : Prop := fs.Pairwise (fun a b => a.1 < b.1)

/-! ## Lookup -/

@[simp] theorem get?_nil (k : String) : get? k ([] : Fields α) = none := rfl

@[simp] theorem get?_cons (k n : String) (v : α) (fs : Fields α) :
    get? k ((n, v) :: fs) = if n = k then some v else get? k fs := rfl

theorem get?_insert (k n : String) (v : α) (fs : Fields α) :
    get? n (insert k v fs) = if k = n then some v else get? n fs := by
  induction fs with
  | nil => rfl
  | cons p fs ih =>
    obtain ⟨m, w⟩ := p
    simp only [insert]
    split
    · subst_vars
      by_cases h : m = n <;> simp [h]
    · split
      · by_cases h : k = n <;> simp [h]
      · by_cases h : k = n <;> grind [get?_cons]

theorem get?_erase (k n : String) (fs : Fields α) :
    get? n (erase k fs) = if k = n then none else get? n fs := by
  induction fs with
  | nil => simp [erase]
  | cons p fs ih =>
    obtain ⟨m, w⟩ := p
    simp only [erase]
    split <;> grind [get?_cons]

theorem get?_eq_some_mem {k : String} {v : α} {fs : Fields α} (h : get? k fs = some v) :
    (k, v) ∈ fs := by
  induction fs with
  | nil => simp at h
  | cons p fs ih =>
    obtain ⟨m, w⟩ := p
    grind [get?_cons]

theorem get?_eq_none_iff {k : String} {fs : Fields α} : get? k fs = none ↔ k ∉ keys fs := by
  induction fs with
  | nil => simp [keys]
  | cons p fs ih =>
    obtain ⟨m, w⟩ := p
    by_cases h : m = k
    · simp [h, keys]
    · simpa [h, keys, Ne.symm h] using ih

/-! ## Order -/

theorem mem_insert {k : String} {v : α} {fs : Fields α} {p : String × α}
    (h : p ∈ insert k v fs) : p = (k, v) ∨ p ∈ fs := by
  induction fs with
  | nil => simpa [insert] using h
  | cons q fs ih =>
    obtain ⟨m, w⟩ := q
    simp only [insert] at h
    split at h <;> grind

theorem mem_of_mem_erase {k : String} {fs : Fields α} {p : String × α} (h : p ∈ erase k fs) :
    p ∈ fs := by
  induction fs with
  | nil => simp [erase] at h
  | cons q fs ih =>
    obtain ⟨m, w⟩ := q
    simp only [erase] at h
    split at h <;> grind

theorem sorted_nil : Sorted ([] : Fields α) := List.Pairwise.nil

private theorem lt_of_not {k n : String} (h : ¬ n = k) (h' : ¬ k < n) : n < k := by
  rcases String.le_total k n with hle | hle
  · exact absurd (String.le_antisymm (String.not_lt.mp h') hle) h
  · rcases Decidable.em (n < k) with hlt | hlt
    · exact hlt
    · exact absurd (String.le_antisymm hle (String.not_lt.mp hlt)) h

theorem sorted_insert (k : String) (v : α) {fs : Fields α} (h : Sorted fs) :
    Sorted (insert k v fs) := by
  induction fs with
  | nil => simp [insert, Sorted]
  | cons p fs ih =>
    obtain ⟨m, w⟩ := p
    have h' := List.pairwise_cons.mp h
    simp only [insert]
    split
    · subst_vars
      exact List.pairwise_cons.mpr ⟨h'.1, h'.2⟩
    · split
      · next hlt =>
        refine List.pairwise_cons.mpr ⟨fun q hq => ?_, h⟩
        rcases List.mem_cons.mp hq with rfl | hq
        · exact hlt
        · exact String.lt_trans hlt (h'.1 q hq)
      · next hne hnlt =>
        refine List.pairwise_cons.mpr ⟨fun q hq => ?_, ih h'.2⟩
        rcases mem_insert hq with rfl | hq
        · exact lt_of_not hne hnlt
        · exact h'.1 q hq

theorem sorted_erase (k : String) {fs : Fields α} (h : Sorted fs) : Sorted (erase k fs) := by
  induction fs with
  | nil => exact sorted_nil
  | cons p fs ih =>
    obtain ⟨m, w⟩ := p
    have h' := List.pairwise_cons.mp h
    simp only [erase]
    split
    · exact ih h'.2
    · exact List.pairwise_cons.mpr ⟨fun q hq => h'.1 q (mem_of_mem_erase hq), ih h'.2⟩

theorem sorted_ofList (pairs : List (String × α)) : Sorted (ofList pairs) := by
  suffices h : ∀ fs : Fields α, Sorted fs →
      Sorted (pairs.foldl (fun fs p => insert p.1 p.2 fs) fs) from h [] sorted_nil
  induction pairs with
  | nil => exact fun fs h => h
  | cons p pairs ih => exact fun fs h => ih _ (sorted_insert _ _ h)

theorem Sorted.ext {fs gs : Fields α} (hf : Sorted fs) (hg : Sorted gs)
    (h : ∀ k, get? k fs = get? k gs) : fs = gs := by
  induction fs generalizing gs with
  | nil =>
    cases gs with
    | nil => rfl
    | cons q gs => have := h q.1; simp [get?] at this
  | cons p fs ih =>
    obtain ⟨m, v⟩ := p
    cases gs with
    | nil => have := h m; simp at this
    | cons q gs =>
      obtain ⟨n, w⟩ := q
      have hf' := List.pairwise_cons.mp hf
      have hg' := List.pairwise_cons.mp hg
      have hmn : m = n := by
        by_cases e : m = n
        · exact e
        · have h1 := get?_eq_some_mem ((h m).symm.trans (by simp) : get? m ((n, w) :: gs) = some v)
          have h2 := get?_eq_some_mem ((h n).trans (by simp) : get? n ((m, v) :: fs) = some w)
          have h1 : (m, v) ∈ gs := (List.mem_cons.mp h1).resolve_left (fun c => e (by cases c; rfl))
          have h2 : (n, w) ∈ fs := (List.mem_cons.mp h2).resolve_left (fun c => e (by cases c; rfl))
          exact absurd (String.lt_trans (hg'.1 _ h1) (hf'.1 _ h2)) (String.lt_irrefl n)
      subst hmn
      have hv := h m
      simp only [get?_cons, if_true, Option.some.injEq] at hv
      subst hv
      congr 1
      refine ih hf'.2 hg'.2 fun k => ?_
      by_cases e : m = k
      · subst e
        have hnone {gs : Fields α} (hlt : ∀ q ∈ gs, m < q.1) : get? m gs = none :=
          get?_eq_none_iff.mpr fun hm => by
            obtain ⟨q, hq, he⟩ := List.mem_map.mp hm
            exact String.lt_irrefl m (he ▸ hlt q hq)
        rw [hnone hf'.1, hnone hg'.1]
      · simpa [e] using h k

/-! ## Keys -/

theorem Sorted.keys_nodup {fs : Fields α} (h : Sorted fs) : (keys fs).Nodup := by
  unfold keys List.Nodup
  rw [List.pairwise_map]
  refine List.Pairwise.imp (fun {a b} hlt he => ?_) h
  rw [he] at hlt
  exact String.lt_irrefl _ hlt

theorem Sorted.keys_insert {fs : Fields α} (h : Sorted fs) {k : String} (hk : k ∈ keys fs) (v : α) :
    keys (insert k v fs) = keys fs := by
  induction fs with
  | nil => cases hk
  | cons p fs ih =>
    obtain ⟨n, w⟩ := p
    have h' := List.pairwise_cons.mp h
    simp only [insert]
    split
    · subst_vars; rfl
    · next hne =>
      have hk : k ∈ keys fs := (List.mem_cons.mp hk).resolve_left fun e => hne e.symm
      obtain ⟨q, hq, rfl⟩ := List.mem_map.mp hk
      rw [if_neg fun hlt => String.lt_irrefl _ (String.lt_trans hlt (h'.1 q hq))]
      exact congrArg (n :: ·) (ih h'.2 hk)

theorem keys_erase (k : String) (fs : Fields α) : keys (erase k fs) = (keys fs).filter (· ≠ k) := by
  induction fs with
  | nil => rfl
  | cons p fs ih =>
    obtain ⟨n, w⟩ := p
    simp only [erase, keys, List.map_cons]
    by_cases hn : n = k
    · rw [if_pos hn, List.filter_cons_of_neg (by simp [hn])]
      exact ih
    · rw [if_neg hn, List.filter_cons_of_pos (by simp [hn]), List.map_cons]
      exact congrArg (n :: ·) ih

/-- Looks up a key among keys that are paired with their values. -/
theorem get?_map (ks : List String) (f : String → α) (k : String) :
    get? k (ks.map fun n => (n, f n)) = if k ∈ ks then some (f k) else none := by
  induction ks with
  | nil => rfl
  | cons n ks ih =>
    rw [List.map_cons, get?_cons, ih]
    by_cases hn : n = k
    · simp [hn]
    · simp [hn, Ne.symm hn]

theorem get?_foldl_insert (pairs : List (String × α)) (fs : Fields α) (k : String)
    (hn : (pairs.map Prod.fst).Nodup) :
    get? k (pairs.foldl (fun fs p => insert p.1 p.2 fs) fs) =
      (get? k pairs).or (get? k fs) := by
  induction pairs generalizing fs with
  | nil => simp
  | cons p pairs ih =>
    obtain ⟨n, v⟩ := p
    have hn := List.nodup_cons.mp hn
    rw [List.foldl_cons, ih _ hn.2, get?_insert, get?_cons]
    by_cases h : n = k
    · subst h
      have : get? n pairs = none := get?_eq_none_iff.mpr hn.1
      simp [this]
    · simp [h]

end Fields

/-- Values by key, each key at most once, listed in key order. -/
structure Keyed (α : Type) where
  fields : Fields α
  sorted : Fields.Sorted fields

namespace Keyed

variable {α : Type}

/-- No keys. -/
def empty : Keyed α := ⟨[], Fields.sorted_nil⟩

instance : Inhabited (Keyed α) := ⟨empty⟩

/-- The value at `k`. -/
def get? (m : Keyed α) (k : String) : Option α := Fields.get? k m.fields

/-- Whether `k` has a value. -/
def contains (m : Keyed α) (k : String) : Bool := (m.get? k).isSome

/-- Puts `v` at `k`, over any value already there. -/
def insert (m : Keyed α) (k : String) (v : α) : Keyed α :=
  ⟨Fields.insert k v m.fields, Fields.sorted_insert k v m.sorted⟩

/-- Drops the value at `k`. -/
def erase (m : Keyed α) (k : String) : Keyed α :=
  ⟨Fields.erase k m.fields, Fields.sorted_erase k m.sorted⟩

/-- The map of the given pairs; of equal keys the later one stays. -/
def ofList (pairs : List (String × α)) : Keyed α :=
  ⟨Fields.ofList pairs, Fields.sorted_ofList pairs⟩

/-- The keys, in order. -/
def keys (m : Keyed α) : List String := Fields.keys m.fields

/-- The values, in key order. -/
def values (m : Keyed α) : List α := m.fields.map Prod.snd

@[simp] theorem get?_empty (k : String) : (empty : Keyed α).get? k = none := rfl

@[simp] theorem get?_insert (m : Keyed α) (k n : String) (v : α) :
    (m.insert k v).get? n = if k = n then some v else m.get? n := Fields.get?_insert k n v m.fields

@[simp] theorem get?_erase (m : Keyed α) (k n : String) :
    (m.erase k).get? n = if k = n then none else m.get? n := Fields.get?_erase k n m.fields

theorem ext_get? {m n : Keyed α} (h : ∀ k, m.get? k = n.get? k) : m = n := by
  obtain ⟨fs, hf⟩ := m
  obtain ⟨gs, hg⟩ := n
  obtain rfl : fs = gs := Fields.Sorted.ext hf hg h
  rfl

/-! ## Keys -/

theorem mem_keys {m : Keyed α} {k : String} : k ∈ m.keys ↔ ∃ v, m.get? k = some v := by
  rw [← Option.isSome_iff_exists, Option.isSome_iff_ne_none]
  exact Decidable.not_iff_not.mp (Decidable.not_not.trans Fields.get?_eq_none_iff).symm

theorem keys_nodup (m : Keyed α) : m.keys.Nodup := m.sorted.keys_nodup

theorem keys_insert {m : Keyed α} {k : String} (h : k ∈ m.keys) (v : α) :
    (m.insert k v).keys = m.keys := m.sorted.keys_insert h v

/-- A key goes to the front of those that are left when it is dropped. -/
theorem keys_perm_erase {m : Keyed α} {k : String} (h : k ∈ m.keys) :
    m.keys.Perm (k :: (m.erase k).keys) := by
  have he : (m.erase k).keys = m.keys.erase k := by
    rw [m.keys_nodup.erase_eq_filter]
    refine (Fields.keys_erase k m.fields).trans (List.filter_congr fun n _ => ?_)
    by_cases hn : n = k <;> simp [hn]
  rw [he]
  exact List.perm_cons_erase h

/-- Pairs whose keys differ are looked up in the map as in the list. -/
theorem get?_ofList {pairs : List (String × α)} (hn : (pairs.map Prod.fst).Nodup) (k : String) :
    (ofList pairs).get? k = Fields.get? k pairs := by
  have := Fields.get?_foldl_insert pairs [] k hn
  simpa [ofList, Fields.ofList, get?] using this

end Keyed

end Provision
