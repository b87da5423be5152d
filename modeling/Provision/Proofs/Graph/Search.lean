import Mathlib.Data.List.Nodup
import Mathlib.Logic.Relation
import Provision.Graph.DepthFirst

/-!
# Depth-first orders

* `mem_order`: with a depth that allows for every key, a search lists all its starts.
* `Arranged`: it lists every key once, and what a key leads to comes after it or leads back to it.
  `order_arranged`: every search does so.
* `cycle_of_firstBackward?`: so a predecessor that the list has too late lies on a cycle.
* `forall_of_firstBackward?`: along an order that is never backward, what follows from all
  predecessors of a key holds of every key. `sublist_of_firstBackward?`: the predecessors of a key
  stand before it.
-/

namespace Provision

namespace DepthFirst

variable {α : Type}

/-! ## What a search reaches -/

/-- What a search that goes on from `s` to `s'` keeps: it only adds keys, leaves every key that it
enters, and no key that was entered before. -/
structure Grows (s s' : Search α) : Prop where
  seen : ∀ k ∈ s.seen, k ∈ s'.seen
  order : ∀ k ∈ s.order, k ∈ s'.order
  left : ∀ k ∈ s'.seen, k ∈ s.seen ∨ k ∈ s'.order
  fresh : ∀ k ∈ s'.order, k ∈ s.order ∨ k ∉ s.seen

theorem Grows.refl (s : Search α) : Grows s s :=
  ⟨fun _ h => h, fun _ h => h, fun _ h => .inl h, fun _ h => .inl h⟩

theorem Grows.trans {s s' s'' : Search α} (h : Grows s s') (h' : Grows s' s'') : Grows s s'' where
  seen k hk := h'.seen k (h.seen k hk)
  order k hk := h'.order k (h.order k hk)
  left k hk := (h'.left k hk).elim (fun h₁ => (h.left k h₁).imp_right (h'.order k)) .inr
  fresh k hk := (h'.fresh k hk).elim (h.fresh k) fun h₁ => .inr fun hs => h₁ (h.seen k hs)

section

variable [DecidableEq α]

/-- How many of the keys the search has not entered. -/
def unseen (keys : List α) (s : Search α) : Nat := (keys.filter (· ∉ s.seen)).length

theorem Grows.unseen_le {s s' : Search α} (h : Grows s s') (keys : List α) :
    unseen keys s' ≤ unseen keys s := by
  refine (List.Sublist.length_le ?_)
  refine List.monotone_filter_right keys fun k hk => ?_
  simp only [decide_eq_true_eq] at hk ⊢
  exact fun hs => hk (h.seen k hs)

/-- Entering a new key makes `unseen` smaller. This is what pays for one level of `fuel` in
`visit`. -/
theorem unseen_enter {keys : List α} {s : Search α} {key : α} (hk : key ∈ keys)
    (hs : key ∉ s.seen) : unseen keys { s with seen := key :: s.seen } < unseen keys s := by
  have he : keys.filter (· ∉ key :: s.seen) = (keys.filter (· ∉ s.seen)).filter (· ≠ key) := by
    rw [List.filter_filter]
    refine List.filter_congr fun k _ => ?_
    simp [List.mem_cons, not_or]
  unfold unseen
  rw [he, List.length_filter_lt_length_iff_exists]
  exact ⟨key, List.mem_filter.mpr ⟨hk, by simpa using hs⟩, by simp⟩

variable {next : α → List α} {keys : List α}

/-- Visits of several keys, when each of them `Grows` the search and enters its key (`ih`, which
`visit_grows` provides one level of `fuel` lower). -/
theorem foldl_visit {fuel : Nat}
    (ih : ∀ s key, key ∈ keys → unseen keys s ≤ fuel →
      Grows s (visit next fuel s key) ∧ key ∈ (visit next fuel s key).seen)
    (ks : List α) (hks : ∀ k ∈ ks, k ∈ keys) (s : Search α) (hs : unseen keys s ≤ fuel) :
    Grows s (ks.foldl (visit next fuel) s) ∧ ∀ k ∈ ks, k ∈ (ks.foldl (visit next fuel) s).seen := by
  induction ks generalizing s with
  | nil => exact ⟨.refl s, nofun⟩
  | cons k ks ihk =>
    obtain ⟨hg, hk⟩ := ih s k (hks k List.mem_cons_self) hs
    obtain ⟨hg', hks'⟩ := ihk (fun n hn => hks n (List.mem_cons_of_mem _ hn)) (visit next fuel s k)
      (Nat.le_trans (hg.unseen_le keys) hs)
    refine ⟨hg.trans hg', fun n hn => ?_⟩
    rcases List.mem_cons.mp hn with rfl | hn
    · exact hg'.seen n hk
    · exact hks' n hn

/-- **Fuel.** With `fuel` for as many levels as there are `unseen` keys, `visit` never stops for
want of it: it enters its key. A search that stopped early would leave its key unentered, so the
second part of the conclusion says that the fuel hides nothing. -/
theorem visit_grows (hnext : ∀ k ∈ keys, ∀ n ∈ next k, n ∈ keys) (fuel : Nat) (s : Search α)
    (key : α) (hk : key ∈ keys) (hs : unseen keys s ≤ fuel) :
    Grows s (visit next fuel s key) ∧ key ∈ (visit next fuel s key).seen := by
  induction fuel generalizing s key with
  | zero =>
    -- nothing is unseen, so the key was entered before
    refine ⟨.refl s, Decidable.byContradiction fun hn => ?_⟩
    exact absurd (unseen_enter (s := s) hk hn) (by omega)
  | succ fuel ih =>
    simp only [visit]
    split
    · next hseen => exact ⟨.refl s, hseen⟩
    · next hseen =>
      have hlt := unseen_enter hk hseen
      obtain ⟨hg, -⟩ := foldl_visit ih (next key) (hnext key hk) { s with seen := key :: s.seen }
        (by omega)
      refine ⟨⟨fun k h => hg.seen k (List.mem_cons_of_mem _ h),
        fun k h => List.mem_cons_of_mem _ (hg.order k h), fun k h => ?_, fun k h => ?_⟩,
        hg.seen key List.mem_cons_self⟩
      · rcases hg.left k h with h | h
        · exact (List.mem_cons.mp h).elim (fun e => .inr (e ▸ List.mem_cons_self)) .inl
        · exact .inr (List.mem_cons_of_mem _ h)
      · rcases List.mem_cons.mp h with rfl | h
        · exact .inr hseen
        · exact (hg.fresh k h).imp_right fun hn hk => hn (List.mem_cons_of_mem _ hk)

/-- `order` lists all its starts when `size` allows for every key, as it does in `Graph.build`. -/
theorem mem_order (hnext : ∀ k ∈ keys, ∀ n ∈ next k, n ∈ keys) {size : Nat}
    (hsize : keys.length ≤ size) {starts : List α} (hstarts : ∀ k ∈ starts, k ∈ keys)
    {k : α} (hk : k ∈ starts) : k ∈ order next size starts := by
  have hs : unseen keys ⟨[], []⟩ ≤ size := Nat.le_trans (List.length_filter_le _ _) hsize
  obtain ⟨hg, hseen⟩ := foldl_visit (visit_grows hnext size) starts hstarts ⟨[], []⟩ hs
  exact (hg.left k (hseen k hk)).resolve_left nofun

end

/-! ## What a search lists -/

section

variable {next previous : α → List α} {keys : List α} {s s' : Search α} {key : α}

/-- What a key of the list leads to comes after it, or leads back to it. -/
def Forward (next : α → List α) : List α → Prop
  | [] => True
  | k :: ks => (∀ n ∈ next k, n ∈ ks ∨ Relation.TransGen (fun a b => b ∈ next a) n k) ∧
    Forward next ks

/-- `Forward` read at any key of the list. The tail of the list is widened to the whole of it. -/
theorem Forward.mem_or_transGen {ks : List α} (h : Forward next ks) {k n : α} (hk : k ∈ ks)
    (hn : n ∈ next k) : n ∈ ks ∨ Relation.TransGen (fun a b => b ∈ next a) n k := by
  induction ks with
  | nil => cases hk
  | cons m ks ih =>
    rcases List.mem_cons.mp hk with rfl | hk
    · exact (h.1 n hn).imp_left (List.mem_cons_of_mem _)
    · exact (ih h.2 hk).imp_left (List.mem_cons_of_mem _)

/-- The keys left again differ, were entered, and lead to keys that were left before, unless these
lead back. Only keys were entered. -/
structure Arranged (next : α → List α) (keys : List α) (s : Search α) : Prop where
  nodup : s.order.Nodup
  seen : ∀ k ∈ s.order, k ∈ s.seen
  among : ∀ k ∈ s.seen, k ∈ keys
  forward : Forward next s.order

/-- Every key entered and not left leads to `key`. -/
def LeadsTo (next : α → List α) (s : Search α) (key : α) : Prop :=
  ∀ k ∈ s.seen, k ∈ s.order ∨ Relation.TransGen (fun a b => b ∈ next a) k key

theorem LeadsTo.grows (h : LeadsTo next s key) (hg : Grows s s') : LeadsTo next s' key := by
  intro k hk
  rcases hg.left k hk with hk | hk
  · exact (h k hk).imp_left (hg.order k)
  · exact .inl hk

/-- A key that is entered leads on to its successors; so the premise of `visit_arranged` holds again
one level down. -/
theorem LeadsTo.enter (h : LeadsTo next s key) {n : α} (hn : n ∈ next key) :
    LeadsTo next { s with seen := key :: s.seen } n := by
  intro k hk
  rcases List.mem_cons.mp hk with rfl | hk
  · exact .inr (.single hn)
  · exact (h k hk).imp_right fun hkey => hkey.tail hn

variable [DecidableEq α]

section

variable (hnext : ∀ k ∈ keys, ∀ n ∈ next k, n ∈ keys)

include hnext

/-- Visits of several keys keep a search `Arranged`, if each of them does (`ih`, one level of `fuel`
lower). -/
theorem foldl_arranged {fuel : Nat}
    (ih : ∀ s key, key ∈ keys → unseen keys s ≤ fuel → Arranged next keys s → LeadsTo next s key →
      Arranged next keys (visit next fuel s key))
    (ks : List α) (hks : ∀ k ∈ ks, k ∈ keys) (s : Search α) (hs : unseen keys s ≤ fuel)
    (ha : Arranged next keys s) (hl : ∀ k ∈ ks, LeadsTo next s k) :
    Arranged next keys (ks.foldl (visit next fuel) s) := by
  induction ks generalizing s with
  | nil => exact ha
  | cons k ks ihk =>
    have hk := hks k List.mem_cons_self
    have hgrows := (visit_grows hnext fuel s k hk hs).1
    refine ihk (fun n hn => hks n (List.mem_cons_of_mem _ hn)) (visit next fuel s k)
      (Nat.le_trans (hgrows.unseen_le keys) hs) (ih s k hk hs ha (hl k List.mem_cons_self))
      fun n hn => (hl n (List.mem_cons_of_mem _ hn)).grows hgrows

/-- A visit keeps a search `Arranged`: what its key leads to was left before, unless it was entered
and not left yet, and then it leads back to the key by `LeadsTo`. Every cycle that a search meets is
met in that second way. -/
theorem visit_arranged (fuel : Nat) (s : Search α) (key : α) (hk : key ∈ keys)
    (hs : unseen keys s ≤ fuel) (ha : Arranged next keys s) (hl : LeadsTo next s key) :
    Arranged next keys (visit next fuel s key) := by
  induction fuel generalizing s key with
  | zero => exact ha
  | succ fuel ih =>
    simp only [visit]
    split
    · exact ha
    · next hseen =>
      have hlt := unseen_enter hk hseen
      have henter : Arranged next keys { s with seen := key :: s.seen } :=
        ⟨ha.nodup, fun k h => List.mem_cons_of_mem _ (ha.seen k h),
          List.forall_mem_cons.mpr ⟨hk, ha.among⟩, ha.forward⟩
      obtain ⟨hgrows, hvisited⟩ := foldl_visit (visit_grows hnext fuel) (next key) (hnext key hk)
        { s with seen := key :: s.seen } (by omega)
      -- the key is left last: all that its successors lead to is in the list by now
      have hrest := foldl_arranged hnext ih (next key) (hnext key hk)
        { s with seen := key :: s.seen } (by omega) henter fun n hn => hl.enter hn
      refine ⟨List.nodup_cons.mpr ⟨fun h => ?_, hrest.nodup⟩, fun k h => ?_, hrest.among,
        fun n hn => ?_, hrest.forward⟩
      · rcases hgrows.fresh key h with h | h
        · exact hseen (ha.seen key h)
        · exact h List.mem_cons_self
      · rcases List.mem_cons.mp h with rfl | h
        · exact hgrows.seen k List.mem_cons_self
        · exact hrest.seen k h
      · rcases hgrows.left n (hvisited n hn) with h | h
        · rcases List.mem_cons.mp h with rfl | h
          · exact .inr (.single hn)
          · exact (hl n h).imp_left (hgrows.order n)
        · exact .inl h

/-- A search from `starts` is `Arranged`. Nothing is entered at the beginning, so `LeadsTo` holds
there for want of keys. -/
theorem order_arranged {size : Nat} (hsize : keys.length ≤ size) {starts : List α}
    (hstarts : ∀ k ∈ starts, k ∈ keys) :
    Arranged next keys (starts.foldl (visit next size) ⟨[], []⟩) :=
  foldl_arranged hnext (visit_arranged hnext size) starts hstarts ⟨[], []⟩
    (Nat.le_trans (List.length_filter_le _ _) hsize) ⟨List.nodup_nil, nofun, nofun, trivial⟩
    fun _ _ => nofun

/-- A search that starts from all keys lists exactly them: all by `mem_order`, and no other by
`Arranged.among`. -/
theorem order_perm (hn : keys.Nodup) {size : Nat} (hsize : keys.length ≤ size) :
    (order next size keys).Perm keys := by
  have ha := order_arranged hnext hsize fun _ hk => hk
  refine (List.perm_ext_iff_of_nodup ha.nodup hn).mpr fun k => ⟨fun hk => ?_, fun hk => ?_⟩
  · exact ha.among k (ha.seen k hk)
  · exact mem_order hnext hsize (fun _ h => h) hk

end

/-- A predecessor that `firstBackward?` reports lies on a cycle. The list is `Forward`, so what
comes too late can only lead back; where there is no cycle, nothing is reported. -/
theorem cycle_of_firstBackward? {ks : List α} (hn : ks.Nodup) (hf : Forward next ks)
    {before : List α} (hprev : ∀ k ∈ ks, ∀ p ∈ previous k, k ∈ next p ∧ (p ∈ before ∨ p ∈ ks))
    {p : α} (h : firstBackward? previous before ks = some p) :
    Relation.TransGen (fun a b => b ∈ next a) p p := by
  induction ks generalizing before with
  | nil => cases h
  | cons k ks ih =>
    obtain ⟨hk, hn⟩ := List.nodup_cons.mp hn
    simp only [firstBackward?] at h
    split at h
    · next q hq =>
      cases h
      -- `p` precedes `k` and stands behind it; what `p` leads to, `k` among it, cannot come later
      obtain ⟨hkp, hmem⟩ := hprev k List.mem_cons_self p (List.mem_of_find?_eq_some hq)
      have hlate : p ∉ k :: before := by simpa using List.find?_some hq
      have hks : p ∈ ks := by
        rcases hmem with hb | hm
        · exact absurd (List.mem_cons_of_mem _ hb) hlate
        · exact (List.mem_cons.mp hm).resolve_left fun he => hlate (he ▸ List.mem_cons_self)
      rcases hf.2.mem_or_transGen hks hkp with hback | hback
      · exact absurd hback hk
      · exact .head hkp hback
    · refine ih hn hf.2 (fun m hm q hq => ?_) h
      obtain ⟨hmq, hmem⟩ := hprev m (List.mem_cons_of_mem _ hm) q hq
      refine ⟨hmq, ?_⟩
      rcases hmem with hb | hks
      · exact .inl (List.mem_cons_of_mem _ hb)
      · rcases List.mem_cons.mp hks with rfl | hks
        · exact .inl List.mem_cons_self
        · exact .inr hks

end

/-! ## Orders that are never backward -/

/-- **Induction along an order.** What follows for a key from all its predecessors holds of every
key of an order that `firstBackward?` accepts. It lets a key be its own predecessor, which `hself`
rules out. -/
theorem forall_of_firstBackward? [DecidableEq α] {previous : α → List α} {P : α → Prop}
    (hself : ∀ k, k ∉ previous k) (hstep : ∀ k, (∀ p ∈ previous k, P p) → P k)
    (ks : List α) (before : List α) (h : firstBackward? previous before ks = none)
    (hbefore : ∀ k ∈ before, P k) : ∀ k ∈ ks, P k := by
  induction ks generalizing before with
  | nil => nofun
  | cons k ks ih =>
    simp only [firstBackward?] at h
    split at h
    · cases h
    · next hnone =>
      have hk : P k := hstep k fun p hp => by
        have := List.find?_eq_none.mp hnone p hp
        simp only [decide_eq_true_eq, Decidable.not_not] at this
        rcases List.mem_cons.mp this with rfl | hb
        · exact absurd hp (hself p)
        · exact hbefore p hb
      intro n hn
      rcases List.mem_cons.mp hn with rfl | hn
      · exact hk
      · refine ih (k :: before) h (fun m hm => ?_) n hn
        rcases List.mem_cons.mp hm with rfl | hm
        · exact hk
        · exact hbefore m hm

/-- Along such an order a predecessor stands before its key, or in `before`, or is the key
itself. -/
theorem sublist_of_firstBackward? [DecidableEq α] {previous : α → List α} {ks before : List α}
    (h : firstBackward? previous before ks = none) {k p : α} (hk : k ∈ ks) (hp : p ∈ previous k) :
    p = k ∨ p ∈ before ∨ [p, k].Sublist ks := by
  induction ks generalizing before with
  | nil => cases hk
  | cons m ks ih =>
    simp only [firstBackward?] at h
    split at h
    · cases h
    · next hnone =>
      rcases List.mem_cons.mp hk with rfl | hks
      · have := List.find?_eq_none.mp hnone p hp
        simp only [decide_eq_true_eq, Decidable.not_not] at this
        exact (List.mem_cons.mp this).imp_right .inl
      · rcases ih h hks with he | hb | hsub
        · exact .inl he
        · rcases List.mem_cons.mp hb with rfl | hb
          · exact .inr (.inr ((List.singleton_sublist.mpr hks).cons_cons p))
          · exact .inr (.inl hb)
        · exact .inr (.inr (hsub.cons m))

end DepthFirst

end Provision
