import Provision.Proofs.Walk.Schedule

/-!
# What blocks a node

* `Walk.Guarded`: a node is blocked by a predecessor that did not succeed, no such predecessor is
  forgotten, and a node that workers have to do with has only predecessors that succeeded.
  `Guarded.start`, `Guarded.step`: every walk keeps this.
-/

namespace Provision

namespace Walk

variable {σ : Type} {setup : Setup σ} {g : Graph} {jobs : Nat} {w w' : Walk σ} {ch : Choice}
  {decided ds : List (String × Except Status Unit)}

/-- What every walk keeps of the nodes that did not succeed, where `decided` are the results that
the scheduler knows. -/
structure Guarded (g : Graph) (w : Walk σ) (decided : List (String × Except Status Unit)) :
    Prop where
  root : ∀ d ∈ w.departures, d.key = none → d.succeeded = true
  departed : ∀ d ∈ w.departures, ∀ p, d.key = some p → ∃ r, (p, r) ∈ decided ∧ d.succeeded = r.isOk
  blocked : ∀ k p, w.blocked.get? k = some p → (p, k) ∈ g.edges ∧ ∃ s, (p, .error s) ∈ decided
  /-- Who was told of a failure remembers one. -/
  remembered : ∀ k p s, (p, k) ∈ g.edges → (p, .error s) ∈ decided →
    ¬ Owes w.active w.departures k (some p) → w.blocked.get? k ≠ none
  cleared : ∀ k ∈ w.underway, ∀ p, (p, k) ∈ g.edges → (p, .ok ()) ∈ decided

namespace Guarded

theorem start (run : Run σ) (states : Keyed NodeState) : Guarded g (start g run states) [] where
  root d hd _ := by rw [List.mem_singleton.mp hd]
  departed d hd p hp := by
    rw [List.mem_singleton.mp hd] at hp
    cases hp
  blocked k p hb := by cases hb
  remembered k p s _ hd := by cases hd
  cleared k hk := by cases hk

/-! ## Telling a node -/

section

variable {d : Departure} {rest : List Departure} {key : String}

/-- What `Departure.block` writes names a predecessor that did not succeed: the departure that is
told is the predecessor's, and `Guarded.departed` knows its result. -/
theorem blocked_told (hs : Scheduled g w decided) (h : Guarded g w decided)
    (hd : w.departures = d :: rest) (hk : key ∈ d.untold) {k p : String}
    (hb : (d.block key w.blocked).get? k = some p) :
    (p, k) ∈ g.edges ∧ ∃ s, (p, .error s) ∈ decided := by
  have hmem : d ∈ w.departures := hd ▸ List.mem_cons_self
  rw [Departure.get?_block] at hb
  split at hb
  · next hc =>
    obtain ⟨rfl, hfail⟩ := hc
    rcases Option.or_eq_some_iff.mp hb with hb | ⟨-, hkey⟩
    · exact h.blocked k p hb
    · obtain ⟨r, hr, hok⟩ := h.departed d hmem p hkey
      refine ⟨Graph.some_mem_sources.mp (hkey ▸ (hs.untold d hmem).2 k hk), ?_⟩
      rw [hfail] at hok
      cases r with
      | ok u => cases hok
      | error s => exact ⟨s, hr⟩
  · exact h.blocked k p hb

/-- Who is no longer owed the departure of a failed predecessor remembers a failure, maybe an
earlier one: `Departure.block` never erases. -/
theorem remembered_told (hg : g.Sound) (hs : Scheduled g w decided) (h : Guarded g w decided)
    (hd : w.departures = d :: rest) {k p : String} {s : Status} (he : (p, k) ∈ g.edges)
    (hp : (p, .error s) ∈ decided) (ho : ¬ Owes w.active (d.told key :: rest) k (some p)) :
    (d.block key w.blocked).get? k ≠ none := by
  have hmem : d ∈ w.departures := hd ▸ List.mem_cons_self
  have hdistinct := hs.distinct
  rw [hd] at hdistinct
  rw [owes_told hdistinct (hs.untold d hmem).1
    (fun n hn => hs.not_active hg (hs.departed d hmem n hn))] at ho
  rw [Departure.get?_block]
  by_cases hold : Owes w.active w.departures k (some p)
  · -- It was owed before, so it is this departure that the node was told of.
    obtain ⟨rfl, hkey⟩ : k = key ∧ some p = d.key := by
      refine Decidable.not_not.mp fun hne => ho ⟨?_, hne⟩
      exact hd ▸ hold
    obtain ⟨r, hr, hok⟩ := h.departed d hmem p hkey.symm
    rw [hs.result_unique hg hr hp] at hok
    rw [if_pos ⟨rfl, hok⟩, ← hkey]
    cases w.blocked.get? k <;> exact nofun
  · have hb := h.remembered k p s he hp hold
    split
    · next hc =>
      rw [← hc.1]
      intro hn
      exact hb (Option.or_eq_none_iff.mp hn).1
    · exact hb

/-- Being told to some leaves the key and the success of a departure as they are. -/
theorem departed_of_leaves (h : Guarded g w decided) {d d₁ : Departure} (hd : d ∈ w.departures)
    (hl : d.Leaves d₁) : (d₁.key = none → d₁.succeeded = true) ∧
      ∀ p, d₁.key = some p → ∃ r, (p, r) ∈ decided ∧ d₁.succeeded = r.isOk := by
  rw [hl.key, hl.succeeded]
  exact ⟨h.root d hd, h.departed d hd⟩

end

/-! ## Steps -/

/-- `Guarded` reads `departures`, `blocked` and who is `underway`; a step of the workers changes
none of these but in order. -/
theorem move (h : Guarded g w decided) (hp : w'.active.Perm w.active)
    (ha : w'.awaited = w.awaited) (hd : w'.departures = w.departures)
    (hb : w'.blocked = w.blocked) : Guarded g w' decided where
  root := hd ▸ h.root
  departed := hd ▸ h.departed
  blocked := hb ▸ h.blocked
  remembered k p s he hs ho := by
    rw [hb]
    rw [hd, owes_congr fun p => hp.mem_iff] at ho
    exact h.remembered k p s he hs ho
  cleared k hk := by
    unfold active at hp
    rw [ha] at hp
    exact h.cleared k (((List.perm_append_left_iff _).mp hp).mem_iff.mp hk)

section

variable {d : Departure} {rest : List Departure} {key : String}

/-- A node is told and stays active. `hc` is left to the caller, as a node that is queued joins
those `underway`. -/
theorem tell (hg : g.Sound) (hs : Scheduled g w decided) (h : Guarded g w decided)
    (hd : w.departures = d :: rest) (hk : key ∈ d.untold) (hp : w'.active.Perm w.active)
    (hd' : w'.departures = d.told key :: rest) (hb : w'.blocked = d.block key w.blocked)
    (hc : ∀ k ∈ w'.underway, ∀ p, (p, k) ∈ g.edges → (p, .ok ()) ∈ decided) :
    Guarded g w' decided where
  root d₁ hd₁ hkey := by
    obtain ⟨d₂, hd₂, hl⟩ := Scheduled.departures_told hd d₁ (hd' ▸ hd₁)
    exact (h.departed_of_leaves hd₂ hl).1 hkey
  departed d₁ hd₁ p hkey := by
    obtain ⟨d₂, hd₂, hl⟩ := Scheduled.departures_told hd d₁ (hd' ▸ hd₁)
    exact (h.departed_of_leaves hd₂ hl).2 p hkey
  blocked k p hn := blocked_told hs h hd hk (hb ▸ hn)
  remembered k p s he hp' ho := by
    rw [hd', owes_congr fun p => hp.mem_iff] at ho
    rw [hb]
    exact remembered_told hg hs h hd he hp' ho
  cleared := hc

/-- The scheduler learns the result `r` of `key`. A failure is not yet remembered by anyone, but is
then still owed to every dependent. -/
theorem depart (hg : g.Sound) (hs : Scheduled g w decided) (h : Guarded g w decided)
    {r : Except Status Unit} {ds : List Departure} (hp : (w'.active ++ [key]).Perm w.active)
    (hds : ∀ d ∈ ds, ∃ d₁ ∈ w.departures, d₁.Leaves d)
    (hd : w'.departures.Perm (⟨some key, r.isOk, g.dependents key⟩ :: ds))
    (hb : ∀ k p, w'.blocked.get? k = some p → (p, k) ∈ g.edges ∧ ∃ s, (p, .error s) ∈ decided)
    (hrem : ∀ k p s, (p, k) ∈ g.edges → (p, .error s) ∈ decided →
      ¬ Owes w.active ds k (some p) → w'.blocked.get? k ≠ none)
    (hc : ∀ k ∈ w'.underway, k ∈ w.underway) : Guarded g w' (decided ++ [(key, r)]) where
  root d hd' hkey := by
    rcases List.mem_cons.mp (hd.mem_iff.mp hd') with rfl | hd'
    · cases hkey
    · obtain ⟨d₁, hd₁, hl⟩ := hds d hd'
      exact (h.departed_of_leaves hd₁ hl).1 hkey
  departed d hd' p hkey := by
    rcases List.mem_cons.mp (hd.mem_iff.mp hd') with rfl | hd'
    · cases hkey
      exact ⟨r, List.mem_append_right _ (List.mem_singleton_self _), rfl⟩
    · obtain ⟨d₁, hd₁, hl⟩ := hds d hd'
      obtain ⟨r', hr', he⟩ := (h.departed_of_leaves hd₁ hl).2 p hkey
      exact ⟨r', List.mem_append_left _ hr', he⟩
  blocked k p hn := by
    obtain ⟨he, s, hs⟩ := hb k p hn
    exact ⟨he, s, List.mem_append_left _ hs⟩
  remembered k p s he hps ho := by
    rw [hs.owes_departed hp hds hd hg (Graph.some_mem_sources.mpr he)] at ho
    rcases List.mem_append.mp hps with hps | hps
    · exact hrem k p s he hps ho
    · -- The failure that is just learned is owed: its node was active until now.
      have hkey : key ∈ w.active := hp.mem_iff.mp (by simp)
      cases List.mem_singleton.mp hps
      exact absurd (.inl ⟨key, hkey, rfl⟩) ho
  cleared k hk p he := List.mem_append_left _ (h.cleared k (hc k hk) p he)

end

/-- **Step.** Every step keeps what blocks a node. That a queued node has only predecessors that
succeeded (`cleared`) comes from `remembered`: it is not blocked, and nothing is owed to it. -/
theorem step (hg : g.Sound) (hs : Scheduled g w decided) (h : Guarded g w decided)
    (hst : Step setup g jobs w ch w' ds) : Guarded g w' (decided ++ ds) := by
  have hperm := hst.active_perm
  have hs' := hs.step hg hst
  cases hst with
  | idle hd hk ha =>
    obtain ⟨n, hn, -⟩ := hs.awaited_of_untold (hd ▸ List.mem_cons_self) hk
    rw [ha] at hn
    cases hn
  | countDown hd hk =>
    rw [List.map_nil, List.append_nil] at hperm
    rw [List.append_nil]
    exact h.tell hg hs hd hk hperm rfl rfl h.cleared
  | @enqueue d rest key n hd hk ha hn hc hb =>
    rw [List.map_nil, List.append_nil] at hperm
    rw [List.append_nil] at hs' ⊢
    refine h.tell hg hs hd hk hperm rfl rfl fun k hku p he => ?_
    by_cases hke : k = key
    · -- Had the predecessor `p` failed, `key` would remember a failure, and it is not blocked.
      subst hke
      obtain ⟨ho, r, hr⟩ := hs'.exists_result hg (by simp) he
      cases r with
      | ok u => exact hr
      | error s =>
        rw [owes_congr fun p => hperm.mem_iff] at ho
        exact absurd hb (remembered_told hg hs h hd he hr ho)
    · refine h.cleared k ?_ p he
      simpa [underway, hke] using hku
  | @skip d rest key n s hd hk ha hn hsk =>
    exact h.depart hg hs hperm (Scheduled.departures_told hd) (List.Perm.swap ..)
      (fun k p hb => blocked_told hs h hd hk hb)
      (fun k p s he hp ho => remembered_told hg hs h hd he hp ho) fun k hk => hk
  | @leave d rest hd hu =>
    rw [List.append_nil]
    have hsub : ∀ d' ∈ rest, d' ∈ w.departures := fun d' hd' => hd ▸ List.mem_cons_of_mem _ hd'
    refine ⟨fun d' hd' => h.root d' (hsub d' hd'), fun d' hd' => h.departed d' (hsub d' hd'),
      h.blocked, fun k p s he hp ho => h.remembered k p s he hp ?_, h.cleared⟩
    rwa [hd, owes_leave hu]
  | takeCancelled | takeAgain | takeUp | beginOver | beginCall | finishOver | finishBroken
  | cancel =>
    rw [List.map_nil, List.append_nil] at hperm
    rw [List.append_nil]
    exact h.move hperm rfl rfl rfl
  | @receive key c r hd hr hf =>
    refine h.depart hg hs hperm (fun d hd => absurd hd List.not_mem_nil) (List.Perm.refl _)
      h.blocked (fun k p s he hp ho => h.remembered k p s he hp (hd ▸ ho)) fun k hk => ?_
    unfold underway at hk ⊢
    simp only [List.mem_append] at hk ⊢
    exact hk.imp_right fun hk => (List.eraseP_sublist.map Prod.fst).subset hk

end Guarded

end Walk

end Provision
