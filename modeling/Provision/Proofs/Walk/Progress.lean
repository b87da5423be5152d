import Mathlib.Algebra.BigOperators.Group.List.Basic
import Mathlib.Algebra.Order.Ring.Nat
import Provision.Proofs.Walk.Schedule

/-!
# Walks end

* `Walk.Step.work_lt`: every step but a cancellation leaves less work.
* `Walk.countP_add_work_le`: so a walk takes no more steps than there was work at its start, and
  `Walk.work_start_le` bounds that by the size of the graph.
* `Walk.Scheduled.exists_next`: a walk that is not over can go on.
* `Walk.advance_isOver`, `Graph.walk_isOver`: going on as long as possible ends a walk.
-/

namespace Provision

namespace Walk

variable {σ : Type} {setup : Setup σ} {g : Graph} {jobs : Nat} {w w' : Walk σ} {ch : Choice}
  {decided ds : List (String × Except Status Unit)}

theorem total_eq_sum {α : Type} (f : α → Nat) (xs : List α) : total f xs = (xs.map f).sum := by
  induction xs with
  | nil => rfl
  | cons x xs ih => exact congrArg (f x + ·) ih

theorem total_append {α : Type} (f : α → Nat) (xs ys : List α) :
    total f (xs ++ ys) = total f xs + total f ys := by
  simp only [total_eq_sum, List.map_append, List.sum_append]

theorem total_nil {α : Type} (f : α → Nat) : total f [] = 0 := rfl

theorem total_cons {α : Type} (f : α → Nat) (x : α) (xs : List α) :
    total f (x :: xs) = f x + total f xs := rfl

theorem total_perm {α : Type} (f : α → Nat) {xs ys : List α} (h : xs.Perm ys) :
    total f xs = total f ys := by
  rw [total_eq_sum, total_eq_sum]
  exact (h.map f).sum_eq

theorem total_erase {α : Type} [BEq α] [LawfulBEq α] (f : α → Nat) {x : α} {xs : List α}
    (h : x ∈ xs) : total f xs = f x + total f (xs.erase x) :=
  total_perm f (List.perm_cons_erase h)

theorem total_keys_erase {f : String → Nat} {m : Keyed Nat} {key : String} {n : Nat}
    (h : m.get? key = some n) : total f m.keys = f key + total f (m.erase key).keys :=
  total_perm f (Keyed.keys_perm_erase (Keyed.mem_keys.mpr ⟨n, h⟩))

/-! ## Work -/

theorem length_told {d : Departure} {key : String} (h : key ∈ d.untold) :
    (d.told key).untold.length + 1 = d.untold.length :=
  List.length_erase_add_one h

/-- **Measure.** Every step but a cancellation lowers `Walk.work`. A queued node weighs as much as
an awaited one, but has been told; resolving, calling, reported and departed it weighs less each
time. -/
theorem Step.work_lt (h : Step setup g jobs w ch w' ds) (hc : ch ≠ .cancel) :
    w'.work g < w.work g := by
  -- In each case the lists that the step changes are split at `key`, and the rest cancels.
  unfold work
  cases h with
  | idle hd hk =>
    have := length_told hk
    simp only [hd, total_cons]
    omega
  | countDown hd hk ha =>
    have := length_told hk
    simp only [hd, total_cons, Keyed.keys_insert (Keyed.mem_keys.mpr ⟨_, ha⟩)]
    omega
  | enqueue hd hk ha =>
    have := length_told hk
    simp only [hd, total_nil, total_cons, total_append, total_keys_erase ha]
    omega
  | skip hd hk ha =>
    have := length_told hk
    simp only [hd, total_cons, total_keys_erase ha, departureWork]
    omega
  | leave hd =>
    simp only [hd, total_cons]
    omega
  | takeCancelled hq | takeAgain hq =>
    simp only [total_append, total_nil, total_cons, total_erase _ hq]
    omega
  | takeUp hq =>
    simp only [total_append, total_nil, total_cons, total_erase _ hq, if_true]
    omega
  | beginOver hb =>
    simp only [total_append, total_nil, total_cons, total_erase _ hb, if_true]
    omega
  | beginCall hb =>
    simp only [total_append, total_nil, total_cons, total_erase _ hb, if_true, reduceCtorEq,
      if_false]
    omega
  | finishOver hb | finishBroken hb =>
    simp only [total_append, total_nil, total_cons, total_erase _ hb, reduceCtorEq, if_false]
    omega
  | receive hd hr =>
    simp only [hd, total_perm _ (results_perm hr), total_nil, total_cons, departureWork]
    omega
  | cancel => exact absurd rfl hc

/-- So the steps of a run, cancellations apart, are at most the work that it used up. A run may be
cancelled any number of times. -/
theorem countP_add_work_le {cs : List Choice} (h : w.steps? setup g jobs cs = some w') :
    cs.countP (· ≠ .cancel) + w'.work g ≤ w.work g := by
  induction cs generalizing w with
  | nil => cases h; simp
  | cons ch cs ih =>
    obtain ⟨v, hv, h⟩ := Option.bind_eq_some_iff.mp h
    obtain ⟨ds, hst⟩ := step_of_step? hv
    have hle := ih h
    rw [List.countP_cons]
    by_cases hc : ch = .cancel
    · subst hc
      -- A cancellation is not counted, and leaves the work as it is.
      cases hst
      rw [if_neg (by decide), Nat.add_zero]
      exact hle
    · have hlt := hst.work_lt hc
      rw [if_pos (by simpa using hc)]
      omega

theorem sum_length_after_le (es : Edges) {keys : List String} (hn : keys.Nodup) :
    (keys.map fun k => (es.after k).length).sum ≤ es.length := by
  induction es with
  | nil => simp [Edges.after]
  | cons e es ih =>
    have hsplit : ∀ k, (Edges.after (e :: es) k).length =
        (if k = e.1 then 1 else 0) + (Edges.after es k).length := fun k => by
      unfold Edges.after
      by_cases hk : e.1 = k
      · simp [hk, Nat.add_comm]
      · simp [hk, Ne.symm hk]
    -- The keys are distinct, so the edge `e` starts at one of them at most.
    have hone : (keys.map fun k => if k = e.1 then 1 else 0).sum ≤ 1 := by
      rw [List.sum_map_ite]
      have := List.nodup_iff_count_le_one.mp hn e.1
      simpa [List.count_eq_length_filter, beq_eq_decide] using this
    simp only [hsplit, List.sum_map_add, List.length_cons]
    omega

/-- The work at the start is linear in the size of the graph: six steps for each node, one for each
edge, and one to leave the start. -/
theorem work_start_le (hg : g.Sound) (run : Run σ) (states : Keyed NodeState) :
    (start g run states).work g ≤ 6 * g.size + g.edges.length + 1 := by
  have hkeys : (start g run states).awaited.keys.Perm g.plan.keys := by
    simpa [active, underway, start] using Scheduled.active_start hg run states
  have hafter := sum_length_after_le g.edges hg.keys_nodup
  have hentries : (g.edges.entries g.plan.keys).length ≤ g.size :=
    (List.length_filter_le ..).trans_eq (List.length_map ..)
  have hlen : g.plan.keys.length = g.size := List.length_map ..
  have hawaited : total (fun k => 4 + departureWork g k) (start g run states).awaited.keys ≤
      5 * g.size + g.edges.length := by
    rw [total_eq_sum, (hkeys.map _).sum_eq, ← hlen]
    simp only [departureWork, ← Nat.add_assoc, List.sum_map_add, List.map_const',
      List.sum_replicate, Graph.dependents, Nat.nsmul_eq_mul]
    omega
  unfold work
  simp only [start, total, List.foldr] at hawaited ⊢
  omega

/-! ## Going on -/

section

variable {key : String} {c : Change}

theorem isSome_tell {d : Departure} {rest : List Departure} (hd : w.departures = d :: rest)
    (hk : key ∈ d.untold) : (w.step? setup g jobs (.tell key)).isSome := by
  simp [step?, hd, hk]

theorem isSome_leave {d : Departure} {rest : List Departure} (hd : w.departures = d :: rest)
    (hu : d.untold = []) : (w.step? setup g jobs .leave).isSome := by
  obtain ⟨k, b, untold⟩ := d
  obtain rfl : untold = [] := hu
  simp [step?, hd]

theorem isSome_take (hq : key ∈ w.queue) (hl : w.busy.length < max 1 jobs) :
    (w.step? setup g jobs (.take key)).isSome := by
  simp only [step?, if_pos (And.intro hq hl)]
  split
  · rfl
  · split <;> rfl

theorem isSome_begin (hb : (key, .resolving) ∈ w.busy) (hf : g.find? key = some c) :
    (w.step? setup g jobs (.begin key)).isSome := by
  simp only [step?, if_pos hb, hf, Option.bind_eq_bind, Option.bind_some]
  split <;> rfl

theorem isSome_finish {call : Call} (hb : (key, .calling call) ∈ w.busy)
    (hf : g.find? key = some c) : (w.step? setup g jobs (.finish key)).isSome := by
  simp only [step?, hf, Option.bind_eq_bind, Option.bind_some]
  rw [Option.isSome_bind, Option.any_eq_true]
  refine Exists.imp (fun call' hcall => ⟨hcall, ?_⟩)
    (Option.isSome_iff_exists.mp (List.findSome?_isSome_iff.mpr ⟨_, hb, ?_⟩))
  · split <;> rfl
  · simp

theorem isSome_receive {r : Except Status Unit} {rest : List (String × Except Status Unit)}
    (hd : w.departures = []) (hr : w.results = (key, r) :: rest) (hf : g.find? key = some c) :
    (w.step? setup g jobs (.receive key)).isSome := by
  simp [step?, hd, hr, hf]

end

theorem exists_nextOfWorkers (hkeys : ∀ k ∈ w.underway, ∃ c, g.find? k = some c)
    (hb : w.busy ≠ []) :
    ∃ ch, w.nextOfWorkers? = some ch ∧ ch ≠ .cancel ∧ (w.step? setup g jobs ch).isSome := by
  obtain ⟨⟨key, t⟩, rest, hbusy⟩ := List.exists_cons_of_ne_nil hb
  have hmem : (key, t) ∈ w.busy := hbusy ▸ List.mem_cons_self
  obtain ⟨c, hc⟩ := hkeys key (mem_underway_of_busy hmem)
  unfold nextOfWorkers?
  rw [hbusy]
  cases t with
  | resolving => exact ⟨_, rfl, nofun, isSome_begin hmem hc⟩
  | calling call => exact ⟨_, rfl, nofun, isSome_finish hmem hc⟩

/-- **Progress.** Until it is over, a scheduled walk has a possible step that is no cancellation,
and `next?` finds it. A full pool is no obstacle, as each worker in it can go on. -/
theorem Scheduled.exists_next (h : Scheduled g w decided) (setup : Setup σ) (jobs : Nat)
    (ho : w.isOver = false) :
    ∃ ch, w.next? jobs = some ch ∧ ch ≠ .cancel ∧ (w.step? setup g jobs ch).isSome := by
  have hkeys : ∀ k ∈ w.underway, ∃ c, g.find? k = some c := fun k hk =>
    Plan.mem_keys.mp (h.mem_keys (mem_active_of_underway hk))
  unfold next?
  split
  · next hd => exact ⟨_, rfl, nofun, isSome_tell hd List.mem_cons_self⟩
  · next hd => exact ⟨_, rfl, nofun, isSome_leave hd rfl⟩
  · next hd =>
    split
    · next key r rest hr =>
      obtain ⟨c, hc⟩ := hkeys key (mem_underway_of_result (hr ▸ List.mem_cons_self))
      exact ⟨_, rfl, nofun, isSome_receive hd hr hc⟩
    · next hr hq =>
      refine exists_nextOfWorkers hkeys fun hb => ?_
      rw [isOver, hd, hq, hb, hr] at ho
      cases ho
    · next key rest hr hq =>
      split
      · next hl => exact ⟨_, rfl, nofun, isSome_take (hq ▸ List.mem_cons_self) hl⟩
      · next hfull =>
        -- All workers are busy, and there is at least one.
        refine exists_nextOfWorkers hkeys fun hb => hfull ?_
        rw [hb]
        exact Nat.lt_of_lt_of_le Nat.one_pos (Nat.le_max_left ..)

theorem next?_of_isOver (ho : w.isOver = true) : w.next? jobs = none := by
  unfold isOver at ho
  simp only [Bool.and_eq_true, List.isEmpty_iff] at ho
  obtain ⟨⟨⟨hd, hq⟩, hb⟩, hr⟩ := ho
  simp [next?, nextOfWorkers?, hd, hq, hb, hr]

/-- **Fuel.** With as much fuel as there is work, `advance` ends the walk, and by steps of `step?`
alone. -/
theorem advance_isOver (hg : g.Sound) (h : Scheduled g w decided) {fuel : Nat}
    (hf : w.work g ≤ fuel) :
    (advance setup g jobs fuel w).isOver = true ∧
      ∃ cs, w.steps? setup g jobs cs = some (advance setup g jobs fuel w) := by
  induction fuel generalizing w decided with
  | zero =>
    cases ho : w.isOver with
    | true => exact ⟨ho, [], rfl⟩
    | false =>
      -- There is no work left, but a walk that can go on has some.
      obtain ⟨ch, -, hc, hs⟩ := h.exists_next setup jobs ho
      obtain ⟨v, hv⟩ := Option.isSome_iff_exists.mp hs
      obtain ⟨ds, hst⟩ := step_of_step? hv
      have hlt := hst.work_lt hc
      omega
  | succ fuel ih =>
    unfold advance
    cases ho : w.isOver with
    | true =>
      rw [next?_of_isOver ho]
      exact ⟨ho, [], rfl⟩
    | false =>
      obtain ⟨ch, hnext, hc, hs⟩ := h.exists_next setup jobs ho
      obtain ⟨v, hv⟩ := Option.isSome_iff_exists.mp hs
      obtain ⟨ds, hst⟩ := step_of_step? hv
      have hlt := hst.work_lt hc
      obtain ⟨hover, cs, hcs⟩ := ih (h.step hg hst) (by omega)
      rw [hnext, Option.bind_some, hv]
      exact ⟨hover, ch :: cs, Option.bind_eq_some_iff.mpr ⟨v, hv, hcs⟩⟩

/-- From any walk that satisfies `Scheduled`, however it came about, some steps lead to the end. -/
theorem Scheduled.exists_isOver (setup : Setup σ) (jobs : Nat) (hg : g.Sound)
    (h : Scheduled g w decided) :
    ∃ cs v, w.steps? setup g jobs cs = some v ∧ v.isOver = true := by
  obtain ⟨hover, cs, hcs⟩ : (advance setup g jobs (w.work g) w).isOver = true ∧ _ :=
    advance_isOver hg h (Nat.le_refl _)
  exact ⟨cs, _, hcs, hover⟩

end Walk

namespace Graph

variable {σ : Type} {setup : Setup σ} {g : Graph} {jobs : Nat}

/-- `Graph.walk` comes to an end, and what it does is a sequence of possible steps; so all that is
proved of `steps?` holds of it. -/
theorem walk_isOver (hg : g.Sound) (run : Run σ) (states : Keyed NodeState) :
    (g.walk setup jobs run states).isOver = true ∧
      ∃ cs, (Walk.start g run states).steps? setup g jobs cs =
        some (g.walk setup jobs run states) :=
  Walk.advance_isOver hg (.start hg run states) (Nat.le_refl _)

end Graph

end Provision
