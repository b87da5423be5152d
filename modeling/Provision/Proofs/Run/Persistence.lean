import Provision.Proofs.Run.Ending
import Provision.Proofs.State.Index
import Provision.Proofs.Walk.Step

/-!
# What is persisted

* `Run.Activity`: what can happen to a run. `Run.acts` carries out several activities in turn; the
  two parts of an execution are activities of their own, so a list of activities can interleave
  executions and commits in any way. `Run.execute_eq_acts`, `Walk.run_eq_acts`: an execution in one
  go and a walk are among them.
* `Entry.attempts`: the states that were handed to the store, with its answers.
* `Run.act_persists`: an activity hands at most one state to the store.
* `Run.persisted`: after any activities the state is the one stored last, it lists the resources
  recorded, its serial counts the stores, and a store that fails changes nothing.
-/

namespace Provision

namespace Entry

/-- The state that was handed to the store, with its answer. -/
def attempt? : Entry → Option (State × Except String Unit)
  | .stored _ _ s => some (s, .ok ())
  | .notStored _ _ s cause => some (s, .error cause)
  | .emitted _ | .called _ _ | .answered _ _ _ => none

/-- The states that were handed to the store, in order, with its answers. -/
def attempts (es : List Entry) : List (State × Except String Unit) := es.filterMap attempt?

theorem attempts_append (es fs : List Entry) :
    attempts (es ++ fs) = attempts es ++ attempts fs := List.filterMap_append ..

/-- The states stored are those of `attempts` for which the store answered so. -/
theorem snapshots_eq (es : List Entry) :
    snapshots es = (attempts es).filterMap fun a => if a.2.isOk then some a.1 else none := by
  unfold snapshots attempts
  rw [List.filterMap_filterMap]
  refine List.filterMap_congr fun e _ => ?_
  cases e <;> rfl

end Entry

namespace Run

variable {σ : Type} {setup : Setup σ} {run run' run'' : Run σ} {es fs : List Entry}

/-- What can happen to a run. -/
inductive Activity (σ : Type) where
  /-- An execution starts, up to the start of its call. -/
  | begin (c : Change)
  /-- The call of an execution ends. -/
  | finish (c : Change) (call : Call)
  | commit (key : String) (m : Mutation)
  | emit (e : Event)
  | cancel
  /-- The world and the channel change from outside. -/
  | outside (world : σ) (progress : Option Channel)

/-- The run after an activity. -/
def act (setup : Setup σ) (run : Run σ) : Activity σ → Run σ
  | .begin c => (run.begin setup c).2
  | .finish c call => (run.finish setup c call).2
  | .commit key m => (run.commit setup key m).2
  | .emit e => run.emit e
  | .cancel => { run with cancelled := true }
  | .outside world progress => { run with world, progress }

/-- The run after several activities, one after the other. -/
def acts (setup : Setup σ) (run : Run σ) (as : List (Activity σ)) : Run σ := as.foldl (act setup) run

theorem acts_append (setup : Setup σ) (run : Run σ) (as bs : List (Activity σ)) :
    run.acts setup (as ++ bs) = (run.acts setup as).acts setup bs := List.foldl_append

/-- An execution in one go is two activities, or one, or none. -/
theorem execute_eq_acts (setup : Setup σ) (c : Change) (state : NodeState) (run : Run σ) :
    ∃ as, (run.execute setup c state).2.2 = run.acts setup as := by
  unfold execute
  split
  · exact ⟨[], rfl⟩
  · rcases hb : run.begin setup c with ⟨r | call, run₁⟩
    · rcases hf : run₁.finish setup c r with ⟨_ | _, run₂⟩
      · exact ⟨[.begin c, .finish c r], by simp [acts, act, hb, hf]⟩
      · exact ⟨[.begin c, .finish c r], by simp [acts, act, hb, hf]⟩
    · exact ⟨[.begin c], by simp [acts, act, hb]⟩

/-! ## Attempts to store -/

/-- A run went on, and handed at most one state to the store. -/
structure Persists (setup : Setup σ) (run run' : Run σ) (es : List Entry) : Prop where
  run_extends : Extends run run' es
  attempts : Entry.attempts es = [] ∨
    ∃ s r world, Entry.attempts es = [(s, r)] ∧ (setup.store s world).1 = r

namespace Persists

theorem quiet (h : Extends run run' es) (hq : Entry.attempts es = []) :
    Persists setup run run' es := ⟨h, .inl hq⟩

theorem trans_quiet (h : Persists setup run run' es) (h' : Extends run' run'' fs)
    (hq : Entry.attempts fs = []) : Persists setup run run'' (es ++ fs) where
  run_extends := h.run_extends.trans h'
  attempts := by
    rw [Entry.attempts_append, hq, List.append_nil]
    exact h.attempts

theorem quiet_trans (h : Extends run run' es) (hq : Entry.attempts es = [])
    (h' : Persists setup run' run'' fs) : Persists setup run run'' (es ++ fs) where
  run_extends := h.trans h'.run_extends
  attempts := by
    rw [Entry.attempts_append, hq, List.nil_append]
    exact h'.attempts

/-- `Persists` allows one attempt at most, so where the store failed, nothing else was stored. -/
theorem snapshots_of_failed (h : Persists setup run run' es) {s : State} {cause : String}
    (hs : (s, .error cause) ∈ Entry.attempts es) : Entry.snapshots es = [] := by
  rcases h.attempts with hn | ⟨s', r, world, hone, -⟩
  · rw [hn] at hs
    cases hs
  · rw [hone, List.mem_singleton] at hs
    rw [Entry.snapshots_eq, hone, ← hs]
    rfl

end Persists

/-- A commit hands one state to the store, and keeps it if the store does. -/
theorem commit_persists (setup : Setup σ) (run : Run σ) (key : String) (m : Mutation) :
    ∃ es, Persists setup run (run.commit setup key m).2 es := by
  rcases hc : run.commit setup key m with ⟨result, run'⟩
  rcases commit_extends hc with ⟨s, -, hs, hx⟩ | ⟨s, cause, -, hs, hx⟩
  · exact ⟨_, hx, .inr ⟨s, .ok (), run.world, rfl, hs⟩⟩
  · exact ⟨_, hx, .inr ⟨s, .error cause, run.world, rfl, hs⟩⟩

theorem begin_persists (setup : Setup σ) (run : Run σ) (c : Change) :
    ∃ es, Persists setup run (run.begin setup c).2 es := by
  unfold begin
  split
  · exact ⟨_, .quiet (conclude_extends _ _) rfl⟩
  · next call hi =>
    refine ⟨c.opening call, .quiet ((emit_extends run _).trans ?_) rfl⟩
    exact extends_note rfl (fun _ => rfl) rfl rfl rfl rfl id
  · exact ⟨_, .quiet (conclude_extends _ _) rfl⟩
  · next recorded hi =>
    obtain ⟨es, h⟩ := commit_persists setup run c.key (.upsert recorded)
    exact ⟨_, h.trans_quiet (conclude_extends _ _) rfl⟩

theorem finish_persists (setup : Setup σ) (run : Run σ) (c : Change) (call : Call) :
    ∃ es, Persists setup run (run.finish setup c call).2 es := by
  have ha := run.answered_extends c.key call (setup.perform call run.cancelled run.world)
  unfold finish
  dsimp only
  split
  · next m hm =>
    obtain ⟨es, h⟩ := commit_persists setup
      (run.answered c.key call (setup.perform call run.cancelled run.world)) c.key m
    exact ⟨_, (h.trans_quiet (conclude_extends _ _) rfl).quiet_trans ha rfl⟩
  · exact ⟨_, .quiet (ha.trans (conclude_extends _ _)) rfl⟩
  · exact ⟨_, .quiet ha rfl⟩

/-- **One activity.** Whatever the activity, it hands at most one state to the store. -/
theorem act_persists (setup : Setup σ) (run : Run σ) (a : Activity σ) :
    ∃ es, Persists setup run (run.act setup a) es := by
  cases a with
  | begin c => exact begin_persists setup run c
  | finish c call => exact finish_persists setup run c call
  | commit key m => exact commit_persists setup run key m
  | emit e => exact ⟨_, .quiet (emit_extends run e) rfl⟩
  | cancel => exact ⟨_, .quiet (cancel_extends run) rfl⟩
  | outside world progress =>
    exact ⟨[], .quiet ⟨(List.append_nil _).symm, rfl, rfl, rfl, (UInt64.add_zero _).symm,
      fun h => absurd rfl h, id⟩ rfl⟩

/-- **Several activities.** Each state that they hand to the store has its answer from it, in some
world. -/
theorem acts_extends (setup : Setup σ) (run : Run σ) (as : List (Activity σ)) :
    ∃ es, Extends run (run.acts setup as) es ∧
      ∀ s r, (s, r) ∈ Entry.attempts es → ∃ world, (setup.store s world).1 = r := by
  induction as generalizing run with
  | nil => exact ⟨[], .refl run, fun s r h => absurd h List.not_mem_nil⟩
  | cons a as ih =>
    obtain ⟨es, ha⟩ := act_persists setup run a
    obtain ⟨fs, hx, hfs⟩ := ih (run.act setup a)
    refine ⟨es ++ fs, ha.run_extends.trans hx, fun s r h => ?_⟩
    rw [Entry.attempts_append, List.mem_append] at h
    rcases h with h | h
    · rcases ha.attempts with hn | ⟨s', r', world, hone, hs⟩
      · rw [hn] at h
        cases h
      · rw [hone, List.mem_singleton] at h
        cases h
        exact ⟨world, hs⟩
    · exact hfs s r h

/-- **What is persisted.** After any activities, the state is the one stored last. Once a state was
stored, it lists the resources recorded, sorted by id, and its serial counts the states stored, as
long as 64 bits hold it. An activity for which the store failed leaves both indices and the state
alone. -/
theorem persisted (setup : Setup σ) (run : Run σ) (as : List (Activity σ)) :
    ∃ es, (run.acts setup as).history = run.history ++ es ∧
      (∀ s r, (s, r) ∈ Entry.attempts es → ∃ world, (setup.store s world).1 = r) ∧
      (run.acts setup as).state = (Entry.snapshots es).getLastD run.state ∧
      (Entry.snapshots es ≠ [] →
        (run.acts setup as).state.resources.Pairwise (fun a b => a.id ≤ b.id) ∧
        (run.acts setup as).state.resources.Perm (run.acts setup as).recorded.values) ∧
      (run.state.serial.toNat + (Entry.snapshots es).length < UInt64.size →
        (run.acts setup as).state.serial.toNat =
          run.state.serial.toNat + (Entry.snapshots es).length) ∧
      ∀ a fs, (run.acts setup (as ++ [a])).history = (run.acts setup as).history ++ fs →
        (∃ s cause, (s, .error cause) ∈ Entry.attempts fs) →
        (run.acts setup (as ++ [a])).recorded = (run.acts setup as).recorded ∧
        (run.acts setup (as ++ [a])).known = (run.acts setup as).known ∧
        (run.acts setup (as ++ [a])).state = (run.acts setup as).state := by
  obtain ⟨es, hx, hes⟩ := acts_extends setup run as
  refine ⟨es, hx.history, hes, hx.state, fun hs => ?_, fun hlt => ?_, fun a fs hh => ?_⟩
  · rw [hx.resources hs]
    exact ⟨Index.byId_pairwise _, Index.byId_perm _⟩
  · rw [hx.serial, UInt64.toNat_add, UInt64.toNat_ofNat']
    unfold UInt64.size at hlt
    omega
  · rintro ⟨s, cause, hfail⟩
    rw [acts_append] at hh ⊢
    obtain ⟨fs', ha⟩ := act_persists setup (run.acts setup as) a
    obtain rfl : fs = fs' := List.append_cancel_left (hh.symm.trans ha.run_extends.history)
    have hn := ha.snapshots_of_failed hfail
    refine ⟨?_, ?_, ?_⟩
    · exact ha.run_extends.recorded.trans (Entry.replay_of_snapshots_nil hn _)
    · exact ha.run_extends.known.trans (Entry.replay_of_snapshots_nil hn _)
    · exact ha.run_extends.state.trans (by rw [hn]; rfl)

end Run

namespace Walk

variable {σ : Type} {setup : Setup σ} {g : Graph} {jobs : Nat} {w w' : Walk σ} {ch : Choice}
  {ds : List (String × Except Status Unit)}

/-- A step does nothing to the run but activities; what it does to the queue and to the nodes is not
part of the run. -/
theorem Step.run_eq_acts (h : Step setup g jobs w ch w' ds) :
    ∃ as, w'.run = w.run.acts setup as := by
  cases h with
  | idle | countDown | enqueue | leave | takeAgain | takeUp | receive => exact ⟨[], rfl⟩
  | skip | takeCancelled => exact ⟨[.emit _], rfl⟩
  | cancel => exact ⟨[.cancel], rfl⟩
  | beginOver hb hf hr | beginCall hb hf hr => exact ⟨[.begin _], (congrArg Prod.snd hr).symm⟩
  | finishOver hb hf hr => exact ⟨[.finish _ _], (congrArg Prod.snd hr).symm⟩
  | @finishBroken key c call run hb hf hr =>
    refine ⟨[.finish c call, .emit ⟨key, .failed, some (.brokeDown key)⟩], ?_⟩
    exact congrArg (Run.emit · _) (congrArg Prod.snd hr).symm

/-- So `Run.persisted` holds of every walk, at any time of it. -/
theorem run_eq_acts {cs : List Choice} (hw : w.steps? setup g jobs cs = some w') :
    ∃ as, w'.run = w.run.acts setup as := by
  induction cs generalizing w with
  | nil =>
    cases hw
    exact ⟨[], rfl⟩
  | cons ch cs ih =>
    obtain ⟨v, hv, hw⟩ := Option.bind_eq_some_iff.mp hw
    obtain ⟨ds, hst⟩ := step_of_step? hv
    obtain ⟨as, has⟩ := hst.run_eq_acts
    obtain ⟨bs, hbs⟩ := ih hw
    exact ⟨as ++ bs, by rw [Run.acts_append, ← has, hbs]⟩

end Walk

end Provision
