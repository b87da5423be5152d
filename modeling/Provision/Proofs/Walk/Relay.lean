import Provision.Proofs.Walk.Calls

/-!
# What reaches the channel

* `Entry.events`: the events that a history reports, in order.
* `Channel.waiting_sendAll`: a channel that nobody drains keeps the first events up to its capacity.
* `Run.Relays`: a run went on and sent every event that it reported since. `Walk.Step.relays`,
  `Walk.relays_of_steps`: the steps of a walk do this, and nothing else reaches the channel.
-/

namespace Provision

namespace Entry

/-- The event that an entry reports. -/
def event? : Entry → Option Event
  | .emitted e => some e
  | .called .. | .answered .. | .stored .. | .notStored .. => none

/-- The events that a history reports, in order. -/
def events (es : List Entry) : List Event := es.filterMap event?

theorem events_append (es fs : List Entry) : events (es ++ fs) = events es ++ events fs :=
  List.filterMap_append ..

/-- `Entry.about` and `Entry.events` commute: a node reports no events but its own. -/
theorem events_about (k : String) (es : List Entry) :
    events (about k es) = (events es).filter (·.key = k) := by
  unfold events about
  rw [List.filterMap_filter, List.filter_filterMap]
  refine List.filterMap_congr fun e _ => ?_
  cases e with
  | emitted event => by_cases h : event.key = k <;> simp [event?, Entry.key, Option.filter, h]
  | called | answered | stored | notStored => simp [event?]

end Entry

namespace Channel

/-- Puts events in, one after the other. -/
def sendAll (c : Channel) (es : List Event) : Channel := es.foldl send c

theorem sendAll_append (c : Channel) (es fs : List Event) :
    c.sendAll (es ++ fs) = (c.sendAll es).sendAll fs := List.foldl_append

theorem send_of_room {c : Channel} (e : Event) (ho : c.isOpen = true)
    (hr : c.waiting.length < c.capacity) : c.send e = { c with waiting := c.waiting ++ [e] } :=
  if_pos ⟨ho, hr⟩

theorem send_of_full {c : Channel} (e : Event) (hf : c.waiting.length = c.capacity) :
    c.send e = c := if_neg fun h => Nat.lt_irrefl _ (hf ▸ h.2)

/-- A `Channel` that nobody drains keeps the first events up to its capacity; `send` drops the later
ones and does not wait. -/
theorem waiting_sendAll (es : List Event) {c : Channel} (ho : c.isOpen = true)
    (hc : c.waiting.length ≤ c.capacity) :
    (c.sendAll es).waiting = (c.waiting ++ es).take c.capacity := by
  induction es generalizing c with
  | nil =>
    rw [List.append_nil, List.take_of_length_le hc]
    rfl
  | cons e es ih =>
    rcases Nat.lt_or_eq_of_le hc with hr | hf
    · have hlen : (c.waiting ++ [e]).length ≤ c.capacity := by
        rw [List.length_append]
        exact hr
      rw [List.append_cons, ← ih (c := { c with waiting := c.waiting ++ [e] }) ho hlen,
        ← send_of_room e ho hr]
      rfl
    · rw [List.take_left' hf]
      show ((c.send e).sendAll es).waiting = _
      rw [send_of_full e hf, ih ho hc, List.take_left' hf]

end Channel

namespace Run

variable {σ : Type} {setup : Setup σ} {c : Change} {run run' run'' : Run σ}

/-- A run went on and sent every event that it reported since, in order. -/
def Relays (run run' : Run σ) : Prop :=
  ∃ es, run'.history = run.history ++ es ∧
    run'.progress = run.progress.map (·.sendAll (Entry.events es))

theorem Relays.refl (run : Run σ) : Relays run run :=
  ⟨[], (List.append_nil _).symm, by cases run.progress <;> rfl⟩

theorem Relays.trans (h : Relays run run') (h' : Relays run' run'') : Relays run run'' := by
  obtain ⟨es, hes, hp⟩ := h
  obtain ⟨fs, hfs, hq⟩ := h'
  refine ⟨es ++ fs, by rw [hfs, hes, List.append_assoc], ?_⟩
  rw [hq, hp, Option.map_map, Entry.events_append]
  cases run.progress with
  | none => rfl
  | some channel =>
    simp only [Option.map_some, Function.comp_apply]
    rw [Channel.sendAll_append]

theorem emit_relays (run : Run σ) (e : Event) : Relays run (run.emit e) := ⟨[.emitted e], rfl, rfl⟩

theorem relays_note {e : Entry} (he : e.event? = none) (hh : run'.history = run.history ++ [e])
    (hp : run'.progress = run.progress) : Relays run run' := by
  refine ⟨[e], hh, ?_⟩
  have hnil : Entry.events [e] = [] := List.filterMap_cons_none he
  rw [hp, hnil]
  cases run.progress <;> rfl

theorem commit_relays (setup : Setup σ) (key : String) (m : Mutation) (run : Run σ) :
    Relays run (run.commit setup key m).2 := by
  unfold commit
  dsimp only
  split
  · exact relays_note rfl rfl rfl
  · exact relays_note rfl rfl rfl

theorem conclude_relays (setup : Setup σ) (c : Change) (r : Except Status Unit) (run : Run σ) :
    Relays run (run.conclude setup c r) := emit_relays _ _

theorem begin_relays (setup : Setup σ) (c : Change) (run : Run σ) :
    Relays run (run.begin setup c).2 := by
  unfold begin
  split
  · exact conclude_relays ..
  · exact (emit_relays run _).trans (relays_note rfl rfl rfl)
  · exact conclude_relays ..
  · exact (commit_relays ..).trans (conclude_relays ..)

theorem finish_relays (setup : Setup σ) (c : Change) (call : Call) (run : Run σ) :
    Relays run (run.finish setup c call).2 := by
  have ha : ∀ o, Relays run (run.answered c.key call o) := fun o => relays_note rfl rfl rfl
  unfold finish
  dsimp only
  split
  · exact ((ha _).trans (commit_relays ..)).trans (conclude_relays ..)
  · exact (ha _).trans (conclude_relays ..)
  · exact ha _

end Run

namespace Walk

variable {σ : Type} {setup : Setup σ} {g : Graph} {jobs : Nat} {w w' : Walk σ} {ch : Choice}
  {ds : List (String × Except Status Unit)}

/-- A step sends every event that it reports, and in the order of the history. -/
theorem Step.relays (h : Step setup g jobs w ch w' ds) : Run.Relays w.run w'.run := by
  cases h with
  | idle | countDown | enqueue | leave | takeAgain | takeUp | receive => exact .refl _
  | cancel => exact .refl _
  | skip | takeCancelled => exact Run.emit_relays ..
  | @beginOver key c r run hb hf hr =>
    have := Run.begin_relays setup c w.run
    rwa [hr] at this
  | @beginCall key c call run hb hf hr =>
    have := Run.begin_relays setup c w.run
    rwa [hr] at this
  | @finishOver key c call r run hb hf hr =>
    have := Run.finish_relays setup c call w.run
    rwa [hr] at this
  | @finishBroken key c call run hb hf hr =>
    have := Run.finish_relays setup c call w.run
    rw [hr] at this
    exact this.trans (Run.emit_relays ..)

/-- **Run.** A walk sends every event that it reports: `Relays` is kept by steps, and transitive. -/
theorem relays_of_steps {cs : List Choice} (hw : w.steps? setup g jobs cs = some w') :
    Run.Relays w.run w'.run := by
  induction cs generalizing w with
  | nil =>
    cases hw
    exact .refl _
  | cons ch cs ih =>
    obtain ⟨v, hv, hw⟩ := Option.bind_eq_some_iff.mp hw
    obtain ⟨ds, hst⟩ := step_of_step? hv
    exact hst.relays.trans (ih hw)

end Walk

end Provision
