import Provision.Run

/-!
# What the history tells

The entries that are added to the history of a run tell everything else that happened to it.

* `Entry.applyTo`, `Entry.leaves`: what an entry does to an index, and to the resource at one key.
  `Entry.replay` does it for several entries, and `Entry.get?_replay` looks at one key.
* `Run.Extends`: a run went on to another one, which added some entries. Both indices are the old
  ones with these entries replayed, and the state is the one stored last.
* `Run.commit_extends`: a commit adds exactly one entry, and only a stored one changes anything:
  otherwise the change is undone (`Mutation.restore_applyTo`).
-/

namespace Provision

namespace Mutation

/-- The resource that a mutation leaves. -/
def resource? : Mutation → Option Resource
  | .upsert r => some r
  | .remove => none

/-- `Index.restore` with what was there before undoes a mutation, whether it was there or not. -/
theorem restore_applyTo (m : Mutation) (key : String) (index : Index) :
    (m.applyTo key index).restore key (index.get? key) = index := by
  refine Keyed.ext_get? fun k => ?_
  cases hr : index.get? key with
  | some r =>
    unfold Index.restore
    rw [Keyed.get?_insert, get?_applyTo]
    by_cases hk : key = k
    · rw [if_pos hk, ← hk, hr]
    · rw [if_neg hk, if_neg hk]
  | none =>
    unfold Index.restore
    rw [Keyed.get?_erase, get?_applyTo]
    by_cases hk : key = k
    · rw [if_pos hk, ← hk, hr]
    · rw [if_neg hk, if_neg hk]

end Mutation

namespace Entry

/-- What an entry does to an index. -/
def applyTo (e : Entry) (m : Index) : Index :=
  match e with
  | .stored key change _ => change.applyTo key m
  | _ => m

/-- What an entry leaves of the resource at its key. -/
def leaves (e : Entry) (r : Option Resource) : Option Resource :=
  match e with
  | .stored _ change _ => change.resource?
  | _ => r

/-- The state that was stored. -/
def snapshot? : Entry → Option State
  | .stored _ _ s => some s
  | _ => none

theorem get?_applyTo (e : Entry) (m : Index) (k : String) :
    (e.applyTo m).get? k = if e.key = k then e.leaves (m.get? k) else m.get? k := by
  cases e with
  | stored n change s =>
    simp only [applyTo, Entry.key, leaves]
    rw [Mutation.get?_applyTo]
    cases change <;> rfl
  | emitted | called | answered | notStored => simp [applyTo, leaves]

/-- Does what the entries do, in turn. -/
def replay (es : List Entry) (m : Index) : Index := es.foldl (fun m e => e.applyTo m) m

@[simp] theorem replay_nil (m : Index) : replay [] m = m := rfl

@[simp] theorem replay_cons (e : Entry) (es : List Entry) (m : Index) :
    replay (e :: es) m = replay es (e.applyTo m) := rfl

theorem replay_append (es fs : List Entry) (m : Index) :
    replay (es ++ fs) m = replay fs (replay es m) := List.foldl_append

/-- The entries about one node. -/
def about (k : String) (es : List Entry) : List Entry := es.filter (·.key = k)

/-- What entries leave of the resource at their key. -/
def outcome (es : List Entry) (r : Option Resource) : Option Resource :=
  es.foldl (fun r e => e.leaves r) r

theorem outcome_append (es fs : List Entry) (r : Option Resource) :
    outcome (es ++ fs) r = outcome fs (outcome es r) := List.foldl_append

theorem about_append (k : String) (es fs : List Entry) :
    about k (es ++ fs) = about k es ++ about k fs := List.filter_append ..

theorem about_eq_self {k : String} {es : List Entry} (h : ∀ e ∈ es, e.key = k) :
    about k es = es := by
  unfold about
  exact List.filter_eq_self.mpr fun e he => by simpa using h e he

theorem about_eq_nil {k n : String} {es : List Entry} (h : ∀ e ∈ es, e.key = n) (hk : n ≠ k) :
    about k es = [] := by
  unfold about
  refine List.filter_eq_nil_iff.mpr fun e he => ?_
  simpa [h e he] using hk

theorem mem_about {k : String} {es : List Entry} {e : Entry} :
    e ∈ about k es ↔ e ∈ es ∧ e.key = k := by
  simp [about]

/-- At one key, only the entries `about` it count. All that is proved about one node rests on
this. -/
theorem get?_replay (es : List Entry) (m : Index) (k : String) :
    (replay es m).get? k = outcome (about k es) (m.get? k) := by
  induction es generalizing m with
  | nil => rfl
  | cons e es ih =>
    rw [replay_cons, ih, get?_applyTo]
    unfold about
    by_cases h : e.key = k
    · rw [if_pos h, List.filter_cons_of_pos (by simpa using h)]
      rfl
    · rw [if_neg h, List.filter_cons_of_neg (by simpa using h)]

/-- The states stored, in order. -/
def snapshots (es : List Entry) : List State := es.filterMap snapshot?

theorem snapshots_append (es fs : List Entry) :
    snapshots (es ++ fs) = snapshots es ++ snapshots fs := List.filterMap_append ..

theorem mem_snapshots_of_stored {es : List Entry} {k : String} {m : Mutation} {s : State}
    (h : .stored k m s ∈ es) : s ∈ snapshots es := List.mem_filterMap.mpr ⟨_, h, rfl⟩

/-- Only `.stored` changes an index, and each `.stored` has a snapshot. -/
theorem replay_of_snapshots_nil {es : List Entry} (h : snapshots es = []) (m : Index) :
    replay es m = m := by
  induction es with
  | nil => rfl
  | cons e es ih =>
    have hn := List.filterMap_eq_nil_iff.mp h
    cases e with
    | stored key change s => exact absurd (hn _ List.mem_cons_self) (by simp [snapshot?])
    | emitted | called | answered | notStored =>
      exact ih (List.filterMap_eq_nil_iff.mpr fun e he => hn e (List.mem_cons_of_mem _ he))

end Entry

namespace Run

variable {σ : Type}

/-- A run went on from `run` to `run'` and added the entries `es` to the history. -/
structure Extends (run run' : Run σ) (es : List Entry) : Prop where
  history : run'.history = run.history ++ es
  known : run'.known = Entry.replay es run.known
  recorded : run'.recorded = Entry.replay es run.recorded
  state : run'.state = (Entry.snapshots es).getLastD run.state
  serial : run'.state.serial = run.state.serial + UInt64.ofNat (Entry.snapshots es).length
  resources : Entry.snapshots es ≠ [] → run'.state.resources = run'.recorded.byId
  cancelled : run.cancelled = true → run'.cancelled = true

namespace Extends

variable {run run' run'' : Run σ} {es fs : List Entry}

theorem refl (run : Run σ) : Extends run run [] where
  history := (List.append_nil _).symm
  known := rfl
  recorded := rfl
  state := rfl
  serial := (UInt64.add_zero _).symm
  resources h := absurd rfl h
  cancelled h := h

theorem trans (h : Extends run run' es) (h' : Extends run' run'' fs) :
    Extends run run'' (es ++ fs) where
  history := by rw [h'.history, h.history, List.append_assoc]
  known := by rw [h'.known, h.known, Entry.replay_append]
  recorded := by rw [h'.recorded, h.recorded, Entry.replay_append]
  state := by
    rw [h'.state, h.state, Entry.snapshots_append]
    cases hf : Entry.snapshots fs with
    | nil => simp
    | cons s ss => simp [List.getLastD_eq_getLast?]
  serial := by
    rw [h'.serial, h.serial, Entry.snapshots_append, List.length_append, UInt64.ofNat_add,
      UInt64.add_assoc]
  resources hne := by
    by_cases hf : Entry.snapshots fs = []
    · have he : Entry.snapshots es ≠ [] := fun he =>
        hne (by rw [Entry.snapshots_append, he, hf]; rfl)
      rw [h'.state, hf, h'.recorded, Entry.replay_of_snapshots_nil hf]
      exact h.resources he
    · exact h'.resources hf
  cancelled hc := h'.cancelled (h.cancelled hc)

/-- The resource that references find at a key after the run went on. -/
theorem get?_known (h : Extends run run' es) (k : String) :
    run'.known.get? k = Entry.outcome (Entry.about k es) (run.known.get? k) := by
  rw [h.known, Entry.get?_replay]

theorem get?_recorded (h : Extends run run' es) (k : String) :
    run'.recorded.get? k = Entry.outcome (Entry.about k es) (run.recorded.get? k) := by
  rw [h.recorded, Entry.get?_replay]

end Extends

/-- A run goes on by one entry that stores nothing, whatever becomes of its world and channel;
`Run.Extends` does not speak of these. -/
theorem extends_note {run run' : Run σ} {e : Entry} (he : e.snapshot? = none)
    (ha : ∀ m, e.applyTo m = m) (hh : run'.history = run.history ++ [e])
    (hk : run'.known = run.known) (hr : run'.recorded = run.recorded)
    (hs : run'.state = run.state) (hc : run.cancelled = true → run'.cancelled = true) :
    Extends run run' [e] := by
  have hn : Entry.snapshots [e] = [] := by simp [Entry.snapshots, he]
  refine ⟨hh, ?_, ?_, ?_, ?_, fun h => absurd hn h, hc⟩
  · rw [hk, Entry.replay_cons, ha, Entry.replay_nil]
  · rw [hr, Entry.replay_cons, ha, Entry.replay_nil]
  · rw [hn, hs]; rfl
  · rw [hn, hs]; exact (UInt64.add_zero _).symm

theorem emit_extends (run : Run σ) (e : Event) : Extends run (run.emit e) [.emitted e] :=
  extends_note rfl (fun _ => rfl) rfl rfl rfl rfl id

theorem cancel_extends (run : Run σ) : Extends run { run with cancelled := true } [] :=
  ⟨(List.append_nil _).symm, rfl, rfl, rfl, (UInt64.add_zero _).symm, fun h => absurd rfl h,
    fun _ => rfl⟩

/-- A commit adds one entry: `.stored`, with the new state, or `.notStored`, and then
`restore_applyTo` has both indices as they were. -/
theorem commit_extends {setup : Setup σ} {key : String} {m : Mutation} {run run' : Run σ}
    {result : Except Status Unit} (h : run.commit setup key m = (result, run')) :
    (∃ s, result = .ok () ∧ (setup.store s run.world).1 = .ok () ∧
      Extends run run' [.stored key m s]) ∨
    ∃ s cause, result = .error (.unstored key cause) ∧ (setup.store s run.world).1 = .error cause ∧
      Extends run run' [.notStored key m s cause] := by
  unfold commit at h
  dsimp only at h
  split at h
  · next u world hs =>
    obtain ⟨rfl, rfl⟩ := Prod.mk.inj h
    exact .inl ⟨_, rfl, by rw [hs], rfl, rfl, rfl, rfl, rfl, fun _ => rfl, id⟩
  · next cause world hs =>
    obtain ⟨rfl, rfl⟩ := Prod.mk.inj h
    exact .inr ⟨_, cause, rfl, by rw [hs], extends_note rfl (fun _ => rfl) rfl
      (m.restore_applyTo key run.known) (m.restore_applyTo key run.recorded) rfl id⟩

end Run

end Provision
