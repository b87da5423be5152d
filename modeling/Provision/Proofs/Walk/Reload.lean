import Provision.Proofs.Walk.Recorded

/-!
# Reading back what was stored

A run keeps resources under the keys of their nodes. A state only lists them, and when it is read
back each resource stands under its own id.

* `Entry.Fits`: what was stored for a node has the key of the node as its id. `Entry.byId_replay`:
  an index in which resources stand under their own ids stays so by entries that fit.
* `Walk.Inv.fits`: on backends that keep ids every entry fits.
* `Walk.index_of_stored`: a state that was stored makes up the index of the run again if and only if
  resources stand in it under their own ids.
* `Walk.index_not_of_stored`: a backend that answers with another id spoils this.
-/

namespace Provision

namespace Entry

/-- What was stored has the key of its node as its id. -/
def Fits : Entry → Prop
  | .stored key (.upsert r) _ => r.key = key
  | _ => True

theorem Fits.byId_applyTo {e : Entry} (he : e.Fits) {m : Index} (hm : m.ById) :
    (e.applyTo m).ById := by
  intro k r hr
  rw [get?_applyTo] at hr
  split at hr
  · next hk =>
    cases e with
    | stored key change s =>
      cases change with
      | upsert q =>
        cases hr
        exact Eq.trans he hk
      | remove => cases hr
    | emitted | called | answered | notStored => exact hm k r hr
  · exact hm k r hr

/-- Entries that fit leave resources under their own ids, whatever they store or remove. -/
theorem byId_replay {es : List Entry} (h : ∀ e ∈ es, e.Fits) {m : Index} (hm : m.ById) :
    (replay es m).ById := by
  induction es generalizing m with
  | nil => exact hm
  | cons e es ih =>
    obtain ⟨he, hes⟩ := List.forall_mem_cons.mp h
    exact ih hes (he.byId_applyTo hm)

theorem fits_of_snapshots_nil {es : List Entry} (h : snapshots es = []) : ∀ e ∈ es, e.Fits := by
  intro e he
  cases e with
  | stored key change s =>
    have hnone := List.filterMap_eq_nil_iff.mp h _ he
    cases hnone
  | emitted | called | answered | notStored => exact trivial

end Entry

/-- On backends that keep ids an execution stores only what `Fits` its node. -/
theorem Change.Ended.fits {σ : Type} {setup : Setup σ} {known : Index} {c : Change}
    {state : NodeState} {r : Except Status Unit} {es : List Entry}
    (h : c.Ended setup known state r es) (hprior : setup.prior.ById) (hids : setup.KeepsIds) :
    ∀ e ∈ es, e.Fits := by
  cases h with
  | unfit | absent | refused | brokeDown => exact Entry.fits_of_snapshots_nil rfl
  | uncommitted he =>
    refine Entry.fits_of_snapshots_nil ?_
    rw [Entry.snapshots_append, he.snapshots_eq]
    rfl
  | @committed es m s he =>
    intro e hmem
    rcases List.mem_append.mp hmem with hmem | hmem
    · exact Entry.fits_of_snapshots_nil he.snapshots_eq e hmem
    · simp only [List.mem_cons, List.not_mem_nil, or_false] at hmem
      rcases hmem with rfl | rfl
      · cases m with
        | upsert r => exact he.key_eq hprior hids rfl
        | remove => exact trivial
      · exact trivial

namespace Walk

variable {σ : Type} {setup : Setup σ} {g : Graph} {jobs : Nat} {w : Walk σ}
  {decided : List (String × Except Status Unit)} {run₀ : Run σ} {entries : List Entry}

theorem Inv.fits (h : Inv setup g run₀ w decided entries) (hprior : setup.prior.ById)
    (hids : setup.KeepsIds) : ∀ e ∈ entries, e.Fits := by
  intro e he
  obtain ⟨stage, hstory⟩ := h.story_of_mem (h.lives.planned e he)
  have hmem : e ∈ Entry.about e.key entries := Entry.mem_about.mpr ⟨he, rfl⟩
  generalize w.stateOf e.key = state, Entry.about e.key entries = es at hstory hmem
  cases hstory with
  | waiting | resolving => cases hmem
  | calling | skipped => exact Entry.fits_of_snapshots_nil rfl e hmem
  | executed hf ha hend => exact hend.fits hprior hids e hmem

/-- **Main result.** A run begins with resources under their own ids. Whenever a state was stored,
it is `Run.state`, and it makes up the index of the run again if and only if resources still stand
there under their own ids (`Index.ById`). They do if whatever was stored `Fits`, as it does on
backends that keep ids. -/
theorem index_of_stored {op : Operation} {p : Plan} (hb : Graph.build op p = .ok g) {run : Run σ}
    (hr : run.recorded.ById) {cs : List Choice}
    (hw : (start g run .empty).steps? setup g jobs cs = some w) :
    ∃ es, w.run.history = run.history ++ es ∧
      (∀ s, (Entry.snapshots es).getLast? = some s →
        w.run.state = s ∧ (s.index = w.run.recorded ↔ w.run.recorded.ById)) ∧
      ((∀ e ∈ es, e.Fits) → w.run.recorded.ById) ∧
      (setup.prior.ById → setup.KeepsIds → ∀ e ∈ es, e.Fits) := by
  obtain ⟨decided, es, h⟩ := Inv.of_steps (Graph.build_sound hb).1 hw
  have hx := h.lives.run_extends
  refine ⟨es, hx.history, fun s hs => ?_, fun hfits => ?_, h.fits⟩
  · have hstate : w.run.state = s := by
      rw [hx.state, List.getLastD_eq_getLast?, hs]
      rfl
    have hne : Entry.snapshots es ≠ [] := by
      intro hnil
      rw [hnil] at hs
      cases hs
    refine ⟨hstate, ?_⟩
    unfold State.index
    rw [← hstate, hx.resources hne]
    exact Index.ofResources_byId_iff
  · rw [hx.recorded]
    exact Entry.byId_replay hfits hr

/-! ## A backend that renames what it creates -/

/-- Resource `a` is created. -/
def lone : Plan := [⟨⟨"a", "Local", [], []⟩, .create⟩]

/-- The graph of `lone`. -/
def loneGraph : Graph := ⟨.apply, lone, [], ["a"]⟩

/-- The backend returns what it is asked to apply, but gives `a` the id given. -/
def loneSetup (id : String) : Setup Unit :=
  .replying (fun _ r => .returned (if r.id = "a" then { r with id } else r)) .apply .empty []

/-- Its turn comes, it runs and ends. -/
def loneSteps : List Choice := [.tell "a", .leave, .take "a", .begin "a", .finish "a"]

/-- The walk that creates `a`, with the id that the backend gives it. -/
def loneWalk (id : String) : Option (Walk Unit) :=
  (start loneGraph (.ofState default) .empty).steps? (loneSetup id) loneGraph 1 loneSteps

/-- If `a` keeps its id, the state stored last makes up the index again. -/
theorem index_of_stored_lone :
    ∃ w, loneWalk "a" = some w ∧ w.run.recorded.contains "a" = true ∧
      w.run.state.index = w.run.recorded := by
  have hb : Graph.build .apply lone = .ok loneGraph := rfl
  have hr : (Run.ofState default).recorded.ById := Index.byId_ofResources _
  have hprior : (loneSetup "a").prior.ById := fun k r hk => nomatch hk
  have hids : (loneSetup "a").KeepsIds := Setup.replying_keepsIds fun _ planned applied h => by
    cases h
    split
    · next hid => exact hid.symm
    · rfl
  have hend : (loneWalk "a").any fun w => w.run.recorded.contains "a" &&
      (Entry.snapshots w.run.history).getLast?.isSome := by
    decide +kernel
  obtain ⟨w, hw, hend⟩ := (Option.any_eq_true _ _).mp hend
  obtain ⟨ha, hstored⟩ := Bool.and_eq_true_iff.mp hend
  obtain ⟨s, hs⟩ := Option.isSome_iff_exists.mp hstored
  obtain ⟨es, hes, hlast, hfits, hkeep⟩ := index_of_stored hb hr hw
  have hes : w.run.history = es := hes
  obtain ⟨hstate, hindex⟩ := hlast s (hes ▸ hs)
  refine ⟨w, hw, ha, ?_⟩
  rw [hstate]
  exact hindex.mpr (hfits (hkeep hprior hids))

/-- Without `Setup.KeepsIds` a stored state need not make up the index again: if the backend gives
`a` the id `zz`, which nothing else has, it is read back under `zz` and the key `a` is lost. -/
theorem index_not_of_stored :
    ¬ ∀ (op : Operation) (p : Plan) (g : Graph) (setup : Setup Unit) (run : Run Unit) (jobs : Nat)
      (cs : List Choice) (w : Walk Unit) (es : List Entry) (s : State),
      Graph.build op p = .ok g → setup.prior.ById → run.recorded.ById →
      (start g run .empty).steps? setup g jobs cs = some w → w.run.history = run.history ++ es →
      (Entry.snapshots es).getLast? = some s → s.index = w.run.recorded := by
  intro h
  have hend : (loneWalk "zz").any fun w =>
      (w.run.recorded.get? "a").any (·.id == "zz") &&
        (Entry.snapshots w.run.history).getLast?.isSome := by
    decide +kernel
  obtain ⟨w, hw, hend⟩ := (Option.any_eq_true _ _).mp hend
  obtain ⟨hother, hstored⟩ := Bool.and_eq_true_iff.mp hend
  obtain ⟨r, hr, hid⟩ := (Option.any_eq_true _ _).mp hother
  obtain ⟨s, hs⟩ := Option.isSome_iff_exists.mp hstored
  have hindex := h .apply lone loneGraph (loneSetup "zz") (.ofState default) 1 loneSteps
    w _ s rfl (fun k r hk => nomatch hk) (Index.byId_ofResources _) hw rfl hs
  -- What is read back stands under its own id, so nothing with the id `zz` stands under `a`.
  have hbyId : w.run.recorded.ById := hindex ▸ Index.byId_ofResources s.resources
  have hkey : r.id = "a" := hbyId "a" r hr
  rw [hkey] at hid
  cases hid

end Walk

end Provision
