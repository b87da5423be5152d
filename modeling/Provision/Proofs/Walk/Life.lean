import Provision.Proofs.Graph.Reads
import Provision.Proofs.Walk.Turn

/-!
# What happens to a node

* `Walk.Story`: what has become of a node at each stage: its state, all that the history tells about
  it, and for a node that was executed how that came about.
* `Walk.Lives`: in a walk of fresh nodes every node has its story, and the history never tells of a
  node after it has told of one that waits for it. `Lives.start`, `Lives.step`: every walk keeps
  this.
-/

namespace Provision

namespace Walk

variable {σ : Type} {setup : Setup σ} {g : Graph} {jobs : Nat} {w w' : Walk σ} {ch : Choice}
  {decided ds : List (String × Except Status Unit)}

/-! ## Stories -/

/-- What has become of the node `k` at a stage: its state and what the history tells about it. -/
inductive Story (setup : Setup σ) (g : Graph) (decided : List (String × Except Status Unit))
    (run : Run σ) (k : String) : Stage → NodeState → List Entry → Prop
  | waiting : Story setup g decided run k .waiting .pending []
  | resolving : Story setup g decided run k .resolving .resolving []
  | calling {c : Change} {known : Index} {call : Call} (hf : g.find? k = some c)
    (ha : g.Agree k known run.known) (hi : c.intent setup known = .ok (.call call)) :
    Story setup g decided run k (.calling call) .executing (c.opening call)
  | executed {c : Change} {known : Index} {r : Except Status Unit} {state : NodeState}
    {es : List Entry} (hf : g.find? k = some c) (ha : g.Agree k known run.known)
    (he : c.Ended setup known state r es) (hp : ∀ p, (p, k) ∈ g.edges → (p, .ok ()) ∈ decided) :
    Story setup g decided run k (.ended r) state es
  | skipped {s : Status} (hw : Withheld g decided run.cancelled k s) :
    Story setup g decided run k (.ended (.error s)) .pending [.emitted ⟨k, .skipped, some s⟩]

section

variable {run : Run σ} {k : String} {state : NodeState} {es : List Entry}

theorem Story.of_waiting (h : Story setup g decided run k .waiting state es) :
    state = .pending ∧ es = [] := by
  cases h
  exact ⟨rfl, rfl⟩

theorem Story.of_resolving (h : Story setup g decided run k .resolving state es) :
    state = .resolving ∧ es = [] := by
  cases h
  exact ⟨rfl, rfl⟩

theorem Story.of_calling {call : Call}
    (h : Story setup g decided run k (.calling call) state es) :
    state = .executing ∧ ∃ c known, g.find? k = some c ∧ g.Agree k known run.known ∧
      c.intent setup known = .ok (.call call) ∧ es = c.opening call := by
  cases h with
  | calling hf ha hi => exact ⟨rfl, _, _, hf, ha, hi, rfl⟩

/-- **Inversion.** A node that has ended was executed after all its predecessors succeeded, or else
it was withheld and is still pending. -/
theorem Story.of_ended {r : Except Status Unit}
    (h : Story setup g decided run k (.ended r) state es) :
    (∃ c known, g.find? k = some c ∧ g.Agree k known run.known ∧ c.Ended setup known state r es ∧
      ∀ p, (p, k) ∈ g.edges → (p, .ok ()) ∈ decided) ∨
    ∃ s, r = .error s ∧ Withheld g decided run.cancelled k s ∧ state = .pending ∧
      es = [.emitted ⟨k, .skipped, some s⟩] := by
  cases h with
  | executed hf ha he hp => exact .inl ⟨_, _, hf, ha, he, hp⟩
  | skipped hw => exact .inr ⟨_, rfl, hw, rfl, rfl⟩

theorem Story.waiting_of_pending {stage : Stage} (h : Story setup g decided run k stage .pending es)
    (he : ∀ r, stage ≠ .ended r) : stage = .waiting := by
  cases h with
  | waiting => rfl
  | executed | skipped => exact absurd rfl (he _)

/-- `NodeState.succeeded` stands for the result `.ok ()` and for no other; a skipped node stays
pending. -/
theorem Story.succeeded_iff {r : Except Status Unit}
    (h : Story setup g decided run k (.ended r) state es) : state = .succeeded ↔ r = .ok () := by
  rcases h.of_ended with ⟨c, known, -, -, he, -⟩ | ⟨s, rfl, -, rfl, -⟩
  · exact he.succeeded_iff
  · exact ⟨nofun, nofun⟩

end

/-- A `Story` stays true while `run.known` changes at no resource that its node can read (`ha`). A
waiting node has read nothing yet, so nothing is asked for it. -/
theorem Story.mono {run run' : Run σ} {k : String} {stage : Stage} {state : NodeState}
    {es : List Entry} (h : Story setup g decided run k stage state es)
    (hc : run.cancelled = true → run'.cancelled = true)
    (ha : stage ≠ .waiting → g.Agree k run.known run'.known) :
    Story setup g (decided ++ ds) run' k stage state es := by
  cases h with
  | waiting => exact .waiting
  | resolving => exact .resolving
  | calling hf hk hi => exact .calling hf (hk.trans (ha nofun)) hi
  | executed hf hk he hp =>
    refine .executed hf (hk.trans (ha nofun)) he fun p hpk => ?_
    exact List.mem_append_left _ (hp p hpk)
  | skipped hw =>
    exact .skipped (hw.mono hc)

/-- **Step.** A turn goes on with the `Story` of its node. `ha`: it changes nothing that the node
can read, so what was known as a call was begun still agrees with what is known as it is
answered. -/
theorem Story.turn {run run' : Run σ} {k : String} {stage stage' : Stage} {state state' : NodeState}
    {before es : List Entry} (h : Story setup g decided run k stage state before)
    (ht : Turn setup g decided run k ch stage state stage' state' es)
    (hc : run.cancelled = true → run'.cancelled = true) (ha : g.Agree k run.known run'.known)
    (hp : stage ≠ .waiting → ∀ p, (p, k) ∈ g.edges → (p, .ok ()) ∈ decided) :
    Story setup g (decided ++ ds) run' k stage' state' (before ++ es) := by
  have hp' : stage ≠ .waiting → ∀ p, (p, k) ∈ g.edges → (p, .ok ()) ∈ decided ++ ds :=
    fun hw p he => List.mem_append_left _ (hp hw p he)
  cases ht with
  | skipped hch hw =>
    obtain ⟨rfl, rfl⟩ := h.of_waiting
    exact .skipped (hw.mono hc)
  | passed hs => exact absurd h.of_waiting.1 hs
  | taken =>
    obtain ⟨-, rfl⟩ := h.of_waiting
    exact .resolving
  | uncalled hf he =>
    obtain ⟨-, rfl⟩ := h.of_resolving
    exact .executed hf ha he (hp' nofun)
  | called hf hi =>
    obtain ⟨-, rfl⟩ := h.of_resolving
    exact .calling hf ha hi
  | answered hf he =>
    obtain ⟨-, c, known, hf', hk, hi, rfl⟩ := h.of_calling
    obtain rfl := Option.some.inj (hf'.symm.trans hf)
    exact .executed hf (hk.trans ha) (he known hi) (hp' nofun)
  -- The answer belongs to the call that was begun, with what was known then.
  | brokeDown hf hanswer =>
    obtain ⟨rfl, c, known, hf', hk, hi, rfl⟩ := h.of_calling
    obtain rfl := Option.some.inj (hf'.symm.trans hf)
    have he := Change.Ended.brokeDown hi hanswer
    rw [(Plan.find?_eq_some hf).2] at he
    exact .executed hf (hk.trans ha) he (hp' nofun)

theorem Story.attended {run : Run σ} {k : String} {stage : Stage} {state : NodeState}
    {es : List Entry} (h : Story setup g decided run k stage state es) :
    Attended setup g k stage state where
  resolving he := by
    subst he
    exact h.of_resolving.1
  calling call he := by
    subst he
    obtain ⟨hs, c, known, hf, -, hi, -⟩ := h.of_calling
    exact ⟨hs, c, known, hf, hi⟩

/-- What every walk of fresh nodes keeps: it went on from `run₀` and added `entries` to the
history. -/
structure Lives (setup : Setup σ) (g : Graph) (run₀ : Run σ) (w : Walk σ)
    (decided : List (String × Except Status Unit)) (entries : List Entry) : Prop where
  run_extends : Run.Extends run₀ w.run entries
  planned : ∀ e ∈ entries, e.key ∈ g.plan.keys
  /-- The history never tells of a node after one that waits for it. -/
  ordered : entries.Pairwise fun e e' => (e'.key, e.key) ∉ g.edges
  story : ∀ k stage, (k, stage) ∈ w.places decided →
    Story setup g decided w.run k stage (w.stateOf k) (Entry.about k entries)

namespace Lives

variable {run₀ : Run σ} {entries es : List Entry}

theorem start (run : Run σ) : Lives setup g run (start g run .empty) [] [] where
  run_extends := .refl run
  planned e he := absurd he List.not_mem_nil
  ordered := List.Pairwise.nil
  story k stage hp := by
    obtain rfl := eq_waiting_of_mem_start hp
    exact .waiting

theorem awaited_of_mem (h : Lives setup g run₀ w decided entries) {e : Entry} (he : e ∈ entries) :
    w.awaited.get? e.key = none := by
  cases ha : w.awaited.get? e.key with
  | none => rfl
  | some n =>
    have hp : (e.key, Stage.waiting) ∈ w.places decided :=
      waiting_mem (.inl (Keyed.mem_keys.mpr ⟨n, ha⟩))
    have hab : e ∈ Entry.about e.key entries := Entry.mem_about.mpr ⟨he, rfl⟩
    rw [(h.story e.key _ hp).of_waiting.2] at hab
    exact absurd hab List.not_mem_nil

/-- A node does not depend on itself (`Sound.irrefl`), so what happens to it changes nothing that it
can read. -/
theorem agree_of_extends (hg : g.Sound) {key : String} {run run' : Run σ}
    (hk : key ∈ g.plan.keys) (hx : Run.Extends run run' es) (hes : ∀ e ∈ es, e.key = key) :
    g.Agree key run.known run'.known := by
  intro j hj
  have hne : key ≠ j := by
    rintro rfl
    exact hg.irrefl key (hj hk)
  rw [hx.get?_known j, Entry.about_eq_nil hes hne]
  rfl

/-- `Stays`: nothing happens to any node. -/
theorem stay (h : Lives setup g run₀ w decided entries) (hm : Stays w w' ch decided ds) :
    Lives setup g run₀ w' (decided ++ ds) entries := by
  have hx := hm.run_extends
  refine ⟨?_, h.planned, h.ordered, fun k stage hk => ?_⟩
  · rw [← List.append_nil entries]
    exact h.run_extends.trans hx
  · rw [hm.states k]
    refine (h.story k stage (hm.places k stage hk)).mono hx.cancelled fun _ j _ => ?_
    rw [hx.known, Entry.replay_nil]

/-- `Moves`: something happens to the node `key`. The others keep their stories, as a node that
depends on `key` has read nothing before `key` has ended. -/
theorem advance (hg : g.Sound) (hs : Scheduled g w decided) (hs' : Scheduled g w' (decided ++ ds))
    (h : Lives setup g run₀ w decided entries) {key : String} {stage stage' : Stage}
    (hm : Moves w w' decided ds key stage stage' es) (hkey : key ∈ w.active)
    (hes : ∀ e ∈ es, e.key = key)
    (hself : Story setup g (decided ++ ds) w'.run key stage' (w'.stateOf key)
      (Entry.about key entries ++ es)) :
    Lives setup g run₀ w' (decided ++ ds) (entries ++ es) := by
  have hx := hm.run_extends
  refine ⟨h.run_extends.trans hx, fun e he => ?_, ?_, fun k stage₁ hk₁ => ?_⟩
  · rcases List.mem_append.mp he with he | he
    · exact h.planned e he
    · exact hes e he ▸ hs.mem_keys hkey
  · refine List.pairwise_append.mpr ⟨h.ordered, ?_, fun e he e' he' => ?_⟩
    · refine List.pairwise_iff_forall_sublist.mpr fun {e e'} hsub => ?_
      have he := hes e (hsub.subset (by simp))
      have he' := hes e' (hsub.subset (by simp))
      rw [he, he']
      exact hg.irrefl key
    · -- Who was told of before is not awaited, hence does not wait for the active node `key`.
      rw [hes e' he']
      exact hs.not_edge_of_active hg hkey (h.awaited_of_mem he)
  · rw [Entry.about_append]
    by_cases hk : k = key
    · subst hk
      rw [hs'.stage_unique hg hk₁ hm.target, Entry.about_eq_self hes]
      exact hself
    · have hmem := hm.places k hk stage₁ hk₁
      rw [Entry.about_eq_nil hes (Ne.symm hk), List.append_nil, hm.states k hk]
      -- Not waiting, `k` was told of all it depends on, so `key` is none of that.
      refine (h.story k stage₁ hmem).mono hx.cancelled fun hne j hj => ?_
      have ha : w.awaited.get? k = none := by
        cases ha : w.awaited.get? k with
        | none => rfl
        | some n =>
          have hw := hs.stage_unique hg hmem (waiting_mem (.inl (Keyed.mem_keys.mpr ⟨n, ha⟩)))
          exact absurd hw hne
      have hjk : key ≠ j := by
        rintro rfl
        exact hs.not_edge_of_active hg hkey ha (hj (hs.mem_keys hkey))
      rw [hx.get?_known j, Entry.about_eq_nil hes hjk]
      rfl

theorem attended (h : Lives setup g run₀ w decided entries) {k : String} {stage : Stage}
    (hk : (k, stage) ∈ w.places decided) : Attended setup g k stage (w.stateOf k) :=
  (h.story k stage hk).attended

/-- **Step.** Every step goes on with the stories of the nodes, and tells only of active ones. -/
theorem step (hg : g.Sound) (hs : Scheduled g w decided) (hgd : Guarded g w decided)
    (h : Lives setup g run₀ w decided entries) (hst : Step setup g jobs w ch w' ds)
    (ht : Turned setup g w w' ch decided ds es) :
    Lives setup g run₀ w' (decided ++ ds) (entries ++ es) ∧ ∀ e ∈ es, e.key ∈ w.active := by
  cases ht with
  | stays hm =>
    refine ⟨?_, fun e he => absurd he List.not_mem_nil⟩
    rw [List.append_nil]
    exact h.stay hm
  | @moves key stage stage' es hm ht =>
    have hkey := mem_active_of_place hm.source ht.not_ended
    have hes := ht.key (h.attended hm.source)
    have hagree := agree_of_extends hg (hs.mem_keys hkey) hm.run_extends hes
    have hcleared : stage ≠ .waiting → ∀ p, (p, key) ∈ g.edges → (p, .ok ()) ∈ decided :=
      fun hw => hgd.cleared_of_place hm.source hw ht.not_ended
    refine ⟨h.advance hg hs (hs.step hg hst) hm hkey hes ?_, fun e he => hes e he ▸ hkey⟩
    exact (h.story key stage hm.source).turn ht hm.run_extends.cancelled hagree hcleared

end Lives

end Walk

end Provision
