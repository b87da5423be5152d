import Provision.Graph
import Provision.Run.Node
import Provision.Summary

/-!
# Walking a graph

A walk executes the nodes of a graph, each after what it waits for. A scheduler counts for every
node the predecessors that have not ended; at zero the node is handed to the workers, or skipped if
a predecessor did not succeed or the run is cancelled. Workers take nodes from a queue and carry
them out side by side, so a walk is a sequence of small steps of scheduler and workers, and which
step comes next is a free choice.

* `Walk.step?` makes the chosen step, where it is possible; `Walk.steps?` makes several.
* `Walk.toEnd` picks possible steps until none is left; `Walk.work` bounds their number.
* `Graph.walk` walks a graph from the start to the end.
-/

namespace Provision

/-- A node that has ended, with the nodes that are still to be told. No key stands for the start
of the walk, which is what nodes without predecessors wait for. -/
structure Departure where
  key : Option String
  succeeded : Bool
  untold : List String
deriving DecidableEq

namespace Departure

/-- The departure after `key` was told of it. -/
def told (d : Departure) (key : String) : Departure := { d with untold := d.untold.erase key }

/-- Remembers the first predecessor of `key` that did not succeed. -/
def block (d : Departure) (key : String) (blocked : Keyed String) : Keyed String :=
  match d.succeeded, d.key, blocked.get? key with
  | false, some predecessor, none => blocked.insert key predecessor
  | _, _, _ => blocked

end Departure

/-- What a worker does for a node. -/
inductive Task where
  | resolving
  | calling (call : Call)
deriving DecidableEq

/-- The next step of a walk. -/
inductive Choice where
  /-- The scheduler tells a node of the latest departure. -/
  | tell (key : String)
  /-- The latest departure has been told to all. -/
  | leave
  /-- A worker takes a node from the queue. -/
  | take (key : String)
  /-- The worker resolves the references of its node and starts the call. -/
  | begin (key : String)
  /-- The call ends. -/
  | finish (key : String)
  /-- The scheduler receives the result of a node. -/
  | receive (key : String)
  /-- The run is cancelled from outside. -/
  | cancel
deriving DecidableEq

/-- A walk under way. -/
structure Walk (σ : Type) where
  run : Run σ
  /-- The states of the nodes that are not pending. -/
  states : Keyed NodeState
  /-- For each undecided node, how many departures it waits for. -/
  awaited : Keyed Nat
  /-- For a node with a predecessor that did not succeed, the first such predecessor. -/
  blocked : Keyed String
  departures : List Departure
  queue : List String
  /-- The nodes that workers are on. -/
  busy : List (String × Task)
  /-- The results that the scheduler has not received. -/
  results : List (String × Except Status Unit)
  summary : Summary

namespace Walk

variable {σ : Type}

/-! ## Steps -/

/-- How many departures a node waits for: those of its predecessors, or else the start. -/
def awaitedAt (g : Graph) (key : String) : Nat := max 1 (g.edges.before key).length

/-- The state of a node. -/
def stateOf (w : Walk σ) (key : String) : NodeState := (w.states.get? key).getD .pending

/-- A walk that is about to start. -/
def start (g : Graph) (run : Run σ) (states : Keyed NodeState) : Walk σ where
  run
  states
  awaited := .ofList (g.plan.keys.map fun k => (k, awaitedAt g k))
  blocked := .empty
  departures := [⟨none, true, g.edges.entries g.plan.keys⟩]
  queue := []
  busy := []
  results := []
  summary := .empty

/-- Settles a node whose predecessors have all ended: it is queued, or skipped with a status. The
departure of a skipped node waits behind the current one. -/
def settle (g : Graph) (key : String) (w : Walk σ) : Walk σ :=
  let skip (s : Status) : Walk σ := { w with
    run := w.run.emit ⟨key, .skipped, some s⟩
    summary := w.summary.fail key s
    departures := match w.departures with
      | current :: rest => current :: ⟨some key, false, g.dependents key⟩ :: rest
      | [] => [⟨some key, false, g.dependents key⟩] }
  if w.run.cancelled then skip .notStarted
  else match w.blocked.get? key with
    | some predecessor => skip (.blockedBy predecessor)
    | none => { w with queue := w.queue ++ [key] }

/-- Counts one departure for `key`, and settles the node at the last one. -/
def count (g : Graph) (key : String) (w : Walk σ) : Walk σ :=
  match w.awaited.get? key with
  | none => w
  | some n =>
    if 1 < n then { w with awaited := w.awaited.insert key (n - 1) }
    else { w with awaited := w.awaited.erase key }.settle g key

/-- The result of `key` waits for the scheduler. -/
def report (key : String) (result : Except Status Unit) (w : Walk σ) : Walk σ :=
  { w with results := w.results ++ [(key, result)] }

/-- A worker is done with `key`, whose execution ended with `result`. -/
def conclude (key : String) (result : Except Status Unit) (run : Run σ) (w : Walk σ) : Walk σ :=
  { w with run, states := w.states.insert key (.ofResult result) }.report key result

/-- The walk after the chosen step; nothing where the step is not possible. What a worker commits
and emits at the end of its node, and the sending of the result, make up one step. The result may
be sent later, so the scheduler can receive any of those that wait. -/
def step? (setup : Setup σ) (g : Graph) (jobs : Nat) (w : Walk σ) : Choice → Option (Walk σ)
  | .tell key => match w.departures with
    | [] => none
    | d :: rest =>
      if key ∈ d.untold then
        some ({ w with
          departures := d.told key :: rest
          blocked := d.block key w.blocked }.count g key)
      else none
  | .leave => match w.departures with
    | ⟨_, _, []⟩ :: rest => some { w with departures := rest }
    | _ => none
  | .take key =>
    if key ∈ w.queue ∧ w.busy.length < max 1 jobs then
      let w := { w with queue := w.queue.erase key }
      if w.run.cancelled then
        some ({ w with run := w.run.emit ⟨key, .skipped, some .notStarted⟩ }.report key
          (.error .notStarted))
      else if w.stateOf key ≠ .pending then some (w.report key (.ok ()))
      else some { w with
        states := w.states.insert key .resolving
        busy := w.busy ++ [(key, .resolving)] }
    else none
  | .begin key =>
    if (key, .resolving) ∈ w.busy then do
      let c ← g.find? key
      let w := { w with busy := w.busy.erase (key, .resolving) }
      match w.run.begin setup c with
      | (.over result, run) => return w.conclude key result run
      | (.calling call, run) => return { w with
          run
          states := w.states.insert key .executing
          busy := w.busy ++ [(key, .calling call)] }
    else none
  | .finish key => do
    let c ← g.find? key
    let call ← w.busy.findSome? fun
      | (k, .calling call) => if k = key then some call else none
      | _ => none
    let w := { w with busy := w.busy.erase (key, .calling call) }
    match w.run.finish setup c call with
    | (.over result, run) => return w.conclude key result run
    | (.brokeDown, run) =>
      let s := Status.brokeDown key
      return { w with run := run.emit ⟨key, .failed, some s⟩ }.report key (.error s)
  | .receive key => match w.departures with
    | [] => do
      let c ← g.find? key
      let result ← w.results.lookup key
      return { w with
        results := w.results.eraseP (·.1 == key)
        summary := w.summary.count setup.operation c.action key result
        departures := [⟨some key, result.isOk, g.dependents key⟩] }
    | _ => none
  | .cancel => some { w with run := { w.run with cancelled := true } }

/-- The walk after the chosen steps, one after the other. -/
def steps? (setup : Setup σ) (g : Graph) (jobs : Nat) (w : Walk σ) : List Choice → Option (Walk σ)
  | [] => some w
  | c :: cs => do
    let w ← w.step? setup g jobs c
    w.steps? setup g jobs cs

/-- Nothing is left to do. -/
def isOver (w : Walk σ) : Bool :=
  w.departures.isEmpty && w.queue.isEmpty && w.busy.isEmpty && w.results.isEmpty

/-! ## Walking to the end -/

/-- The sum of a measure over a list. -/
def total {α : Type} (f : α → Nat) (xs : List α) : Nat := xs.foldr (fun x n => f x + n) 0

/-- A bound on the steps that the departure of a node takes. -/
def departureWork (g : Graph) (key : String) : Nat := 1 + (g.dependents key).length

/-- A bound on the steps that are left before a walk is over. -/
def work (g : Graph) (w : Walk σ) : Nat :=
  total (fun k => 4 + departureWork g k) w.awaited.keys
    + total (fun d : Departure => 1 + d.untold.length) w.departures
    + total (fun k => 4 + departureWork g k) w.queue
    + total (fun b => (if b.2 = .resolving then 3 else 2) + departureWork g b.1) w.busy
    + total (fun r => 1 + departureWork g r.1) w.results

/-- The step of the worker that has waited longest. -/
def nextOfWorkers? (w : Walk σ) : Option Choice :=
  match w.busy with
  | [] => none
  | (key, .resolving) :: _ => some (.begin key)
  | (key, .calling _) :: _ => some (.finish key)

/-- A possible step: the scheduler goes first, and workers take all they can before they go on. -/
def next? (jobs : Nat) (w : Walk σ) : Option Choice :=
  match w.departures with
  | ⟨_, _, key :: _⟩ :: _ => some (.tell key)
  | ⟨_, _, []⟩ :: _ => some .leave
  | [] => match w.results, w.queue with
    | (key, _) :: _, _ => some (.receive key)
    | [], [] => w.nextOfWorkers?
    | [], key :: _ => if w.busy.length < max 1 jobs then some (.take key) else w.nextOfWorkers?

/-- Makes up to `fuel` steps. -/
def advance (setup : Setup σ) (g : Graph) (jobs : Nat) : Nat → Walk σ → Walk σ
  | 0, w => w
  | fuel + 1, w => match (w.next? jobs).bind (w.step? setup g jobs) with
    | some w => advance setup g jobs fuel w
    | none => w

/-- Goes on to the end. -/
def toEnd (setup : Setup σ) (g : Graph) (jobs : Nat) (w : Walk σ) : Walk σ :=
  advance setup g jobs (w.work g) w

end Walk

namespace Graph

variable {σ : Type}

/-- Walks a graph whose nodes have the given states. -/
def walk (setup : Setup σ) (g : Graph) (jobs : Nat) (run : Run σ) (states : Keyed NodeState) :
    Walk σ :=
  (Walk.start g run states).toEnd setup g jobs

end Graph

end Provision
