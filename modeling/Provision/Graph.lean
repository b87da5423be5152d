import Provision.Graph.DepthFirst
import Provision.Plan

/-!
# Dependency graphs

The graph of a plan has its keys as nodes and an edge from each key to the keys that wait for it.
A resource waits for its dependencies, and when it is applied also for the resources it refers to.
Deletion turns this around: a dependency is deleted after what depends on it.

* `Plan.edges` states which edges a plan has.
* `Graph.build` refuses a plan with a key that stands twice, with an applied resource whose
  dependency is not planned, or with a cycle.
* `Graph.dependencies` lists what a key waits for, and `Graph.order` a serial order of all keys.
-/

namespace Provision

/-- Why a plan has no graph. -/
inductive GraphError where
  | duplicateResource (key : String)
  | missingDependency (resource dependency : String)
  | cycle (key : String)
deriving DecidableEq, Inhabited

namespace GraphError

/-- The text shown to users. -/
def message : GraphError → String
  | .duplicateResource key => s!"duplicate resource key: {key}"
  | .missingDependency resource dependency =>
    s!"resource {resource} depends on unknown resource {dependency}"
  | .cycle key => s!"dependency cycle detected at resource {key}"

end GraphError

namespace Change

/-- The keys that a change depends on: declared ones and, for an applied resource, those its
attributes refer to. -/
def dependencies (operation : Operation) (c : Change) : List String :=
  c.resource.dependsOn ++
    if operation = .apply ∧ c.action.isApply then c.resource.attributes.referencedKeys else []

end Change

namespace Plan

/-- The keys, in the order of the plan. -/
def keys (p : Plan) : List String := p.map Change.key

/-- The change planned for a key. -/
def find? (p : Plan) (key : String) : Option Change := List.find? (fun c => c.key = key) p

/-- The first key that stands in the list for the second time. -/
def repeated? (before : List String) : List String → Option String
  | [] => none
  | k :: ks => if k ∈ before then some k else repeated? (k :: before) ks

/-- The first applied resource with a declared dependency that is not planned. -/
def missing? (p : Plan) : Option (String × String) :=
  p.findSome? fun c =>
    if c.action.isApply then (c.resource.dependsOn.find? (· ∉ p.keys)).map (c.key, ·) else none

/-- The first resource that depends on itself. -/
def selfDependent? (operation : Operation) (p : Plan) : Option String :=
  (List.find? (fun c => decide (c.key ∈ c.dependencies operation)) p).map Change.key

end Plan

/-- Edges from what goes first to what waits for it. -/
abbrev Edges := List (String × String)

namespace Edges

/-- The keys with an edge to `key`. -/
def before (es : Edges) (key : String) : List String :=
  (es.filter (·.2 = key)).map (·.1)

/-- The keys with an edge from `key`. -/
def after (es : Edges) (key : String) : List String :=
  (es.filter (·.1 = key)).map (·.2)

/-- The keys that wait for nothing. -/
def entries (es : Edges) (keys : List String) : List String :=
  keys.filter fun k => (es.before k).isEmpty

/-- What a key waits for: its predecessors, or else the start, which is no key. -/
def sources (es : Edges) (key : String) : List (Option String) :=
  if es.before key = [] then [none] else (es.before key).map some

/-- The nodes before a node. The start has none. -/
def previous (es : Edges) : Option String → List (Option String)
  | none => []
  | some k => es.sources k

/-- The nodes after a node. The start leads to the keys that wait for nothing. -/
def next (es : Edges) (keys : List String) : Option String → List (Option String)
  | none => (es.entries keys).map some
  | some k => (es.after k).map some

/-- All nodes, as a search from the start and then from the keys lists them. -/
def order (es : Edges) (keys : List String) : List (Option String) :=
  DepthFirst.order (es.next keys) (keys.length + 1) (none :: keys.map some)

end Edges

namespace Change

/-- The edge between a dependency and its dependent: the dependency first, unless both are
deleted. -/
def orient (operation : Operation) (dependency dependent : Change) : String × String :=
  if operation = .destroy ∨ (dependency.action = .delete ∧ dependent.action = .delete) then
    (dependent.key, dependency.key)
  else (dependency.key, dependent.key)

end Change

namespace Plan

/-- The edges of a plan, each once. -/
def edges (operation : Operation) (p : Plan) : Edges :=
  (p.flatMap fun c => (c.dependencies operation).filterMap fun d =>
    (p.find? d).map fun dependency => dependency.orient operation c).eraseDups

end Plan

/-- A plan with its edges and a serial order that follows them. -/
structure Graph where
  operation : Operation
  plan : Plan
  edges : Edges
  order : List String
deriving DecidableEq

namespace Graph

/-- How messages would name the start. -/
def startName : String := "<root>"

/-- The graph of a plan. A node that the search lists before a predecessor of it gives away a
cycle. -/
def build (operation : Operation) (p : Plan) : Except GraphError Graph :=
  match Plan.repeated? [] p.keys with
  | some key => .error (.duplicateResource key)
  | none => match p.missing? with
    | some (resource, dependency) => .error (.missingDependency resource dependency)
    | none => match p.selfDependent? operation with
      | some key => .error (.cycle key)
      | none =>
        let es := p.edges operation
        let order := es.order p.keys
        match DepthFirst.firstBackward? es.previous [] order with
        | some node => .error (.cycle (node.getD startName))
        | none => .ok ⟨operation, p, es, order.filterMap id⟩

/-- The number of nodes. -/
def size (g : Graph) : Nat := g.plan.length

/-- The change planned for a key. -/
def find? (g : Graph) (key : String) : Option Change := g.plan.find? key

/-- The keys that must succeed before `key` starts, sorted. -/
def dependencies (g : Graph) (key : String) : List String :=
  (g.edges.before key).mergeSort fun a b => a ≤ b

/-- The keys that wait for `key`. -/
def dependents (g : Graph) (key : String) : List String := g.edges.after key

end Graph

end Provision
