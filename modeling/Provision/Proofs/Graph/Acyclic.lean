import Mathlib.Logic.Relation
import Provision.Proofs.Graph.Build

/-!
# Relations without cycles

* `Acyclic`: nothing leads back to itself. `Acyclic.of_closed`: a relation is acyclic if it is so
  within a set that it does not leave, and outside of it.
* `Graph.Sound.acyclic`: the edges of a graph have no cycle.
-/

namespace Provision

/-- Nothing leads back to itself. -/
def Acyclic (r : String → String → Prop) : Prop := ∀ k, ¬ Relation.TransGen r k k

namespace Acyclic

variable {r s t : String → String → Prop}

theorem mono (h : Acyclic s) (hrs : ∀ a b, r a b → s a b) : Acyclic r :=
  fun k hk => h k (Relation.TransGen.mono hrs k k hk)

theorem swap (h : Acyclic r) : Acyclic fun a b => r b a :=
  fun k hk => h k (Relation.transGen_swap.mp hk)

/-- A relation along which some number `f` falls is `Acyclic`. -/
theorem of_rank (f : String → Nat) (h : ∀ a b, r a b → f b < f a) : Acyclic r := by
  have hlt : ∀ {a b}, Relation.TransGen r a b → f b < f a := fun hab => by
    induction hab with
    | single hab => exact h _ _ hab
    | tail _ hbc ih => exact Nat.lt_trans (h _ _ hbc) ih
  exact fun k hk => Nat.lt_irrefl _ (hlt hk)

section

variable {P : String → Prop} (hclosed : ∀ a b, P a → r a b → P b ∧ s b a)

include hclosed

/-- A way that starts in a set which `r` does not leave stays there, and is a way of `s`
backwards. -/
theorem transGen_of_closed {a b : String} (ha : P a) (h : Relation.TransGen r a b) :
    P b ∧ Relation.TransGen s b a := by
  induction h with
  | single hab =>
    obtain ⟨hb, hs⟩ := hclosed _ _ ha hab
    exact ⟨hb, .single hs⟩
  | tail _ hbc ih =>
    obtain ⟨hc, hs⟩ := hclosed _ _ ih.1 hbc
    exact ⟨hc, .head hs ih.2⟩

/-- A way that ends outside of such a set was never in it, so it is a way of `t`. -/
theorem transGen_of_not_closed (hrest : ∀ a b, ¬ P a → ¬ P b → r a b → t a b) {a b : String}
    (hb : ¬ P b) (h : Relation.TransGen r a b) : Relation.TransGen t a b := by
  have hout : ∀ {a b}, ¬ P b → r a b → ¬ P a := fun hb hab ha => hb (hclosed _ _ ha hab).1
  induction h with
  | single hab => exact .single (hrest _ _ (hout hb hab) hb hab)
  | tail _ hbc ih => exact (ih (hout hb hbc)).tail (hrest _ _ (hout hb hbc) hb hbc)

/-- **Two halves.** A relation that goes against an acyclic `s` within a set which it does not
leave, and along an acyclic `t` outside, is `Acyclic`: a cycle would stay on one side. In a graph
the deletions are such a set, where the edges are reversed. -/
theorem of_closed (hrest : ∀ a b, ¬ P a → ¬ P b → r a b → t a b) (hs : Acyclic s)
    (ht : Acyclic t) : Acyclic r := by
  intro k hk
  by_cases hP : P k
  · exact hs k (transGen_of_closed hclosed hP hk).2
  · exact ht k (transGen_of_not_closed hclosed hrest hP hk)

end

end Acyclic

namespace Graph

/-- The edges of a `Sound` graph have no cycle, by `Sound.induct` along its order: the key before on
a cycle would be on it as well. -/
theorem Sound.acyclic {g : Graph} (hg : g.Sound) : Acyclic fun a b => (a, b) ∈ g.edges := by
  intro k hk
  have hkeys : k ∈ g.plan.keys := by
    cases hk with
    | single he => exact (hg.mem_keys_of_edge he).2
    | tail _ he => exact (hg.mem_keys_of_edge he).2
  refine hg.induct (P := fun k => ¬ Relation.TransGen (fun a b => (a, b) ∈ g.edges) k k)
    (fun k ih hk => ?_) hkeys hk
  cases hk with
  | single he => exact hg.irrefl k he
  | tail hkp he => exact ih _ (Edges.mem_before.mpr he) (.head he hkp)

end Graph

end Provision
