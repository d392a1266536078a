import Mathlib.Data.List.Nodup
import Mathlib.Logic.Relation

/-! Searching a graph depth first.

A search goes through a list of vertices, passes over those it has seen, and goes
on from each new one before it takes the next. `DepthFirst next seen roots found`
says that it finds `found`, in this order, from `roots` with `seen` seen before.
Nothing here names a particular program.
-/

set_option autoImplicit false

namespace SoiStud.Library

variable {Vertex : Type*} {next : Vertex → List Vertex} {seen roots rest found inside later : List Vertex}
  {v w : Vertex}

inductive DepthFirst (next : Vertex → List Vertex) : List Vertex → List Vertex → List Vertex → Prop where
  | done {seen : List Vertex} : DepthFirst next seen [] []
  | skip {seen rest found : List Vertex} {v : Vertex} : v ∈ seen → DepthFirst next seen rest found →
      DepthFirst next seen (v :: rest) found
  | enter {seen rest inside later : List Vertex} {v : Vertex} : v ∉ seen →
      DepthFirst next (seen ++ [v]) (next v) inside → DepthFirst next (seen ++ v :: inside) rest later →
      DepthFirst next seen (v :: rest) (v :: inside ++ later)

namespace DepthFirst

theorem append (first : DepthFirst next seen roots found) (second : DepthFirst next (seen ++ found) rest later) :
    DepthFirst next seen (roots ++ rest) (found ++ later) := by
  induction first with
  | done =>
    rw [List.append_nil] at second
    exact second
  | skip old _ ih => exact .skip old (ih second)
  | @enter seen _ inside after v new below _ _ ih =>
    have second' := ih (by rwa [List.append_assoc])
    rw [List.append_assoc]
    exact .enter new below second'

theorem fresh (search : DepthFirst next seen roots found) : found.Nodup ∧ found.Disjoint seen := by
  induction search with
  | done => exact ⟨List.nodup_nil, List.disjoint_nil_left _⟩
  | skip _ _ ih => exact ih
  | @enter seen _ inside later v new _ _ below after =>
    obtain ⟨unique, apart⟩ := below
    obtain ⟨uniqueLater, apartLater⟩ := after
    rw [List.disjoint_append_right] at apart apartLater
    have insideNew : v ∉ inside := fun member => apart.2 member (List.mem_singleton_self v)
    constructor
    · rw [List.nodup_append']
      exact ⟨List.nodup_cons.mpr ⟨insideNew, unique⟩, uniqueLater, List.disjoint_comm.mp apartLater.2⟩
    · rw [List.disjoint_append_left, List.disjoint_cons_left]
      exact ⟨⟨new, apart.1⟩, apartLater.1⟩

theorem closed (search : DepthFirst next seen roots found) :
    roots ⊆ seen ++ found ∧ ∀ v ∈ found, next v ⊆ seen ++ found := by
  induction search with
  | done => exact ⟨List.nil_subset _, fun v member => by cases member⟩
  | @skip seen _ found v old _ ih => exact ⟨List.cons_subset.mpr ⟨List.mem_append_left _ old, ih.1⟩, ih.2⟩
  | @enter seen rest inside later v _ _ _ below after =>
    have all : seen ++ v :: inside ++ later = seen ++ (v :: inside ++ later) := List.append_assoc ..
    have grown : seen ++ [v] ++ inside ⊆ seen ++ (v :: inside ++ later) := by
      rw [← all, List.append_assoc, List.singleton_append]
      exact List.subset_append_left _ _
    rw [all] at after
    refine ⟨List.cons_subset.mpr ⟨by simp, after.1⟩, fun w member => ?_⟩
    rcases List.mem_append.mp member with member | member
    · rcases List.mem_cons.mp member with rfl | member
      · exact List.Subset.trans below.1 grown
      · exact List.Subset.trans (below.2 w member) grown
    · exact after.2 w member

def Edge (next : Vertex → List Vertex) (v w : Vertex) : Prop := w ∈ next v

theorem reached (search : DepthFirst next seen roots found) :
    ∀ w ∈ found, ∃ v ∈ roots, Relation.ReflTransGen (Edge next) v w := by
  induction search with
  | done =>
    intro w member
    cases member
  | skip _ _ ih =>
    intro w member
    obtain ⟨v, root, leads⟩ := ih w member
    exact ⟨v, List.mem_cons_of_mem _ root, leads⟩
  | @enter seen rest inside later v _ _ _ below after =>
    intro w member
    rcases List.mem_append.mp member with member | member
    · rcases List.mem_cons.mp member with rfl | member
      · exact ⟨w, List.mem_cons_self, .refl⟩
      · obtain ⟨u, edge, leads⟩ := below w member
        exact ⟨v, List.mem_cons_self, leads.head edge⟩
    · obtain ⟨u, root, leads⟩ := after w member
      exact ⟨u, List.mem_cons_of_mem _ root, leads⟩

/-- A search from the successors of a vertex with nothing seen finds what can be reached from it. -/
theorem mem_iff (search : DepthFirst next [] (next v) found) : w ∈ found ↔ Relation.TransGen (Edge next) v w := by
  constructor
  · intro member
    obtain ⟨u, edge, leads⟩ := search.reached w member
    exact .head' edge leads
  · intro leads
    induction leads with
    | single edge => exact search.closed.1 edge
    | tail _ edge ih => exact search.closed.2 _ ih edge

end DepthFirst

end SoiStud.Library
