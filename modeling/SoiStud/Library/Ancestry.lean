import Mathlib.Logic.Relation
import Mathlib.Data.Set.Finite.Basic
import Mathlib.Data.Fintype.Card
import Mathlib.Order.WellFounded

/-! Where the vertices of a finite graph come from.

Going back along edges from a vertex ends at a root or goes round a cycle.
Nothing here names a particular program.
-/

set_option autoImplicit false

namespace SoiStud.Library

variable {Vertex : Type*} {edge : Vertex → Vertex → Prop}

def OnCycle (edge : Vertex → Vertex → Prop) (v : Vertex) : Prop := Relation.TransGen edge v v

/-- Every vertex of a finite set of which all but the root have a predecessor in
the set comes from the root or from a cycle. -/
theorem from_root_or_cycle {live : Set Vertex} {root v : Vertex} (finite : live.Finite)
    (preceded : ∀ w ∈ live, w = root ∨ ∃ u ∈ live, edge u w) (member : v ∈ live) :
    Relation.ReflTransGen edge root v ∨ ∃ c ∈ live, OnCycle edge c ∧ Relation.ReflTransGen edge c v := by
  by_contra neither
  rw [not_or] at neither
  obtain ⟨notFromRoot, notFromCycle⟩ := neither
  -- the ancestors of `v`, in the order of the paths between them, have a first one
  let ancestors : Set Vertex := {u | u ∈ live ∧ Relation.ReflTransGen edge u v}
  have _ : Finite ancestors := finite.subset fun u ancestor => ancestor.1
  let before (a b : ancestors) : Prop := Relation.TransGen edge a b
  have _ : IsTrans ancestors before := ⟨fun _ _ _ => Relation.TransGen.trans⟩
  have _ : Std.Irrefl before := ⟨fun a cycle => notFromCycle ⟨a, a.2.1, cycle, a.2.2⟩⟩
  obtain ⟨⟨u, live_, leads⟩, _, first⟩ := (Finite.wellFounded_of_trans_of_irrefl before).has_min Set.univ
    ⟨⟨v, member, .refl⟩, trivial⟩
  rcases preceded u live_ with root_ | ⟨w, liveW, edgeW⟩
  · exact notFromRoot (root_ ▸ leads)
  · exact first ⟨w, liveW, leads.head edgeW⟩ trivial (.single edgeW)

end SoiStud.Library
