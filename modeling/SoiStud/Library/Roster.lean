import Mathlib.Data.List.Nodup
import Mathlib.Data.List.Perm.Basic

/-! Lists that hold everything with a property once, and nothing else, when one
member gets or loses the property. The order is left open. -/

set_option autoImplicit false

namespace SoiStud.Library

variable {T : Type*} {P Q : T → Prop} {l m : List T} {t : T}

structure Roster (P : T → Prop) (l : List T) : Prop where
  nodup : l.Nodup
  mem_iff : ∀ t, t ∈ l ↔ P t

namespace Roster

theorem perm (roster : Roster P l) (order : m.Perm l) : Roster P m where
  nodup := order.nodup_iff.mpr roster.nodup
  mem_iff t := order.mem_iff.trans (roster.mem_iff t)

theorem congr (roster : Roster P l) (same : ∀ t, Q t ↔ P t) : Roster Q l where
  nodup := roster.nodup
  mem_iff t := (roster.mem_iff t).trans (same t).symm

theorem join (roster : Roster P l) (others : ∀ u, u ≠ t → (Q u ↔ P u)) (before : ¬ P t) (after : Q t) :
    Roster Q (t :: l) where
  nodup := List.nodup_cons.mpr ⟨mt (roster.mem_iff t).mp before, roster.nodup⟩
  mem_iff u := by
    rw [List.mem_cons]
    by_cases same : u = t
    · subst same
      simp [after]
    · simp [same, others u same, roster.mem_iff u]

theorem leave [DecidableEq T] (roster : Roster P l) (others : ∀ u, u ≠ t → (Q u ↔ P u)) (after : ¬ Q t) :
    Roster Q (l.erase t) where
  nodup := roster.nodup.erase t
  mem_iff u := by
    rw [roster.nodup.mem_erase_iff, roster.mem_iff u]
    by_cases same : u = t
    · subst same
      simp [after]
    · simp [same, others u same]

end Roster
end SoiStud.Library
