import Mathlib.Data.List.Basic

/-! What has happened, and has not been undone since.

Nothing here names a particular program.
-/

set_option autoImplicit false

namespace SoiStud.Library

variable {α : Type*}

/-- Something with `P` has happened behind what came before it, and nothing with `Q` since. -/
def Since (P : List α → α → Prop) (Q : α → Prop) (history : List α) : Prop :=
  ∃ early event late, history = early ++ event :: late ∧ P early event ∧ ∀ later ∈ late, ¬ Q later

variable {P : List α → α → Prop} {Q : α → Prop}

theorem not_since_nil : ¬ Since P Q [] := by
  rintro ⟨early, event, late, whole, -⟩
  simp at whole

theorem since_append (history : List α) (event : α) :
    Since P Q (history ++ [event]) ↔ P history event ∨ ¬ Q event ∧ Since P Q history := by
  constructor
  · rintro ⟨early, first, late, whole, happened, since⟩
    rcases List.eq_nil_or_concat late with rfl | ⟨late, last, rfl⟩
    · obtain ⟨rfl, same⟩ := List.append_inj' whole rfl
      obtain rfl := List.singleton_injective same
      exact .inl happened
    · rw [List.concat_eq_append, ← List.cons_append, ← List.append_assoc] at whole
      obtain ⟨rfl, same⟩ := List.append_inj' whole rfl
      obtain rfl := List.singleton_injective same
      refine .inr ⟨since _ (by simp), early, first, late, rfl, happened, fun later member => ?_⟩
      exact since later (by simp [member])
  · rintro (happened | ⟨harmless, early, first, late, rfl, happened, since⟩)
    · exact ⟨history, event, [], rfl, happened, nofun⟩
    · refine ⟨early, first, late ++ [event], by simp, happened, fun later member => ?_⟩
      rcases List.mem_append.mp member with member | member
      · exact since later member
      · rwa [List.mem_singleton.mp member]

end SoiStud.Library
