import Mathlib.Data.Finset.Card
import Mathlib.Data.Fintype.Card

/-! Counting the members of a finite population that have a property, when one
member changes and the others keep what they have. -/

set_option autoImplicit false

namespace SoiStud.Library

variable {T : Type*} [Fintype T]

def population (P : T → Prop) [DecidablePred P] : Nat := (Finset.univ.filter P).card

variable {P Q : T → Prop} [DecidablePred P] [DecidablePred Q]

theorem population_congr (same : ∀ u, P u ↔ Q u) : population P = population Q := by
  unfold population
  congr 1
  ext u
  simp [same u]

theorem population_pos_iff : 0 < population P ↔ ∃ t, P t := by
  simp [population, Finset.card_pos, Finset.filter_nonempty_iff]

theorem population_eq_zero_iff : population P = 0 ↔ ∀ t, ¬ P t := by
  simp [population, Finset.filter_eq_empty_iff]

theorem population_join [DecidableEq T] {t : T} (others : ∀ u, u ≠ t → (Q u ↔ P u)) (before : ¬ P t)
    (after : Q t) : population Q = population P + 1 := by
  have joined : Finset.univ.filter Q = insert t (Finset.univ.filter P) := by
    ext u
    by_cases same : u = t
    · subst same; simp [after]
    · simp [same, others u same]
  rw [population, joined, Finset.card_insert_of_notMem (by simp [before]), population]

/-- One member leaves. -/
theorem population_leave [DecidableEq T] {t : T} (others : ∀ u, u ≠ t → (Q u ↔ P u)) (before : P t)
    (after : ¬ Q t) : population P = population Q + 1 :=
  population_join (fun u distinct => (others u distinct).symm) after before

theorem population_change [DecidableEq T] (t : T) (others : ∀ u, u ≠ t → (Q u ↔ P u)) :
    population Q + (if P t then 1 else 0) = population P + (if Q t then 1 else 0) := by
  have same (known : P t ↔ Q t) : population Q = population P := population_congr fun u => by
    rcases eq_or_ne u t with rfl | other
    · exact known.symm
    · exact others u other
  by_cases before : P t <;> by_cases after : Q t
  · rw [if_pos before, if_pos after, same (iff_of_true before after)]
  · rw [if_pos before, if_neg after, population_leave others before after]
  · rw [if_neg before, if_pos after, population_join others before after]
  · rw [if_neg before, if_neg after, same (iff_of_false before after)]

theorem population_eq_one {t : T} (unique : ∀ u, P u ↔ u = t) : population P = 1 := by
  rw [population, Finset.card_eq_one]
  exact ⟨t, by ext u; simp [unique u]⟩

end SoiStud.Library
