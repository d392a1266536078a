import Mathlib.Algebra.BigOperators.Group.Finset.Basic
import Mathlib.Algebra.Order.BigOperators.Group.Finset
import Mathlib.Data.Fintype.BigOperators

/-! Sums over a finite population when one member moves. -/

set_option autoImplicit false

namespace SoiStud.Library

variable {T α : Type*} [Fintype T]

def weightOf (weight : T → α → Int) (place : T → α) : Int := ∑ t, weight t (place t)

variable {weight : T → α → Int} {place : T → α}

theorem weightOf_update [DecidableEq T] (weight : T → α → Int) (place : T → α) (t : T) (p : α) :
    weightOf weight (Function.update place t p) = weightOf weight place - weight t (place t) + weight t p := by
  have others : ∑ u ∈ Finset.univ.erase t, weight u (Function.update place t p u) =
      ∑ u ∈ Finset.univ.erase t, weight u (place u) := by
    apply Finset.sum_congr rfl
    intro u member
    rw [Function.update_of_ne (Finset.ne_of_mem_erase member)]
  unfold weightOf
  rw [← Finset.add_sum_erase _ _ (Finset.mem_univ t), others, Function.update_self,
    ← Finset.add_sum_erase _ (fun u => weight u (place u)) (Finset.mem_univ t)]
  omega

theorem weightOf_eq_zero (zero : ∀ t, weight t (place t) = 0) : weightOf weight place = 0 :=
  Finset.sum_eq_zero fun t _ => zero t

theorem weightOf_nonneg (nonneg : ∀ t, 0 ≤ weight t (place t)) : 0 ≤ weightOf weight place :=
  Finset.sum_nonneg fun t _ => nonneg t

theorem weightOf_nonpos (nonpos : ∀ t, weight t (place t) ≤ 0) : weightOf weight place ≤ 0 :=
  Finset.sum_nonpos fun t _ => nonpos t

theorem le_weightOf (weight : T → α → Int) (place : T → α) (nonneg : ∀ t, 0 ≤ weight t (place t)) (t : T) : weight t (place t) ≤ weightOf weight place :=
  Finset.single_le_sum (f := fun u => weight u (place u)) (fun u _ => nonneg u) (Finset.mem_univ t)

theorem add_le_weightOf [DecidableEq T] (weight : T → α → Int) (place : T → α) (nonneg : ∀ t, 0 ≤ weight t (place t)) {t u : T} (distinct : t ≠ u) :
    weight t (place t) + weight u (place u) ≤ weightOf weight place := by
  have both : ∑ v ∈ {t, u}, weight v (place v) = weight t (place t) + weight u (place u) := Finset.sum_pair distinct
  rw [← both]
  exact Finset.sum_le_sum_of_subset_of_nonneg (Finset.subset_univ _) fun v _ _ => nonneg v

end SoiStud.Library
