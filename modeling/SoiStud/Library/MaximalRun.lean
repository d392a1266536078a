import SoiStud.Library.Extent
import Mathlib.Data.List.Nodup
import Mathlib.Data.List.Perm.Subperm

/-! The maximal runs of a set of units.

A set of units has one description as a list of runs in increasing order, none
of which could be longer. A separated list is that description of the units that
it holds, so two separated lists of the same units are the same list. It is as long
as there are places where runs end.
-/

set_option autoImplicit false

namespace SoiStud.Library

variable {e f : Extent} {l m : List Extent} {free : Set Nat} {x : Nat}

structure MaximalRun (free : Set Nat) (e : Extent) : Prop where
  nonempty : 0 < e.len
  inside : ∀ x, e.base ≤ x → x < e.top → x ∈ free
  below : ∀ x, x + 1 = e.base → x ∉ free
  above : e.top ∉ free

/-- Two maximal runs that share a unit are one. -/
theorem MaximalRun.eq_of_shared (first : MaximalRun free e) (second : MaximalRun free f)
    (inFirst : e.base ≤ x ∧ x < e.top) (inSecond : f.base ≤ x ∧ x < f.top) : e = f := by
  have notLower (g h : Extent) (inG : g.base ≤ x ∧ x < g.top) (inH : h.base ≤ x ∧ x < h.top)
      (runG : MaximalRun free g) (runH : MaximalRun free h) : ¬ g.base < h.base := by
    intro lower
    refine runH.below (h.base - 1) (by omega) (runG.inside _ (by omega) (by omega))
  have notLonger (g h : Extent) (inG : g.base ≤ x ∧ x < g.top) (inH : h.base ≤ x ∧ x < h.top)
      (runG : MaximalRun free g) (runH : MaximalRun free h) : ¬ h.top < g.top :=
    fun longer => runH.above (runG.inside _ (by omega) longer)
  have base : e.base = f.base := by
    have one := notLower e f inFirst inSecond first second
    have two := notLower f e inSecond inFirst second first
    omega
  have top : e.top = f.top := by
    have one := notLonger e f inFirst inSecond first second
    have two := notLonger f e inSecond inFirst second first
    omega
  cases e
  cases f
  simp only [Extent.top, Extent.mk.injEq] at base top ⊢
  omega

structure RunsInOrder (free : Set Nat) (l : List Extent) : Prop where
  increasing : l.Pairwise fun e f => e.base < f.base
  all : ∀ e, e ∈ l ↔ MaximalRun free e

theorem RunsInOrder.unique (first : RunsInOrder free l) (second : RunsInOrder free m) : l = m := by
  have distinct {l : List Extent} (increasing : l.Pairwise fun e f => e.base < f.base) : l.Nodup :=
    increasing.imp fun lower same => absurd (congrArg Extent.base same) lower.ne
  have perm : l.Perm m := (List.perm_ext_iff_of_nodup (distinct first.increasing) (distinct second.increasing)).mpr
    fun e => (first.all e).trans (second.all e).symm
  exact perm.eq_of_pairwise (fun _ _ _ _ lower higher => absurd higher (Nat.lt_asymm lower)) first.increasing
    second.increasing

theorem Separated.apart_of_ne (separated : Separated l) (first : e ∈ l) (second : f ∈ l) (other : e ≠ f) :
    e.top < f.base ∨ f.top < e.base := by
  induction l with
  | nil => cases first
  | cons g rest ih =>
    obtain ⟨-, apart, later⟩ := separated_cons.mp separated
    rcases List.mem_cons.mp first with rfl | inRest
    · rcases List.mem_cons.mp second with rfl | behind
      · exact absurd rfl other
      · exact .inl (apart f behind)
    · rcases List.mem_cons.mp second with rfl | behind
      · exact .inr (apart e inRest)
      · exact ih later inRest behind

theorem Separated.maximalRun (separated : Separated l) (member : e ∈ l) : MaximalRun (units l) e where
  nonempty := separated.nonempty e member
  inside x low high := ⟨e, member, low, high⟩
  below := by
    rintro x next ⟨f, listed, low, high⟩
    have other : e ≠ f := by
      rintro rfl
      omega
    have apart := separated.apart_of_ne member listed other
    simp only [Extent.top] at *
    omega
  above := by
    rintro ⟨f, listed, low, high⟩
    have other : e ≠ f := by
      rintro rfl
      omega
    have apart := separated.apart_of_ne member listed other
    simp only [Extent.top] at *
    omega

/-- A separated list is the list of the maximal runs of its units. -/
theorem Separated.runsInOrder (separated : Separated l) : RunsInOrder (units l) l where
  increasing := separated.ordered.apart.imp_of_mem fun {e f} member _ above => by
    have nonempty := separated.nonempty e member
    simp only [Extent.top] at above
    omega
  all e := by
    refine ⟨separated.maximalRun, fun run => ?_⟩
    have low : e.base ∈ units l := run.inside e.base (Nat.le_refl _) (Nat.lt_add_of_pos_right run.nonempty)
    obtain ⟨f, listed, within⟩ := low
    have same : e = f := run.eq_of_shared (separated.maximalRun listed)
      ⟨Nat.le_refl _, Nat.lt_add_of_pos_right run.nonempty⟩ within
    exact same ▸ listed

theorem units_congr (same : ∀ x, tally x l = tally x m) : units l = units m := by
  ext x
  rw [mem_units_iff, mem_units_iff, same]

theorem Separated.eq_of_tally (first : Separated l) (second : Separated m) (same : ∀ x, tally x l = tally x m) :
    l = m :=
  first.runsInOrder.unique (units_congr same ▸ second.runsInOrder)

def ends (free : Set Nat) : Set Nat := {x | x ∉ free ∧ ∃ y ∈ free, y + 1 = x}

theorem exists_top_of_mem_ends (here : x ∈ ends (units l)) : ∃ e ∈ l, e.top = x := by
  obtain ⟨outside, y, ⟨e, member, low, high⟩, rfl⟩ := here
  refine ⟨e, member, ?_⟩
  have last : ¬ y + 1 < e.top := fun inside => outside ⟨e, member, low.trans (Nat.le_succ y), inside⟩
  omega

theorem Separated.top_mem_ends (separated : Separated l) (member : e ∈ l) : e.top ∈ ends (units l) := by
  have run := separated.maximalRun member
  have nonempty := run.nonempty
  have inside := run.inside (e.top - 1)
  simp only [Extent.top] at inside
  refine ⟨run.above, e.top - 1, inside (by omega) (by omega), ?_⟩
  simp only [Extent.top]
  omega

theorem Separated.length_le {marks : List Nat} (separated : Separated l) (marked : ∀ x ∈ ends (units l), x ∈ marks) :
    l.length ≤ marks.length := by
  have distinct : (l.map Extent.top).Nodup := by
    refine List.pairwise_map.mpr (separated.apart.imp_of_mem fun {e f} _ second apart => ?_)
    have nonempty := separated.nonempty f second
    simp only [Extent.top] at *
    omega
  have among : l.map Extent.top ⊆ marks := fun x listed => by
    obtain ⟨e, member, rfl⟩ := List.mem_map.mp listed
    exact marked e.top (separated.top_mem_ends member)
  have fewer := (List.subperm_of_subset distinct among).length_le
  rwa [List.length_map] at fewer

theorem Separated.length_le_succ (separated : Separated m) (same : ∀ x, tally x m = e.tally x + tally x l) :
    m.length ≤ l.length + 1 := by
  have units_ : units m = units (e :: l) := units_congr same
  have marked : ∀ x ∈ ends (units m), x ∈ (e :: l).map Extent.top := fun x here => by
    obtain ⟨f, member, top⟩ := exists_top_of_mem_ends (units_ ▸ here)
    exact List.mem_map.mpr ⟨f, member, top⟩
  have fewer := separated.length_le marked
  rwa [List.length_map, List.length_cons] at fewer

/-- Where units are shared out between two lists, a run of the one ends at an extent of the
other, or where the whole ends. -/
theorem exists_of_mem_ends {rest whole : List Extent} (shared : ∀ x, tally x l + tally x rest = tally x whole)
    (once : ∀ x, tally x whole ≤ 1) (here : x ∈ ends (units l)) :
    (∃ e ∈ rest, 0 < e.len ∧ e.base = x) ∨ ∃ e ∈ whole, e.top = x := by
  obtain ⟨outside, y, inside, rfl⟩ := here
  rw [mem_units_iff] at outside inside
  have before := shared y
  have single := once y
  have after := shared (y + 1)
  by_cases taken : 0 < tally (y + 1) rest
  · left
    obtain ⟨e, member, low, high⟩ := mem_units_iff.mpr taken
    simp only [Extent.top] at high
    refine ⟨e, member, by omega, ?_⟩
    by_contra earlier
    have held : 0 < tally y rest := mem_units_iff.mp ⟨e, member, by omega, by simp only [Extent.top]; omega⟩
    omega
  · right
    refine exists_top_of_mem_ends ⟨?_, y, ?_, rfl⟩
    · rw [mem_units_iff]
      omega
    · rw [mem_units_iff]
      omega

/-- A separated list has no more extents than the list of what is taken and the list of the
whole have together; empty ones do not count. -/
theorem Separated.length_le_of_shared {rest whole : List Extent} (separated : Separated l)
    (shared : ∀ x, tally x l + tally x rest = tally x whole) (once : ∀ x, tally x whole ≤ 1) :
    l.length ≤ (rest.filter fun e => 0 < e.len).length + whole.length := by
  have marked : ∀ x ∈ ends (units l), x ∈ (rest.filter fun e => 0 < e.len).map Extent.base ++ whole.map Extent.top := by
    intro x here
    rw [List.mem_append, List.mem_map, List.mem_map]
    rcases exists_of_mem_ends shared once here with ⟨e, member, some_, base⟩ | ⟨e, member, top⟩
    · exact .inl ⟨e, List.mem_filter.mpr ⟨member, decide_eq_true some_⟩, base⟩
    · exact .inr ⟨e, member, top⟩
  have fewer := separated.length_le marked
  rwa [List.length_append, List.length_map, List.length_map] at fewer

end SoiStud.Library
