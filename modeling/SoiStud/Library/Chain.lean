import Mathlib.Logic.Function.Basic
import Mathlib.Data.List.Basic
import Mathlib.Data.List.Nodup

/-! Chains threaded through a table of links.

`Chain next nil a l` says that following the links from `a` visits the elements
of `l` in order and then arrives at `nil`. A chain that ends never repeats an
element, so a finite list is all there is to say about it.
-/

set_option autoImplicit false

namespace SoiStud.Library

variable {α : Type*} {next next' : α → α} {nil a b c : α} {l m : List α}

inductive Chain (next : α → α) (nil : α) : α → List α → Prop where
  | stop : Chain next nil nil []
  | link {a : α} {l : List α} : a ≠ nil → Chain next nil (next a) l → Chain next nil a (a :: l)

namespace Chain

theorem eq_nil (chain : Chain next nil a []) : a = nil := by cases chain; rfl

theorem ne_nil (chain : Chain next nil a (b :: l)) : a ≠ nil := by cases chain; assumption

theorem head_eq (chain : Chain next nil a (b :: l)) : a = b := by cases chain; rfl

theorem tail (chain : Chain next nil a (b :: l)) : Chain next nil (next b) l := by
  cases chain; assumption

theorem list_eq_nil_iff (chain : Chain next nil a l) : l = [] ↔ a = nil := by
  cases chain with
  | stop => simp
  | link distinct _ => simp [distinct]

theorem unique (first : Chain next nil a l) (second : Chain next nil a m) : l = m := by
  induction first generalizing m with
  | stop =>
    cases second with
    | stop => rfl
    | link distinct _ => exact absurd rfl distinct
  | link distinct _ ih =>
    cases second with
    | stop => exact absurd rfl distinct
    | link _ rest => rw [ih rest]

theorem start_eq (first : Chain next nil a l) (second : Chain next' nil b l) : a = b := by
  cases first with
  | stop => exact second.eq_nil.symm
  | link _ _ => exact second.head_eq.symm

theorem links_eq (first : Chain next nil a l) (second : Chain next' nil b l) : ∀ c ∈ l, next c = next' c := by
  induction first generalizing b with
  | stop =>
    intro c member
    cases member
  | @link a l _ rest ih =>
    obtain rfl := second.head_eq
    intro c member
    rcases List.mem_cons.mp member with rfl | member
    · exact rest.start_eq second.tail
    · exact ih second.tail c member

theorem congr (chain : Chain next nil a l) (same : ∀ b ∈ l, next' b = next b) :
    Chain next' nil a l := by
  induction chain with
  | stop => exact .stop
  | @link a l distinct _ ih =>
    refine .link distinct ?_
    rw [same a List.mem_cons_self]
    exact ih fun b member => same b (List.mem_cons_of_mem _ member)

theorem suffix (chain : Chain next nil a (l ++ m)) : ∃ b, Chain next nil b m := by
  induction l generalizing a with
  | nil => exact ⟨a, chain⟩
  | cons _ _ ih => exact ih chain.tail

theorem behind (chain : Chain next nil a (l ++ b :: m)) : Chain next nil (next b) m := by
  obtain ⟨c, again⟩ := chain.suffix
  exact again.head_eq ▸ again.tail

/-- Another chain behind an element, the links in front of it being as they were. -/
theorem splice {n : List α} (chain : Chain next nil a (l ++ b :: m)) (same : ∀ x ∈ l, next' x = next x)
    (rest : Chain next' nil (next' b) n) : Chain next' nil a (l ++ b :: n) := by
  induction l generalizing a with
  | nil =>
    obtain rfl := chain.head_eq
    exact .link chain.ne_nil rest
  | cons x before ih =>
    obtain rfl := chain.head_eq
    refine .link chain.ne_nil ?_
    rw [same a List.mem_cons_self]
    exact ih chain.tail fun x member => same x (List.mem_cons_of_mem _ member)

theorem ne_nil_of_mem (chain : Chain next nil a l) (member : b ∈ l) : b ≠ nil := by
  obtain ⟨before, after, rfl⟩ := List.append_of_mem member
  obtain ⟨c, again⟩ := chain.suffix
  exact again.head_eq ▸ again.ne_nil

theorem next_mem (chain : Chain next nil a l) (member : b ∈ l) : next b = nil ∨ next b ∈ l := by
  obtain ⟨before, after, rfl⟩ := List.append_of_mem member
  obtain ⟨c, again⟩ := chain.suffix
  cases after with
  | nil => exact .inl again.tail.eq_nil
  | cons d rest =>
    rw [again.tail.head_eq]
    exact .inr (by simp)

/-- An element is visited once: what follows it would otherwise never end. -/
theorem nodup (chain : Chain next nil a l) : l.Nodup := by
  induction chain with
  | stop => exact List.nodup_nil
  | @link a l distinct rest ih =>
    refine List.nodup_cons.mpr ⟨fun member => ?_, ih⟩
    obtain ⟨before, after, rfl⟩ := List.append_of_mem member
    obtain ⟨c, again⟩ := rest.suffix
    have tail := again.tail
    rw [again.head_eq] at again
    have longer := tail.unique rest
    have lengths := congrArg List.length longer
    simp only [List.length_append, List.length_cons] at lengths
    omega

/-- The chain up to an element ends there once that element's link is cleared. -/
theorem keep (chain : Chain next nil a (l ++ [b] ++ m)) (cleared : next' b = nil)
    (same : ∀ x ∈ l, next' x = next x) : Chain next' nil a (l ++ [b]) := by
  induction l generalizing a with
  | nil =>
    obtain rfl := chain.head_eq
    refine .link chain.ne_nil ?_
    rw [cleared]
    exact .stop
  | cons x rest ih =>
    obtain rfl := chain.head_eq
    refine .link chain.ne_nil ?_
    rw [same a List.mem_cons_self]
    exact ih chain.tail fun x member => same x (List.mem_cons_of_mem _ member)

theorem extend (chain : Chain next nil a (l ++ [b])) (fresh : c ∉ l ++ [b]) (distinct : c ≠ nil)
    (same : ∀ x ∈ l, next' x = next x) (linked : next' b = c) (ended : next' c = nil) :
    Chain next' nil a (l ++ [b] ++ [c]) := by
  induction l generalizing a with
  | nil =>
    obtain rfl := chain.head_eq
    refine .link chain.ne_nil ?_
    rw [linked]
    refine .link distinct ?_
    rw [ended]
    exact .stop
  | cons x rest ih =>
    obtain rfl := chain.head_eq
    refine .link chain.ne_nil ?_
    rw [same a List.mem_cons_self]
    exact ih chain.tail (fun member => fresh (List.mem_cons_of_mem _ member))
      fun x member => same x (List.mem_cons_of_mem _ member)

theorem range'_of_pos {next : Nat → Nat} {nil : Nat} (a n : Nat) (apart : a + n ≤ nil) (some_ : 0 < n)
    (links : ∀ i, a ≤ i → i + 1 < a + n → next i = i + 1) (last : next (a + n - 1) = nil) :
    Chain next nil a (List.range' a n) := by
  induction n generalizing a with
  | zero => cases some_
  | succ n ih =>
    rw [List.range'_succ]
    refine .link (by omega) ?_
    cases n with
    | zero =>
      rw [show next a = nil from last]
      exact .stop
    | succ n =>
      rw [links a (Nat.le_refl a) (by omega)]
      apply ih (a + 1) (by omega) (Nat.succ_pos n)
      · intro i after before
        exact links i (by omega) (by omega)
      · rw [← last]
        congr 1
        omega

theorem range' {next : Nat → Nat} {nil : Nat} (links : ∀ i < nil, next i = i + 1) (a n : Nat) (total : a + n = nil) :
    Chain next nil a (List.range' a n) := by
  rcases Nat.eq_zero_or_pos n with rfl | some_
  · obtain rfl := total
    exact .stop
  · apply range'_of_pos a n (Nat.le_of_eq total) some_
    · intro i _ before
      exact links i (by omega)
    · rw [links _ (by omega)]
      omega

end Chain
end SoiStud.Library
