import SoiStud.Library.Chain
import Mathlib.Algebra.Order.BigOperators.Group.Finset
import Mathlib.Data.List.Perm.Subperm
import Mathlib.Data.List.Range

/-! A pool of blocks shared by owners.

Every owner holds a chain of blocks; chains of different owners are disjoint, a
map marks exactly the blocks on some chain, and a block on no chain has no
successor. Growing a chain by an unmarked block and cutting a chain short are
the two ways a pool changes.
-/

set_option autoImplicit false

namespace SoiStud.Library

def unmarked (blocks : Nat) (marked : Nat → Bool) : List Nat :=
  (List.range blocks).filter fun b => !marked b

theorem mem_unmarked {blocks : Nat} {marked : Nat → Bool} {b : Nat} :
    b ∈ unmarked blocks marked ↔ b < blocks ∧ marked b = false := by
  simp [unmarked]

theorem nodup_unmarked (blocks : Nat) (marked : Nat → Bool) : (unmarked blocks marked).Nodup :=
  List.nodup_range.filter _

/-- Marking the first unmarked blocks leaves the others, in the same order. -/
theorem unmarked_mark {blocks : Nat} {marked marked' : Nat → Bool} {added rest : List Nat}
    (first : unmarked blocks marked = added ++ rest)
    (map : ∀ b < blocks, marked' b = (marked b || added.contains b)) : unmarked blocks marked' = rest := by
  have unique := nodup_unmarked blocks marked
  rw [first] at unique
  have again : unmarked blocks marked' = (unmarked blocks marked).filter fun b => !added.contains b := by
    unfold unmarked
    rw [List.filter_filter]
    apply List.filter_congr
    intro b listed
    rw [map b (List.mem_range.mp listed), Bool.not_or, Bool.and_comm]
  have none_of_added : added.filter (fun b => !added.contains b) = [] := by
    apply List.filter_eq_nil_iff.mpr
    intro b member
    simp [member]
  have all_of_rest : rest.filter (fun b => !added.contains b) = rest := by
    apply List.filter_eq_self.mpr
    intro b member
    have apart : b ∉ added := fun inAdded => (List.nodup_append.mp unique).2.2 b inAdded b member rfl
    simp [apart]
  rw [again, first, List.filter_append, none_of_added, all_of_rest, List.nil_append]

theorem Chain.length_le {next : Nat → Nat} {nil a n : Nat} {l : List Nat} (chain : Chain next nil a l)
    (bounded : ∀ b ∈ l, b < n) : l.length ≤ n := by
  have within : l ⊆ List.range n := fun b member => List.mem_range.mpr (bounded b member)
  simpa using (List.subperm_of_subset chain.nodup within).length_le

/-- Owners `0 .. owners - 1` hold the chains `chain 0 .. chain (owners - 1)` of
blocks below `blocks`. -/
structure Pool (owners blocks nil : Nat) (first next : Nat → Nat) (marked : Nat → Bool)
    (chain : Nat → List Nat) : Prop where
  linked : ∀ i < owners, Chain next nil (first i) (chain i)
  bounded : ∀ i < owners, ∀ b ∈ chain i, b < blocks
  disjoint : ∀ i < owners, ∀ j < owners, i ≠ j → (chain i).Disjoint (chain j)
  marked_iff : ∀ b < blocks, marked b = true ↔ ∃ i < owners, b ∈ chain i
  loose : ∀ b < blocks, marked b = false → next b = nil

namespace Pool

variable {owners blocks nil : Nat} {first first' next next' : Nat → Nat} {marked marked' : Nat → Bool}
  {chain : Nat → List Nat} {i j b : Nat}

theorem marked_of_mem (pool : Pool owners blocks nil first next marked chain) (owner : i < owners)
    (member : b ∈ chain i) : marked b = true :=
  (pool.marked_iff b (pool.bounded i owner b member)).mpr ⟨i, owner, member⟩

theorem not_mem_of_unmarked (pool : Pool owners blocks nil first next marked chain) (owner : i < owners)
    (free : marked b = false) : b ∉ chain i := by
  intro member
  rw [pool.marked_of_mem owner member] at free
  cases free

theorem length_le (pool : Pool owners blocks nil first next marked chain) (owner : i < owners) :
    (chain i).length ≤ blocks := (pool.linked i owner).length_le (pool.bounded i owner)

theorem sum_length_le (pool : Pool owners blocks nil first next marked chain) :
    ∑ i ∈ Finset.range owners, (chain i).length ≤ blocks := by
  have lengths : ∀ i ∈ Finset.range owners, (chain i).length = (chain i).toFinset.card := fun i member =>
    (List.toFinset_card_of_nodup (pool.linked i (Finset.mem_range.mp member)).nodup).symm
  have apart : (Finset.range owners : Set Nat).PairwiseDisjoint fun i => (chain i).toFinset := by
    intro i memberI j memberJ other
    rw [Function.onFun, List.disjoint_toFinset_iff_disjoint]
    exact pool.disjoint i (Finset.mem_range.mp memberI) j (Finset.mem_range.mp memberJ) other
  have within : (Finset.range owners).biUnion (fun i => (chain i).toFinset) ⊆ Finset.range blocks := by
    intro b member
    obtain ⟨i, owner, held⟩ := Finset.mem_biUnion.mp member
    exact Finset.mem_range.mpr (pool.bounded i (Finset.mem_range.mp owner) b (List.mem_toFinset.mp held))
  calc ∑ i ∈ Finset.range owners, (chain i).length
      = ∑ i ∈ Finset.range owners, (chain i).toFinset.card := Finset.sum_congr rfl lengths
    _ = ((Finset.range owners).biUnion fun i => (chain i).toFinset).card := (Finset.card_biUnion apart).symm
    _ ≤ (Finset.range blocks).card := Finset.card_le_card within
    _ = blocks := Finset.card_range blocks

theorem chain_eq_nil_iff (pool : Pool owners blocks nil first next marked chain) (owner : i < owners) :
    chain i = [] ↔ first i = nil := (pool.linked i owner).list_eq_nil_iff

/-- The chains determine the starts, the marks and the links. -/
theorem determined (pool : Pool owners blocks nil first next marked chain)
    (again : Pool owners blocks nil first' next' marked' chain) :
    (∀ i < owners, first' i = first i) ∧ (∀ b < blocks, marked' b = marked b) ∧
      ∀ b < blocks, next' b = next b := by
  have marks : ∀ b < blocks, marked' b = marked b := by
    intro b bounded
    rw [Bool.eq_iff_iff, again.marked_iff b bounded, pool.marked_iff b bounded]
  refine ⟨fun i owner => (again.linked i owner).start_eq (pool.linked i owner), marks, ?_⟩
  intro b bounded
  cases held : marked b with
  | true =>
    obtain ⟨i, owner, member⟩ := (pool.marked_iff b bounded).mp held
    exact (again.linked i owner).links_eq (pool.linked i owner) b member
  | false => rw [pool.loose b bounded held, again.loose b bounded ((marks b bounded).trans held)]

theorem replace {l : List Nat} (pool : Pool owners blocks nil first next marked chain) (owner : i < owners)
    (linked : Chain next' nil (first' i) l) (bounded : ∀ b ∈ l, b < blocks)
    (apart : ∀ j < owners, j ≠ i → (chain j).Disjoint l)
    (firsts : ∀ j, j ≠ i → first' j = first j)
    (links : ∀ j < owners, j ≠ i → ∀ b ∈ chain j, next' b = next b)
    (map : ∀ b < blocks, marked' b = true ↔ b ∈ l ∨ ∃ j < owners, j ≠ i ∧ b ∈ chain j)
    (loose : ∀ b < blocks, marked' b = false → next' b = nil) :
    Pool owners blocks nil first' next' marked' (Function.update chain i l) := by
  constructor
  case linked =>
    intro j other
    by_cases same : j = i
    · subst same
      rw [Function.update_self]
      exact linked
    · rw [Function.update_of_ne same, firsts j same]
      exact (pool.linked j other).congr (links j other same)
  case bounded =>
    intro j other b member
    by_cases same : j = i
    · subst same
      rw [Function.update_self] at member
      exact bounded b member
    · rw [Function.update_of_ne same] at member
      exact pool.bounded j other b member
  -- the new chain against an old one, and two old ones
  case disjoint =>
    intro j ownerJ k ownerK distinct
    rw [Function.update_apply, Function.update_apply]
    split <;> split
    next sameJ sameK => exact absurd (sameJ.trans sameK.symm) distinct
    next sameJ notK => exact (apart k ownerK notK).symm
    next notJ sameK => exact apart j ownerJ notJ
    next => exact pool.disjoint j ownerJ k ownerK distinct
  case marked_iff =>
    intro b bounded
    rw [map b bounded]
    constructor
    · rintro (mine | ⟨j, other, distinct, member⟩)
      · exact ⟨i, owner, by rwa [Function.update_self]⟩
      · exact ⟨j, other, by rwa [Function.update_of_ne distinct]⟩
    · rintro ⟨j, other, member⟩
      by_cases same : j = i
      · subst same
        rw [Function.update_self] at member
        exact .inl member
      · rw [Function.update_of_ne same] at member
        exact .inr ⟨j, other, same, member⟩
  case loose => exact loose

theorem marked_iff_or (pool : Pool owners blocks nil first next marked chain) (owner : i < owners) (bounded : b < blocks) :
    marked b = true ↔ b ∈ chain i ∨ ∃ j < owners, j ≠ i ∧ b ∈ chain j := by
  rw [pool.marked_iff b bounded]
  constructor
  · rintro ⟨j, other, member⟩
    by_cases same : j = i
    · exact .inl (same ▸ member)
    · exact .inr ⟨j, other, same, member⟩
  · rintro (mine | ⟨j, other, -, member⟩)
    · exact ⟨i, owner, mine⟩
    · exact ⟨j, other, member⟩

/-- Growing the chain of `i` by unmarked blocks, however the longer chain is linked. -/
theorem grow {added : List Nat} (pool : Pool owners blocks nil first next marked chain) (owner : i < owners)
    (free : ∀ b ∈ added, b < blocks ∧ marked b = false)
    (linked : Chain next' nil (first' i) (chain i ++ added))
    (firsts : ∀ j, j ≠ i → first' j = first j)
    (links : ∀ c, c ∉ chain i ++ added → next' c = next c)
    (map : ∀ b < blocks, marked' b = (marked b || added.contains b)) :
    Pool owners blocks nil first' next' marked' (Function.update chain i (chain i ++ added)) := by
  -- what is added was on no chain
  have apart : ∀ j < owners, j ≠ i → (chain j).Disjoint (chain i ++ added) := by
    intro j other distinct
    refine List.disjoint_append_right.mpr ⟨pool.disjoint j other i owner distinct, fun b member inAdded => ?_⟩
    exact pool.not_mem_of_unmarked other (free b inAdded).2 member
  apply pool.replace owner linked _ apart firsts
  · intro j other distinct b member
    exact links b fun mine => apart j other distinct member mine
  · intro b bounded
    rw [map b bounded, Bool.or_eq_true, pool.marked_iff_or owner bounded, List.contains_iff_mem, List.mem_append,
      or_right_comm]
  · intro b bounded unmarked
    rw [map b bounded, Bool.or_eq_false_iff] at unmarked
    have notAdded : b ∉ added := by simpa using unmarked.2
    rw [links b]
    · exact pool.loose b bounded unmarked.1
    · rw [List.mem_append, not_or]
      exact ⟨pool.not_mem_of_unmarked owner unmarked.1, notAdded⟩
  · intro b member
    rcases List.mem_append.mp member with old | new
    · exact pool.bounded i owner b old
    · exact (free b new).1

/-- Cutting the chain of `i` after `keep`, however the shorter chain is linked. -/
theorem cut {keep gone : List Nat} (pool : Pool owners blocks nil first next marked chain)
    (owner : i < owners) (parts : chain i = keep ++ gone) (linked : Chain next' nil (first' i) keep)
    (firsts : ∀ j, j ≠ i → first' j = first j)
    (links : ∀ c < blocks, c ∉ chain i → next' c = next c) (cleared : ∀ c ∈ gone, next' c = nil)
    (map : ∀ c < blocks, marked' c = (marked c && !(gone.contains c))) :
    Pool owners blocks nil first' next' marked' (Function.update chain i keep) := by
  have unique : (keep ++ gone).Nodup := parts ▸ (pool.linked i owner).nodup
  have apart : ∀ j < owners, j ≠ i → (chain j).Disjoint (keep ++ gone) := fun j other distinct =>
    parts ▸ pool.disjoint j other i owner distinct
  apply pool.replace owner linked _ (fun j other distinct => (List.disjoint_append_right.mp (apart j other distinct)).1)
    firsts
  · intro j other distinct c member
    exact links c (pool.bounded j other c member) fun mine => apart j other distinct member (parts ▸ mine)
  · -- a block given back was on this chain only
    intro c bounded
    rw [map c bounded, Bool.and_eq_true, pool.marked_iff_or owner bounded, parts, List.mem_append]
    simp only [Bool.not_eq_true', List.contains_eq_mem, decide_eq_false_iff_not]
    constructor
    · rintro ⟨(kept | inGone) | others, notGone⟩
      · exact .inl kept
      · exact absurd inGone notGone
      · exact .inr others
    · rintro (kept | ⟨j, other, distinct, member⟩)
      · exact ⟨.inl (.inl kept), fun inGone => (List.nodup_append.mp unique).2.2 c kept c inGone rfl⟩
      · exact ⟨.inr ⟨j, other, distinct, member⟩, fun inGone =>
          apart j other distinct member (List.mem_append_right _ inGone)⟩
  · intro c bounded unmarked
    rw [map c bounded] at unmarked
    by_cases inGone : c ∈ gone
    · exact cleared c inGone
    · have free : marked c = false := by simpa [inGone] using unmarked
      rw [links c bounded (pool.not_mem_of_unmarked owner free)]
      exact pool.loose c bounded free
  · intro c member
    exact pool.bounded i owner c (parts ▸ List.mem_append_left _ member)

end Pool
end SoiStud.Library
