import Mathlib.Data.List.Basic
import Mathlib.Data.Set.Basic
import Mathlib.Order.SetNotation

/-! Lists of extents, half-open intervals of units of storage.

A list is separated if its extents are non-empty, in increasing order and with a
gap between any two. The tally of a unit says how many extents of a list hold it:
tallies add up, so that moving storage between two lists is a law of sums, and
lists that never tally more than one overlap nowhere.
-/

set_option autoImplicit false

namespace SoiStud.Library

structure Extent where
  base : Nat
  len : Nat
  deriving DecidableEq, Repr

namespace Extent

def top (e : Extent) : Nat := e.base + e.len

def join (e f : Extent) : Extent := ⟨e.base, e.len + f.len⟩

def cut (e : Extent) (n : Nat) : List Extent := if e.len = n then [] else [⟨e.base + n, e.len - n⟩]

def tally (x : Nat) (e : Extent) : Nat := if e.base ≤ x ∧ x < e.top then 1 else 0

theorem tally_le_one (x : Nat) (e : Extent) : e.tally x ≤ 1 := by
  unfold tally
  split <;> decide

theorem tally_pos_iff {e : Extent} {x : Nat} : 0 < e.tally x ↔ e.base ≤ x ∧ x < e.top := by
  unfold tally
  split <;> simp_all

theorem tally_join {e f : Extent} (touch : e.top = f.base) (x : Nat) :
    (e.join f).tally x = e.tally x + f.tally x := by
  simp only [tally, join, top] at touch ⊢
  grind

end Extent

def tally (x : Nat) : List Extent → Nat
  | [] => 0
  | e :: rest => e.tally x + tally x rest

def units (l : List Extent) : Set Nat := {x | ∃ e ∈ l, e.base ≤ x ∧ x < e.top}

section
variable {e f : Extent} {l m rest : List Extent} {x n : Nat}

@[simp] theorem tally_nil : tally x [] = 0 := rfl

@[simp] theorem tally_cons : tally x (e :: l) = e.tally x + tally x l := rfl

@[simp] theorem tally_append : tally x (l ++ m) = tally x l + tally x m := by
  induction l with
  | nil => simp
  | cons e l ih => simp [ih, Nat.add_assoc]

theorem tally_perm (same : l.Perm m) : tally x l = tally x m := by
  induction same with
  | nil => rfl
  | cons e _ ih => simp [ih]
  | swap e f l => simp [Nat.add_left_comm]
  | trans _ _ first second => exact first.trans second

theorem tally_cut (within : n ≤ e.len) : (⟨e.base, n⟩ : Extent).tally x + tally x (e.cut n) = e.tally x := by
  unfold Extent.cut
  split
  next all =>
    subst all
    rfl
  next =>
    simp only [tally_cons, tally_nil, Extent.tally, Extent.top]
    grind

theorem mem_units_iff : x ∈ units l ↔ 0 < tally x l := by
  induction l with
  | nil => simp [units]
  | cons e l ih =>
    have here : 0 < e.tally x ↔ e.base ≤ x ∧ x < e.top := by
      unfold Extent.tally
      split <;> simp_all
    simp only [units, Set.mem_ofPred_eq, List.exists_mem_cons_iff, tally_cons, Nat.add_pos_iff_pos_or_pos] at ih ⊢
    rw [here, ih]

theorem tally_le_of_mem (member : e ∈ l) : e.tally x ≤ tally x l := by
  obtain ⟨before, after, rfl⟩ := List.append_of_mem member
  simp only [tally_append, tally_cons]
  omega

theorem tally_le_one_of_pairwise (apart : l.Pairwise fun e f => e.top ≤ f.base ∨ f.top ≤ e.base) : tally x l ≤ 1 := by
  induction l with
  | nil => simp
  | cons e l ih =>
    obtain ⟨here, rest⟩ := List.pairwise_cons.mp apart
    have once := ih rest
    by_cases held : 0 < tally x l
    · obtain ⟨f, member, low, high⟩ := mem_units_iff.mpr held
      have outside : e.tally x = 0 := by
        rcases here f member with above | below
        · exact if_neg fun inside => absurd (inside.2.trans_le above) (Nat.not_lt.mpr low)
        · exact if_neg fun inside => absurd (high.trans_le below) (Nat.not_lt.mpr inside.1)
      rw [tally_cons, outside]
      omega
    · have single := Extent.tally_le_one x e
      rw [tally_cons]
      omega

theorem apart_of_tally (once : ∀ x, e.tally x + f.tally x ≤ 1) (first : 0 < e.len) (second : 0 < f.len) :
    e.top ≤ f.base ∨ f.top ≤ e.base := by
  by_contra overlap
  rw [not_or, Nat.not_le, Nat.not_le] at overlap
  have both := once (max e.base f.base)
  simp only [Extent.tally, Extent.top] at both overlap
  grind

/-- The extents overlap nowhere, lie below `limit` and leave a unit there that none of them holds. -/
structure Fits (limit : Nat) (l : List Extent) : Prop where
  once : ∀ x, tally x l ≤ 1
  below : ∀ x, 0 < tally x l → x < limit
  spare : ∃ x < limit, tally x l = 0

theorem Fits.mono {limit : Nat} (fits : Fits limit m) (fewer : ∀ x, tally x l ≤ tally x m) : Fits limit l where
  once x := (fewer x).trans (fits.once x)
  below x held := fits.below x (held.trans_le (fewer x))
  spare := by
    obtain ⟨x, inside, free⟩ := fits.spare
    exact ⟨x, inside, Nat.le_zero.mp (free ▸ fewer x)⟩

theorem Fits.top_le {limit : Nat} (fits : Fits limit l) (member : e ∈ l) (nonempty : 0 < e.len) : e.top ≤ limit := by
  have last : e.tally (e.top - 1) = 1 := by
    simp only [Extent.tally, Extent.top]
    grind
  have held := tally_le_of_mem (x := e.top - 1) member
  have := fits.below (e.top - 1) (by omega)
  omega

theorem Fits.len_lt {limit : Nat} (fits : Fits limit l) (member : e ∈ l) : e.len < limit := by
  obtain ⟨x, inside, free⟩ := fits.spare
  by_cases nonempty : 0 < e.len
  · have top := fits.top_le member nonempty
    have held := tally_le_of_mem (x := x) member
    have outside : e.tally x = 0 := by omega
    simp only [Extent.tally, Extent.top] at top outside
    grind
  · omega

structure Separated (l : List Extent) : Prop where
  apart : l.Pairwise fun e f => e.top < f.base
  nonempty : ∀ e ∈ l, 0 < e.len

theorem separated_nil : Separated [] := ⟨.nil, by simp⟩

theorem separated_cons : Separated (e :: l) ↔ 0 < e.len ∧ (∀ f ∈ l, e.top < f.base) ∧ Separated l := by
  constructor
  · rintro ⟨apart, nonempty⟩
    obtain ⟨first, later⟩ := List.pairwise_cons.mp apart
    exact ⟨nonempty e List.mem_cons_self, first, later, fun f member => nonempty f (List.mem_cons_of_mem _ member)⟩
  · rintro ⟨nonempty, first, separated⟩
    exact ⟨List.pairwise_cons.mpr ⟨first, separated.apart⟩, List.forall_mem_cons.mpr ⟨nonempty, separated.nonempty⟩⟩

theorem separated_append :
    Separated (l ++ m) ↔ Separated l ∧ Separated m ∧ ∀ e ∈ l, ∀ f ∈ m, e.top < f.base := by
  constructor
  · rintro ⟨apart, nonempty⟩
    obtain ⟨first, second, across⟩ := List.pairwise_append.mp apart
    exact ⟨⟨first, fun e member => nonempty e (List.mem_append_left _ member)⟩,
      ⟨second, fun e member => nonempty e (List.mem_append_right _ member)⟩, across⟩
  · rintro ⟨first, second, across⟩
    refine ⟨List.pairwise_append.mpr ⟨first.apart, second.apart, across⟩, fun e member => ?_⟩
    rcases List.mem_append.mp member with inFirst | inSecond
    · exact first.nonempty e inFirst
    · exact second.nonempty e inSecond

theorem fits_of_pairwise {limit : Nat} (apart : l.Pairwise fun e f => e.top ≤ f.base ∨ f.top ≤ e.base)
    (within : ∀ e ∈ l, e.top ≤ limit) (spare : ∃ x < limit, x ∉ units l) : Fits limit l where
  once _ := tally_le_one_of_pairwise apart
  below x held := by
    obtain ⟨e, member, -, high⟩ := mem_units_iff.mpr held
    exact high.trans_le (within e member)
  spare := by
    obtain ⟨x, inside, free⟩ := spare
    exact ⟨x, inside, Nat.eq_zero_of_not_pos fun held => free (mem_units_iff.mpr held)⟩

/-- A gap is spare, unless one extent is the whole range. -/
theorem Separated.fits {limit : Nat} (separated : Separated l) (some_ : 0 < limit)
    (within : ∀ e ∈ l, e.top ≤ limit ∧ e.len < limit) : Fits limit l := by
  refine fits_of_pairwise (separated.apart.imp fun apart => .inl apart.le) (fun e member => (within e member).1) ?_
  cases l with
  | nil => exact ⟨0, some_, by simp [units]⟩
  | cons e rest =>
    obtain ⟨nonempty, apart, -⟩ := separated_cons.mp separated
    by_cases low : 0 < e.base
    · refine ⟨0, some_, ?_⟩
      rintro ⟨f, member, start, -⟩
      rcases List.mem_cons.mp member with rfl | later
      · omega
      · have := apart f later
        omega
    · have first := within e List.mem_cons_self
      refine ⟨e.top, by simp only [Extent.top] at *; omega, ?_⟩
      rintro ⟨f, member, start, high⟩
      rcases List.mem_cons.mp member with rfl | later
      · omega
      · have := apart f later
        omega

structure Ordered (l : List Extent) : Prop where
  apart : l.Pairwise fun e f => e.top ≤ f.base
  nonempty : ∀ e ∈ l, 0 < e.len

theorem Separated.ordered (separated : Separated l) : Ordered l :=
  ⟨separated.apart.imp Nat.le_of_lt, separated.nonempty⟩

theorem ordered_cons : Ordered (e :: l) ↔ 0 < e.len ∧ (∀ f ∈ l, e.top ≤ f.base) ∧ Ordered l := by
  constructor
  · rintro ⟨apart, nonempty⟩
    obtain ⟨first, later⟩ := List.pairwise_cons.mp apart
    exact ⟨nonempty e List.mem_cons_self, first, later, fun f member => nonempty f (List.mem_cons_of_mem _ member)⟩
  · rintro ⟨nonempty, first, ordered⟩
    exact ⟨List.pairwise_cons.mpr ⟨first, ordered.apart⟩, List.forall_mem_cons.mpr ⟨nonempty, ordered.nonempty⟩⟩

theorem mem_cut (left : f ∈ e.cut n) : e.len ≠ n ∧ f = ⟨e.base + n, e.len - n⟩ := by
  unfold Extent.cut at left
  split at left
  next => cases left
  next some_ => exact ⟨some_, List.mem_singleton.mp left⟩

theorem separated_cut (separated : Separated (l ++ e :: m)) (within : n ≤ e.len) :
    Separated (l ++ (e.cut n ++ m)) := by
  obtain ⟨first, second, across⟩ := separated_append.mp separated
  obtain ⟨nonempty, apart, rest⟩ := separated_cons.mp second
  have left : Separated (e.cut n) := by
    unfold Extent.cut
    split
    next => exact separated_nil
    next some_ => exact separated_cons.mpr ⟨by dsimp only; omega, by simp, separated_nil⟩
  refine separated_append.mpr ⟨first, separated_append.mpr ⟨left, rest, ?_⟩, ?_⟩
  · intro f member g later
    obtain ⟨-, rfl⟩ := mem_cut member
    have := apart g later
    simp only [Extent.top] at this ⊢
    omega
  · intro f member g later
    rcases List.mem_append.mp later with here | later
    · obtain ⟨-, rfl⟩ := mem_cut here
      have := across f member e List.mem_cons_self
      dsimp only
      omega
    · exact across f member g (List.mem_cons_of_mem _ later)

/-- The first extent takes in its successor if that begins where it ends. -/
def absorb : List Extent → List Extent
  | e :: f :: rest => if e.top = f.base then e.join f :: rest else e :: f :: rest
  | l => l

/-- The first extent takes in its successor, and what stands there then its own:
three extents become one, two or remain. -/
def coalesce : List Extent → List Extent
  | e :: f :: rest => if e.top = f.base then absorb (e.join f :: rest) else e :: absorb (f :: rest)
  | l => l

theorem tally_absorb (x : Nat) (l : List Extent) : tally x (absorb l) = tally x l := by
  unfold absorb
  split
  next e f rest =>
    split
    next touch => simp [Extent.tally_join touch, Nat.add_assoc]
    next => rfl
  next => rfl

theorem tally_coalesce (x : Nat) (l : List Extent) : tally x (coalesce l) = tally x l := by
  unfold coalesce
  split
  next e f rest =>
    split
    next touch => simp [tally_absorb, Extent.tally_join touch, Nat.add_assoc]
    next => simp [tally_absorb]
  next => rfl

theorem base_le_of_mem_absorb (ordered : ∀ f ∈ l, e.base ≤ f.base) (member : f ∈ absorb l) : e.base ≤ f.base := by
  unfold absorb at member
  split at member
  next g h rest =>
    split at member
    next =>
      rcases List.mem_cons.mp member with rfl | later
      · exact ordered g List.mem_cons_self
      · exact ordered f (List.mem_cons_of_mem _ (List.mem_cons_of_mem _ later))
    next => exact ordered f member
  next => exact ordered f member

theorem ordered_absorb (ordered : Ordered l) : Ordered (absorb l) := by
  unfold absorb
  split
  next e f rest =>
    split
    next touch =>
      obtain ⟨first, -, tail⟩ := ordered_cons.mp ordered
      obtain ⟨-, next, later⟩ := ordered_cons.mp tail
      refine ordered_cons.mpr ⟨Nat.add_pos_left first _, fun g member => ?_, later⟩
      have := next g member
      simp only [Extent.join, Extent.top] at this touch ⊢
      omega
    next => exact ordered
  next => exact ordered

theorem separated_absorb (ordered : Ordered (e :: l)) (separated : Separated l) : Separated (absorb (e :: l)) := by
  obtain ⟨nonempty, apart, -⟩ := ordered_cons.mp ordered
  cases l with
  | nil => exact separated_cons.mpr ⟨nonempty, by simp, separated_nil⟩
  | cons f rest =>
    obtain ⟨some_, next, later⟩ := separated_cons.mp separated
    have first := apart f List.mem_cons_self
    rw [absorb]
    split
    next touch =>
      refine separated_cons.mpr ⟨Nat.add_pos_left nonempty _, fun g member => ?_, later⟩
      have := next g member
      simp only [Extent.join, Extent.top] at this touch ⊢
      omega
    next gap =>
      refine separated_cons.mpr ⟨nonempty, fun g member => ?_, separated⟩
      rcases List.mem_cons.mp member with rfl | member
      · omega
      · have := next g member
        simp only [Extent.top] at this first gap ⊢
        omega

/-- Of the first three extents any two neighbours may touch; behind them all are apart. -/
theorem separated_coalesce (ordered : Ordered (e :: f :: l)) (separated : Separated l) :
    Separated (coalesce (e :: f :: l)) := by
  obtain ⟨first, apart, tail⟩ := ordered_cons.mp ordered
  have next := apart f List.mem_cons_self
  rw [coalesce]
  split
  next touch =>
    refine separated_absorb ?_ separated
    have joined := ordered_absorb ordered
    rwa [absorb, if_pos touch] at joined
  next gap =>
    refine separated_cons.mpr ⟨first, fun g member => ?_, separated_absorb tail separated⟩
    have above : f.base ≤ g.base := by
      refine base_le_of_mem_absorb (fun h listed => ?_) member
      rcases List.mem_cons.mp listed with rfl | later
      · exact Nat.le_refl _
      · have := (ordered_cons.mp tail).2.1 h later
        simp only [Extent.top] at this
        omega
    omega

theorem base_le_of_mem_coalesce (ordered : ∀ f ∈ l, e.base ≤ f.base) (member : f ∈ coalesce l) :
    e.base ≤ f.base := by
  unfold coalesce at member
  split at member
  next g h rest =>
    obtain ⟨first, later⟩ := List.forall_mem_cons.mp ordered
    split at member
    next =>
      refine base_le_of_mem_absorb (fun i listed => ?_) member
      rcases List.mem_cons.mp listed with rfl | listed
      · exact first
      · exact later i (List.mem_cons_of_mem _ listed)
    next =>
      rcases List.mem_cons.mp member with rfl | member
      · exact first
      · exact base_le_of_mem_absorb later member
  next => exact ordered f member

/-- Of the extents apart from `e`, those from one on that does not begin below `e` lie above it. -/
theorem above_of_head (separated : Separated l) (apart : ∀ f ∈ l, e.top ≤ f.base ∨ f.top ≤ e.base)
    (head : ∀ f ∈ l.head?, e.base ≤ f.base) : ∀ f ∈ l, e.top ≤ f.base := by
  intro f member
  have begins : e.base ≤ f.base := by
    cases l with
    | nil => cases member
    | cons g rest =>
      have first := head g rfl
      rcases List.mem_cons.mp member with rfl | later
      · exact first
      · have := (separated_cons.mp separated).2.1 f later
        simp only [Extent.top] at this
        omega
  have nonempty := separated.nonempty f member
  rcases apart f member with above | below
  · exact above
  · simp only [Extent.top] at below
    omega

theorem separated_front (separated : Separated l) (nonempty : 0 < e.len) (above : ∀ f ∈ l, e.top ≤ f.base) :
    Separated (coalesce (e :: l)) := by
  cases l with
  | nil => exact separated_cons.mpr ⟨nonempty, by simp, separated_nil⟩
  | cons f rest =>
    exact separated_coalesce (ordered_cons.mpr ⟨nonempty, above, separated.ordered⟩) (separated_cons.mp separated).2.2

theorem ordered_between (separated : Separated (f :: m)) (nonempty : 0 < e.len) (below : f.top ≤ e.base)
    (above : ∀ g ∈ m, e.top ≤ g.base) : Ordered (f :: e :: m) := by
  obtain ⟨some_, apart, rest⟩ := separated_cons.mp separated
  refine ordered_cons.mpr ⟨some_, ?_, ordered_cons.mpr ⟨nonempty, above, rest.ordered⟩⟩
  rintro g (_ | ⟨_, member⟩)
  · exact below
  · exact (apart g member).le

theorem separated_between (separated : Separated (l ++ f :: m)) (nonempty : 0 < e.len) (below : f.top ≤ e.base)
    (above : ∀ g ∈ m, e.top ≤ g.base) : Separated (l ++ coalesce (f :: e :: m)) := by
  obtain ⟨first, second, across⟩ := separated_append.mp separated
  have ordered := ordered_between second nonempty below above
  refine separated_append.mpr ⟨first, separated_coalesce ordered (separated_cons.mp second).2.2, ?_⟩
  intro g member h listed
  have start := across g member f List.mem_cons_self
  have higher : f.base ≤ h.base := by
    refine base_le_of_mem_coalesce (fun i later => ?_) listed
    rcases List.mem_cons.mp later with rfl | later
    · exact Nat.le_refl _
    · have := (ordered_cons.mp ordered).2.1 i later
      simp only [Extent.top] at this
      omega
  omega

end

end SoiStud.Library
