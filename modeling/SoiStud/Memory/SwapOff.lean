import Mathlib.Data.List.TakeWhile
import SoiStud.Memory.Placement

/-! Turning swapping off, and what holds of memory and swap area in every state.

When every process is in memory the swap area is one hole, the last of the list, and
`swap_off` takes it out. Its loop goes on behind the first hole after that: if the
memory is used up completely there is none, and it follows `NIL_HOLE`.
-/

set_option autoImplicit false

namespace SoiStud.Memory
open Library

/-! ## The loop that removes the swap holes -/

section
variable {c : Constants} {s s' : State} {before suffix low high passed rest slots holes : List Nat} {hp fuel : Nat}

theorem stops_at_high {P : Nat → Prop} (same : passed ++ rest = low ++ high) (passing : ∀ i ∈ passed, P i)
    (stop : ∀ i ∈ rest.head?, ¬ P i) (below : ∀ i ∈ low, P i) (above : ∀ i ∈ high, ¬ P i) : passed = low ∧ rest = high := by
  induction passed generalizing low with
  | nil =>
    cases low with
    | nil => exact ⟨rfl, same⟩
    | cons i low =>
      rw [List.nil_append] at same
      subst same
      exact absurd (below i (by simp)) (stop i (by simp))
  | cons i passed ih =>
    cases low with
    | nil =>
      rw [List.nil_append] at same
      exact absurd (passing i (by simp)) (above i (by simp [← same]))
    | cons j low =>
      rw [List.cons_append, List.cons_append] at same
      obtain ⟨rfl, tails⟩ := List.cons.inj same
      obtain ⟨rfl, rfl⟩ := ih tails (fun j member => passing j (List.mem_cons_of_mem _ member))
        fun j member => below j (List.mem_cons_of_mem _ member)
      exact ⟨rfl, rfl⟩

theorem walk_low (table : Table c s (before ++ suffix ++ high) slots) (chain : Chain s.next c.nil hp (suffix ++ high))
    (below : ∀ i ∈ suffix, (s.hole i).base < s.swapBase) (above : ∀ i ∈ high, s.swapBase ≤ (s.hole i).base) :
    ∃ hp', walk c s (fun h => h.base < s.swapBase) (c.nrHoles + 1) hp before.getLast? =
      .ok (hp', (before ++ suffix).getLast?) ∧ Chain s.next c.nil hp' high := by
  have few : (suffix ++ high).length < c.nrHoles + 1 := by
    have count := table.length_le
    rw [List.append_assoc, List.length_append] at count
    omega
  obtain ⟨passed, rest, hp', walked, whole, chain', passing, stop⟩ :=
    walk_spec before.getLast? (fun h => decide (h.base < s.swapBase)) chain few
  obtain ⟨rfl, rfl⟩ := stops_at_high (P := fun i => (s.hole i).base < s.swapBase) whole.symm
    (fun i member => by simpa using passing i member) (fun i member => by simpa using stop i member) below
    fun i member => Nat.not_lt.mpr (above i member)
  refine ⟨hp', walked.trans ?_, chain'⟩
  rw [List.getLast?_append]

/-- With a hole in memory the loop takes out every hole of the swap area. -/
theorem removeSwapHoles_spec (table : Table c s (before ++ suffix ++ high) slots) (some_ : before ++ suffix ≠ [])
    (chain : Chain s.next c.nil hp (suffix ++ high)) (below : ∀ i ∈ before ++ suffix, (s.hole i).base < s.swapBase)
    (above : ∀ i ∈ high, s.swapBase ≤ (s.hole i).base) (enough : high.length < fuel) :
    ∃ s' slots', removeSwapHoles c fuel hp before.getLast? s = .ok s' ∧ Table c s' (before ++ suffix) slots' ∧
      (∀ i, (s'.hole i).extent = (s.hole i).extent) ∧ Kept s s' := by
  induction high generalizing s before suffix slots hp fuel with
  | nil =>
    obtain ⟨fuel, rfl⟩ := Nat.exists_eq_succ_of_ne_zero (Nat.ne_of_gt enough)
    obtain ⟨hp', walked, ended⟩ := walk_low table chain (fun i member => below i (by simp [member])) above
    rw [List.append_nil] at table
    refine ⟨s, slots, ?_, table, fun _ => rfl, .refl s⟩
    rw [removeSwapHoles, walked]
    exact if_pos ended.eq_nil
  | cons h high ih =>
    obtain ⟨fuel, rfl⟩ := Nat.exists_eq_succ_of_ne_zero (Nat.ne_of_gt (Nat.zero_lt_of_lt enough))
    obtain ⟨hp', walked, found⟩ := walk_low table chain (fun i member => below i (by simp [member])) above
    obtain rfl := found.head_eq
    have precedes : Precedes (before ++ suffix).getLast? (before ++ suffix) := fun p last => last
    obtain ⟨t, deleted, table', extent, kept⟩ := delSlot_spec table precedes
    -- the loop goes on behind the first hole
    obtain ⟨first, others, whole⟩ := List.exists_cons_of_ne_nil some_
    rw [whole] at table' below
    have table' : Table c t ([first] ++ others ++ high) (hp' :: slots) := table'
    have linked := table'.linked
    have head : t.holeHead = first := linked.head_eq
    have base (i : Nat) : (t.hole i).base = (s.hole i).base := congrArg Extent.base (extent i)
    obtain ⟨s', slots', ran, final, extent', kept'⟩ := ih table' (by simp)
      linked.tail (fun i member => by rw [base, kept]; exact below i (by simpa using member))
      (fun i member => by rw [base, kept]; exact above i (by simp [member])) (Nat.lt_of_succ_lt_succ enough)
    refine ⟨s', slots', ?_, whole ▸ final, fun i => (extent' i).trans (extent i), kept.trans kept'⟩
    rw [removeSwapHoles, walked]
    change (if hp' = c.nil then _ else _) = _
    rw [if_neg found.ne_nil, deleted]
    change (if t.holeHead = c.nil then _ else _) = _
    rw [if_neg linked.ne_nil, head]
    exact ran

/-- With no hole in memory and one hole in the swap area the loop ends at `NIL_HOLE`. -/
theorem removeSwapHoles_fails (table : Table c s [hp] slots) (above : s.swapBase ≤ (s.hole hp).base) :
    removeSwapHoles c (fuel + 1) s.holeHead none s = .error .nilHole := by
  have whole : Table c s ([] ++ [] ++ [hp]) slots := table
  obtain ⟨hp', walked, found⟩ := walk_low whole table.linked (by simp) (by simpa using above)
  obtain rfl := found.head_eq
  have precedes : Precedes none ([] : List Nat) := nofun
  obtain ⟨t, deleted, table', -, -⟩ := delSlot_spec whole precedes
  have empty : t.holeHead = c.nil := table'.linked.eq_nil
  have walked : walk c s (fun h => h.base < s.swapBase) (c.nrHoles + 1) s.holeHead none = .ok (hp', none) := walked
  rw [removeSwapHoles, walked]
  change (if hp' = c.nil then _ else _) = _
  rw [if_neg found.ne_nil, deleted]
  exact if_pos empty

end

/-! ## `swap_off` -/

structure Parted (c : Constants) (s : State) (low high slots : List Nat) : Prop where
  table : Table c s (low ++ high) slots
  separated : Separated (extents s (low ++ high))
  below : ∀ i ∈ low, (s.hole i).base < s.swapBase
  above : ∀ i ∈ high, s.swapBase ≤ (s.hole i).base

section
variable {c : Constants} {boot live given : List Extent} {m : Mm} {s s' : State} {queue low high slots : List Nat}

theorem Managed.parted (managed : Managed c given live s) : ∃ low high slots, Parted c s low high slots ∧
    ∀ x, tally x (extents s (low ++ high)) + tally x live = tally x given := by
  obtain ⟨-, holes, slots, table, separated, balance⟩ := managed
  let inMemory (i : Nat) : Bool := (s.hole i).base < s.swapBase
  have whole : holes.takeWhile inMemory ++ holes.dropWhile inMemory = holes := List.takeWhile_append_dropWhile
  have separated' : Separated (extents s (holes.dropWhile inMemory)) := by
    rw [← whole, extents_append, separated_append] at separated
    exact separated.2.1
  refine ⟨holes.takeWhile inMemory, holes.dropWhile inMemory, slots, ⟨?_, ?_, fun i member => ?_, ?_⟩, ?_⟩
  · rw [whole]
    exact table
  · rw [whole]
    exact separated
  · simpa [inMemory] using List.mem_takeWhile_imp member
  · apply above_of_head_above separated'
    intro i first
    have stopped := List.head?_dropWhile_not inMemory holes
    rw [Option.mem_def.mp first] at stopped
    simpa [inMemory] using stopped
  · rw [whole]
    exact balance

theorem Placed.high_free (placed : Placed c boot m) (inMemory : ∀ i ∈ m.owners, (m.manager.mproc i).onswap = false) {x : Nat}
    (high : m.manager.state.swapBase ≤ x) : tally x m.world.live = 0 := by
  have nobody : m.owners.filter (fun i => (m.manager.state.mproc i).onswap) = [] := by
    rw [List.filter_eq_nil_iff]
    intro i member
    rw [Bool.not_eq_true]
    exact inMemory i member
  have only := placed.sides.live_high high
  rw [nobody] at only
  exact only

/-- The swap area is one extent, so when it is free it is one hole. -/
theorem Placed.single_high (placed : Placed c boot m) (parted : Parted c m.manager.state low high slots)
    (balance : ∀ x, tally x (extents m.manager.state (low ++ high)) + tally x m.world.live = tally x m.given)
    (inMemory : ∀ i ∈ m.owners, (m.manager.mproc i).onswap = false) : high = [] ∨ ∃ hp, high = [hp] := by
  rcases high with _ | ⟨hp, _ | ⟨hp', rest⟩⟩
  · exact .inl rfl
  · exact .inr ⟨hp, rfl⟩
  · -- the click behind the first of two holes would be in the area and in nobody's hands
    exfalso
    have separated := parted.separated
    rw [extents_append, separated_append, extents_cons, extents_cons, separated_cons, separated_cons] at separated
    obtain ⟨-, ⟨positive, behind, positive', later, -⟩, front⟩ := separated
    have start := parted.above hp (by simp)
    have apart : (m.manager.state.hole hp).extent.top < (m.manager.state.hole hp').extent.base := behind _ (by simp)
    -- what is free above `swap_base` is of the swap area, since the boot memory lies below
    have inArea (x : Nat) (above : m.manager.state.swapBase ≤ x)
        (held : 0 < tally x (extents m.manager.state (low ++ hp :: hp' :: rest))) :
        ∃ len, m.given = ⟨m.manager.state.swapBase, len⟩ :: boot ∧ x < m.manager.state.swapBase + len := by
      have some_ : 0 < tally x m.given := by
        have sum := balance x
        omega
      rcases placed.given with same | ⟨-, len, same⟩
      · have below := placed.boot_below (same ▸ some_)
        omega
      · refine ⟨len, same, ?_⟩
        rw [same, tally_cons] at some_
        by_contra outside
        have area : ¬ 0 < (⟨m.manager.state.swapBase, len⟩ : Extent).tally x := by
          rw [Extent.tally_pos_iff]
          exact fun inside => outside inside.2
        have below := placed.boot_below (x := x) (by omega)
        omega
    have listed (i : Nat) (member : i ∈ low ++ hp :: hp' :: rest) (x : Nat)
        (within : (m.manager.state.hole i).extent.base ≤ x ∧ x < (m.manager.state.hole i).extent.top) :
        0 < tally x (extents m.manager.state (low ++ hp :: hp' :: rest)) :=
      mem_units_iff.mp ⟨_, List.mem_map_of_mem member, within⟩
    have second := listed hp' (by simp) (m.manager.state.hole hp').extent.base
      ⟨Nat.le_refl _, Nat.lt_add_of_pos_right positive'⟩
    have reach : m.manager.state.swapBase ≤ (m.manager.state.hole hp').extent.base := parted.above hp' (by simp)
    obtain ⟨len, given, bound⟩ := inArea _ reach second
    let x := (m.manager.state.hole hp).extent.top
    have above : m.manager.state.swapBase ≤ x := Nat.le_trans start (Nat.le_add_right _ _)
    have held : 0 < tally x (extents m.manager.state (low ++ hp :: hp' :: rest)) := by
      have sum := balance x
      rw [placed.high_free inMemory above, given, tally_cons] at sum
      have area : 0 < (⟨m.manager.state.swapBase, len⟩ : Extent).tally x :=
        Extent.tally_pos_iff.mpr ⟨above, Nat.lt_trans apart bound⟩
      omega
    obtain ⟨e, member, starts, ends⟩ := mem_units_iff.mpr held
    rw [extents_append, extents_cons, extents_cons, List.mem_append, List.mem_cons, List.mem_cons] at member
    rcases member with member | rfl | rfl | member
    · have before : e.top < (m.manager.state.hole hp).extent.base := front e member _ (by simp)
      have reaches : (m.manager.state.hole hp).extent.base ≤ x := Nat.le_add_right _ _
      omega
    · exact absurd ends (Nat.lt_irrefl _)
    · omega
    · have after := later e member
      have reaches : (m.manager.state.hole hp').extent.base ≤ (m.manager.state.hole hp').extent.top := Nat.le_add_right _ _
      omega

/-- How `swap_off` ends with everybody in memory: the holes in memory are left and swapping is off, or
there is no hole in memory and one of the swap area, and the loop ends at `NIL_HOLE`. -/
structure TurnsOff (c : Constants) (s : State) (low high : List Nat) : Prop where
  works : high = [] ∨ low ≠ [] → ∃ s' slots', swapOffEnd c s = .ok (.OK, s') ∧ Table c s' low slots' ∧
    (∀ i, (s'.hole i).extent = (s.hole i).extent) ∧ s' = { s with
      hole := s'.hole, holeHead := s'.holeHead, freeSlots := s'.freeSlots, swapFd := -1 }
  fails : high ≠ [] ∧ low = [] → swapOffEnd c s = .error .nilHole

theorem Parted.turnsOff (parted : Parted c s low high slots) (single : high = [] ∨ ∃ hp, high = [hp])
    (inMemory : (c.users.any fun rmp => (s.mproc rmp).onswap) = false) : TurnsOff c s low high := by
  -- the loop walks past the holes in memory and deletes those behind them
  have whole (fuel : Nat) (some_ : low ≠ []) (enough : high.length < fuel) : ∃ s' slots',
      removeSwapHoles c fuel s.holeHead none s = .ok s' ∧ Table c s' low slots' ∧
      (∀ i, (s'.hole i).extent = (s.hole i).extent) ∧ Kept s s' := by
    have table : Table c s ([] ++ low ++ high) slots := parted.table
    exact removeSwapHoles_spec table some_ table.linked parted.below parted.above enough
  have few : high.length < c.nrHoles + 1 := by
    have count := parted.table.length_le
    rw [List.length_append] at count
    omega
  constructor
  · intro goes
    have removed : ∃ s' slots', removeSwapHoles c (c.nrHoles + 1) s.holeHead none s = .ok s' ∧ Table c s' low slots' ∧
        (∀ i, (s'.hole i).extent = (s.hole i).extent) ∧ Kept s s' := by
      rcases eq_or_ne low [] with rfl | some_
      · -- there is no hole at all
        obtain rfl : high = [] := goes.resolve_right (absurd rfl)
        have empty : s.holeHead = c.nil := parted.table.linked.eq_nil
        refine ⟨s, slots, ?_, parted.table, fun _ => rfl, .refl s⟩
        rw [removeSwapHoles, walk, if_neg (by simp [empty])]
        exact if_pos empty
      · exact whole _ some_ few
    obtain ⟨s', slots', ran, table, extent, kept⟩ := removed
    refine ⟨{ s' with swapFd := -1 }, slots', ?_, table.relink (fun _ => rfl) rfl rfl, extent, ?_⟩
    · rw [swapOffEnd, if_neg (by simp [inMemory]), ran]
      rfl
    · rw [kept]
  · -- when the only hole has been deleted, the loop steps on from a head that is `NIL_HOLE`
    rintro ⟨some_, rfl⟩
    obtain ⟨hp, rfl⟩ := single.resolve_left some_
    rw [swapOffEnd, if_neg (by simp [inMemory])]
    have failed : removeSwapHoles c (c.nrHoles + 1) s.holeHead none s = .error .nilHole :=
      removeSwapHoles_fails parted.table (parted.above hp (by simp))
    rw [failed]
    rfl

/-- Who is on swap has an image, so `swap_off` asks everyone that there is. -/
theorem Waiting.asked (waiting : Waiting c m queue) : (c.users.any fun rmp => (m.manager.mproc rmp).onswap) = true ↔
    ∃ i ∈ m.owners, (m.manager.mproc i).onswap = true := by
  rw [List.any_eq_true]
  constructor
  · rintro ⟨i, -, out⟩
    exact ⟨i, waiting.owned i out, out⟩
  · rintro ⟨i, member, out⟩
    obtain ⟨low, high⟩ := waiting.turn i member
    refine ⟨i, ?_, out⟩
    rw [Constants.users, List.mem_range'_1]
    omega

structure SwapOffEnds (c : Constants) (m : Mm) : Prop where
  stays : (∃ i ∈ m.owners, (m.manager.mproc i).onswap = true) →
    swapOffEnd c m.manager.state = .ok (.ENOMEM, m.manager.state)
  ends : (∀ i ∈ m.owners, (m.manager.mproc i).onswap = false) → ∃ low high slots,
    Parted c m.manager.state low high slots ∧ (∀ x, tally x (extents m.manager.state (low ++ high)) +
      tally x m.world.live = tally x m.given) ∧ TurnsOff c m.manager.state low high

theorem Placed.swapOffEnds (placed : Placed c boot m) (waiting : Waiting c m queue) : SwapOffEnds c m := by
  constructor
  · intro someone
    exact if_pos (waiting.asked.mpr someone)
  · intro inMemory
    have nobody : (c.users.any fun rmp => (m.manager.state.mproc rmp).onswap) = false := by
      rw [← Bool.not_eq_true]
      intro asked
      obtain ⟨i, member, out⟩ := waiting.asked.mp asked
      rw [inMemory i member] at out
      cases out
    obtain ⟨low, high, slots, parted, balance⟩ := placed.managed.parted
    exact ⟨low, high, slots, parted, balance, parted.turnsOff (placed.single_high parted balance inMemory) nobody⟩

theorem Placed.low_balance (placed : Placed c boot m) (parted : Parted c m.manager.state low high slots)
    (balance : ∀ x, tally x (extents m.manager.state (low ++ high)) + tally x m.world.live = tally x m.given)
    (inMemory : ∀ i ∈ m.owners, (m.manager.mproc i).onswap = false) (x : Nat) :
    tally x (extents m.manager.state low) + tally x m.world.live = tally x boot := by
  have sum := balance x
  rw [extents_append, tally_append] at sum
  -- a click of memory is in no hole of the swap area; one of the area is in no block and no hole of memory
  by_cases memory : x < m.manager.state.swapBase
  · have none_ : tally x (extents m.manager.state high) = 0 := by
      by_contra inside
      obtain ⟨e, held, starts, -⟩ := mem_units_iff.mpr (Nat.pos_of_ne_zero inside)
      obtain ⟨i, member, rfl⟩ := List.mem_map.mp held
      have above : m.manager.state.swapBase ≤ (m.manager.state.hole i).extent.base := parted.above i member
      omega
    rcases placed.given with same | ⟨-, len, same⟩
    · rw [same] at sum
      omega
    · have area : ¬ 0 < (⟨m.manager.state.swapBase, len⟩ : Extent).tally x := by
        rw [Extent.tally_pos_iff]
        exact fun inside => absurd memory (Nat.not_lt.mpr inside.1)
      rw [same, tally_cons] at sum
      omega
  · have free := placed.high_free inMemory (Nat.not_lt.mp memory)
    have none_ : tally x (extents m.manager.state low) = 0 := by
      by_contra inside
      obtain ⟨e, held, -, ends⟩ := mem_units_iff.mpr (Nat.pos_of_ne_zero inside)
      obtain ⟨i, member, rfl⟩ := List.mem_map.mp held
      have top := top_lt_of_low placed.managed parted.table (List.mem_append_left _ member) placed.separate
        (parted.below i member)
      exact memory (Nat.lt_trans ends top)
    have outside : tally x boot = 0 := by
      by_contra inside
      have below := placed.boot_below (Nat.pos_of_ne_zero inside)
      omega
    omega

theorem Placed.swapOffEnd {r : SwapOff} (placed : Placed c boot m) (waiting : Waiting c m queue)
    (ran : swapOffEnd c m.manager.state = .ok (r, s')) : Placed c boot { m with
      manager := { m.manager with state := s' }
      given := if r = .OK then m.given.filter fun e => e.base < s'.swapBase else m.given } := by
  have ends := placed.swapOffEnds waiting
  -- with somebody on swap nothing happens
  by_cases someone : ∃ i ∈ m.owners, (m.manager.mproc i).onswap = true
  · obtain ⟨rfl, rfl⟩ : SwapOff.ENOMEM = r ∧ m.manager.state = s' := by simpa using (ends.stays someone).symm.trans ran
    exact placed
  · have inMemory (i : Nat) (member : i ∈ m.owners) : (m.manager.mproc i).onswap = false := by
      rw [← Bool.not_eq_true]
      exact fun out => someone ⟨i, member, out⟩
    obtain ⟨low, high, slots, parted, balance, turnsOff⟩ := ends.ends inMemory
    have works : high = [] ∨ low ≠ [] := by
      by_contra stuck
      rw [not_or, not_not] at stuck
      cases (turnsOff.fails stuck).symm.trans ran
    obtain ⟨t, slots', done, table, extent, kept⟩ := turnsOff.works works
    obtain ⟨rfl, rfl⟩ : SwapOff.OK = r ∧ t = s' := by simpa using done.symm.trans ran
    have swapBase : t.swapBase = m.manager.state.swapBase := by rw [kept]
    have mproc : t.mproc = m.manager.state.mproc := by rw [kept]
    -- of what was given only the boot memory is left
    have given : m.given.filter (fun e => e.base < t.swapBase) = boot := by
      have inBoot : boot.filter (fun e => e.base < t.swapBase) = boot := by
        rw [List.filter_eq_self]
        intro e member
        have below := placed.below e member
        rw [swapBase, decide_eq_true_eq]
        exact Nat.lt_of_le_of_lt (Nat.le_add_right _ _) below
      rcases placed.given with same | ⟨-, len, same⟩
      · rw [same, inBoot]
      · rw [same, List.filter_cons_of_neg (by simp [swapBase]), inBoot]
    have same : extents t low = extents m.manager.state low := extents_congr fun i _ => extent i
    have separated : Separated (extents t low) := by
      have both := parted.separated
      rw [extents_append, separated_append] at both
      exact same ▸ both.1
    have fewer (x : Nat) : tally x boot ≤ tally x m.given := by
      rcases placed.given with same | ⟨-, len, same⟩
      · rw [same]
      · rw [same, tally_cons]
        exact Nat.le_add_left _ _
    have managed : Managed c boot (m.others ++ images m.owners t.mproc) t := by
      refine ⟨placed.managed.fits.mono fewer, low, slots', table, separated, fun x => ?_⟩
      rw [same, mproc]
      exact placed.low_balance parted balance inMemory x
    rw [if_pos rfl, given]
    refine ⟨managed, ?_, ?_, ?_, .inl rfl, ?_, ?_⟩
    · exact placed.sides.congr swapBase fun i _ => by simp [mproc]
    · change 0 < t.swapBase
      rw [swapBase]
      exact placed.positive
    · change ∀ e ∈ boot, e.top < t.swapBase
      rw [swapBase]
      exact placed.below
    · rw [kept]
      exact placed.limit
    · rw [kept]
      exact placed.turn

end

/-! ## Every state -/

/-- Every search for memory starts in memory, or worst fit is off. -/
def Searches (c : Constants) (m : Mm) (label : Label) : Prop :=
  (∀ clicks found, label = .act (.memory (.allocMem clicks found)) → SearchesMemory c clicks m.manager.state) ∧
  ∀ caller pmp, m.control = .swapIn caller pmp → m.manager.deref pmp ≠ c.null →
    SearchesMemory c (m.manager.mproc (m.manager.deref pmp)).size m.manager.state

/-- The memory manager with such searches, after a start with these clicks. -/
def searching (c : Constants) (boot : List Extent) : System Mm Label where
  init m := (mm c).init m ∧ m.given = boot
  step m label m' := Steps c m label m' ∧ Searches c m label

section
variable {c : Constants} {boot : List Extent} {m m' : Mm} {label : Label} {queue : List Nat} {history : List Label}

theorem memInit_swapBase {replies : List SysMem} {total : Nat} {mproc : Nat → Mproc} {s : State} {out : Nat × Nat}
    (ran : memInit c replies total (static c mproc) = .ok (s, out)) :
    s.swapBase < clickRange ∧ (s.swapMaxsize = 0 ∨ s.swapBase + s.swapMaxsize = clickRange) := by
  rw [memInit, bind_eq_ok] at ran
  obtain ⟨⟨t, later⟩, -, returned⟩ := ran
  cases returned
  have base : plus t.swapBase 1 < clickRange := Nat.mod_lt _ (by decide)
  refine ⟨base, ?_⟩
  change minus 0 (plus t.swapBase 1) = 0 ∨ plus t.swapBase 1 + minus 0 (plus t.swapBase 1) = clickRange
  generalize plus t.swapBase 1 = b at base
  unfold minus clickRange at *
  omega

theorem memInit_nothing {last : SysMem} {total : Nat} {mproc : Nat → Mproc} {s : State} {out : Nat × Nat}
    (ended : toClicks last.m1_i2 = 0) (ran : memInit c [last] total (static c mproc) = .ok (s, out)) : s.swapBase = 1 := by
  simp only [memInit, addChunks, ended, if_pos] at ran
  cases ran
  rfl

theorem Managed.giveAll {given live l : List Extent} {s : State} (managed : Managed c given live s)
    (fits : Fits clickRange (l ++ given)) : Managed c (l ++ given) (l ++ live) s := by
  obtain ⟨-, holes, slots, table, separated, balance⟩ := managed
  refine ⟨fits, holes, slots, table, separated, fun x => ?_⟩
  have sum := balance x
  rw [tally_append, tally_append]
  omega

theorem placed_init (initial : (mm c).init m) : Placed c m.given m := by
  obtain ⟨mproc, replies, last, total, out, described, ended, ran, idle, nodup, turn, apart, below, others, given, -⟩ := initial
  have same : m.manager.state.mproc = mproc := memInit_mproc ran
  have once (x : Nat) : tally x (chunks replies) ≤ 1 :=
    tally_le_one_of_pairwise (List.pairwise_append.mp apart).2.1
  obtain ⟨managed, -, outswap⟩ := memInit_spec described once ended ran
  obtain ⟨range, limit⟩ := memInit_swapBase ran
  have positive : 0 < m.manager.state.swapBase := by
    cases replies with
    | nil => exact (memInit_nothing ended ran) ▸ Nat.one_pos
    | cons mess rest => exact Nat.zero_lt_of_lt (below mess.chunk (by simp [chunks]))
  -- no image and no chunk reaches as far as `swap_base`, so the click below it is in none
  have spare : m.manager.state.swapBase - 1 ∉ units (images m.owners mproc ++ chunks replies) := by
    rintro ⟨e, member, -, inside⟩
    have top := below e member
    omega
  have fits : Fits clickRange (images m.owners mproc ++ chunks replies) :=
    fits_of_pairwise apart (fun e member => Nat.le_of_lt (Nat.lt_trans (below e member) range)) ⟨_, by omega, spare⟩
  refine ⟨?_, ⟨fun i member x held => ?_, by simp [others]⟩, positive, ?_, .inl rfl, ?_, ?_⟩
  · have live : m.world.live = images m.owners mproc ++ [] := by
      change m.others ++ images m.owners m.manager.state.mproc = _
      rw [others, same, List.nil_append, List.append_nil]
    rw [given, live]
    exact managed.giveAll fits
  · rw [same] at held ⊢
    have inMemory : (mproc i).onswap = false := by
      rw [idle i]
      rfl
    rw [inMemory]
    refine iff_of_false (Nat.not_le.mpr ?_) (by simp)
    have top := below (mproc i).image (List.mem_append_left _ (List.mem_map_of_mem member))
    exact Nat.lt_trans (Extent.tally_pos_iff.mp held).2 top
  · rw [given]
    exact below
  · exact limit.imp_right fun total => ⟨positive, total⟩
  · rw [outswap]
    exact ⟨Nat.le_refl _, c.lowUser_lt⟩

theorem Placed.anywhere (placed : Placed c boot m) (control : Control) : Placed c boot { m with control := control } := by
  have same : SameClicks m.manager.state ({ m with control := control } : Mm).manager.state := .refl _
  exact same.placed placed ⟨rfl, rfl, rfl⟩

theorem Placed.step (placed : Placed c boot m) (waiting : Waiting c m queue) (steps : Steps c m label m')
    (searches : Searches c m label) : Placed c boot m' := by
  cases steps with
  | getWork who _ => exact placed.anywhere _
  | act _ acts _ =>
    refine (acts.placed placed waiting fun clicks found same => ?_).anywhere _
    exact searches.1 clicks found (congrArg Label.act same)
  | @swapOff who freed manager _ _ ran =>
    have same : SameClicks m.manager.state manager.state := by
      rw [queueAll_state ran]
      exact .refl _
    exact same.placed placed ⟨rfl, rfl, rfl⟩
  | swapOffEnd _ ran => exact (placed.swapOffEnd waiting ran).anywhere _
  | result _ _ ran => exact (setreply_clicks ran).placed placed ⟨rfl, rfl, rfl⟩
  | noMessage _ => exact placed.anywhere _
  | round place ran => exact (placed.round waiting (searches.2 _ _ place) ran).anywhere _
  | pending _ acts _ _ =>
    exact acts.placed placed waiting fun clicks found same => searches.1 clicks found (congrArg Label.act same)
  | checked _ => exact placed.anywhere _
  | sends _ _ ran => exact (sendReply_clicks ran).placed placed ⟨rfl, rfl, rfl⟩
  | passes _ _ ran => exact (sendReply_clicks ran).placed placed ⟨rfl, rfl, rfl⟩
  | allSent _ => exact placed.anywhere _

theorem run_of_searching (run : (searching c boot).Run history m) : (mm c).Run history m := by
  induction run with
  | start initial => exact .start initial.1
  | next _ steps ih => exact ih.next steps.1

theorem waiting_of_run (run : (searching c boot).Run history m) : ∃ queue, Waiting c m queue := by
  obtain ⟨⟨queue, waiting, -⟩, -⟩ := running_of_run (run_of_searching run)
  exact ⟨queue, waiting⟩

theorem placed_of_run (run : (searching c boot).Run history m) : Placed c boot m := by
  induction run with
  | start initial => exact initial.2 ▸ placed_init initial.1
  | next before steps ih =>
    obtain ⟨queue, waiting⟩ := waiting_of_run before
    exact ih.step waiting steps.1 steps.2

/-- In every state the holes and the live blocks share out the clicks of the start and of the swap area, and
a process is flagged `ONSWAP` exactly when its image lies in the swap area. -/
theorem clicks_placed (reached : (searching c boot).Reachable m) : Placed c boot m := by
  obtain ⟨history, run⟩ := reached
  exact placed_of_run run

theorem searching_of_firstFits (run : (firstFits c boot).Run history m) : (searching c boot).Run history m := by
  induction run with
  | start initial => exact .start initial
  | next _ steps ih => exact ih.next ⟨steps.1, fun _ _ _ => .inl steps.2, fun _ _ _ _ => .inl steps.2⟩

end

theorem clicks_placed_smallNight : ∃ m, (m.manager.mproc 0).onswap = true ∧ m.owners = [0] ∧
    Placed small [⟨0, 4⟩, ⟨10, 5⟩] m := by
  obtain ⟨history, m, run, -, -, asleep, owners⟩ := smallNight_run
  exact ⟨m, asleep, owners, clicks_placed ⟨history, searching_of_firstFits run⟩⟩

/-- In every state `swap_off` gives up because of a process on swap, or it takes out just the swap area, or it
ends at `NIL_HOLE` because no hole is left in memory. -/
theorem swapOff_ends {c : Constants} {boot : List Extent} {m : Mm} (reached : (searching c boot).Reachable m) :
    SwapOffEnds c m := by
  obtain ⟨history, run⟩ := reached
  obtain ⟨queue, waiting⟩ := waiting_of_run run
  exact (placed_of_run run).swapOffEnds waiting

def smallEvening : Except Fault ((State × Nat × Nat) × (SwapOn × State) × (Option Nat × State) × Manager × SwapIn × Manager) := do
  let booted ← memInit small ([⟨10, 5, 15⟩] ++ [⟨0, 0, 15⟩]) 0 (static small sleeper)
  let on ← swapOn small (.ok 3) 0 8 booted.1
  let first ← allocMem small 5 on.2
  let queued ← queueAll small small.users ⟨first.2, fun _ => false, fun _ => 2, fun _ => 0, 2⟩
  let round ← swapInRound small none queued
  .ok (booted, on, first, queued, round)

theorem swapOff_ends_smallEvening : ∃ m, m.control = .swapOff 1 [] ∧ SwapOffEnds small m ∧
    swapOffEnd small m.manager.state = .error .nilHole := by
  have played : smallEvening.toOption.any (fun evening => evening.1.1.swapBase = 16 ∧ evening.2.2.1.1 = some 10 ∧
      (evening.2.1.2.mproc 1).candidate = false ∧ evening.2.2.1.2.swapFd ≠ -1 ∧ evening.2.2.2.2.1 = .ended ∧
      (match swapOffEnd small evening.2.2.2.2.2.state with | .error e => decide (e = .nilHole) | .ok _ => false) = true ∧
      evening.1.1.worstFitFlag = 0 ∧ evening.2.1.2.worstFitFlag = 0 ∧ evening.2.2.1.2.worstFitFlag = 0 ∧
      evening.2.2.2.1.state.worstFitFlag = 0) = true := by
    decide +kernel
  cases run : smallEvening with
  | error e =>
    rw [run] at played
    cases played
  | ok evening =>
    obtain ⟨⟨s₁, out⟩, ⟨r, s₂⟩, ⟨found, s₃⟩, m₁, ends, m₂⟩ := evening
    rw [run] at played
    simp only [Except.toOption, Option.any_some, decide_eq_true_eq] at played
    obtain ⟨base, rfl, idle₂, opened, rfl, ending, f₁, f₂, f₃, f₄⟩ := played
    simp only [smallEvening, bind_eq_ok] at run
    obtain ⟨booted, boot, on, turnedOn, first, took, queued, queueing, round, looked, same⟩ := run
    cases same
    have start := smallStart base boot
    have owned : Owned small [0] s₂ := small_owned idle₂
    have on := (start.next ⟨Steps.getWork 1 rfl, f₁⟩).next ⟨Steps.act (a := .memory (.swapOn (.ok 3) 0 8)) rfl
      (.memory (by simp) (.swapOn turnedOn)) (by exact fun i new old => absurd new old), f₁⟩
    have first := on.next ⟨Steps.act (a := .memory (.allocMem 5 (some 10))) rfl
      (.memory (by simp) (.allocMem owned took)) (by exact fun i new old => absurd new old), f₂⟩
    have final := (first.next ⟨Steps.swapOff rfl opened queueing, f₃⟩).next ⟨Steps.round rfl looked, f₄⟩
    refine ⟨_, rfl, swapOff_ends ⟨_, searching_of_firstFits final⟩, ?_⟩
    change swapOffEnd small m₂.state = _
    cases result : swapOffEnd small m₂.state with
    | error e =>
      rw [result] at ending
      exact congrArg _ (of_decide_eq_true ending)
    | ok ended =>
      rw [result] at ending
      cases ending

end SoiStud.Memory
