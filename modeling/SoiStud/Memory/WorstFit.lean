import SoiStud.Memory.Exhaustion

/-! Worst fit, and where its search begins.

The head of the hole list is the candidate before anything is known about it. So
the search is right exactly if there is a head, and if it lies in memory or could
not serve the request anyway.
-/

set_option autoImplicit false

namespace SoiStud.Memory

open Library

variable {c : Constants} {given others : List Extent} {owners holes slots : List Nat} {s s' t : State} {clicks n : Nat}

structure Widest (s : State) (before : List Nat) (hp : Nat) (after : List Nat) : Prop where
  low : (s.hole hp).base < s.swapBase
  longer : ∀ i ∈ before, (s.hole i).len < (s.hole hp).len
  notShorter : ∀ i ∈ after, (s.hole i).base < s.swapBase → (s.hole i).len ≤ (s.hole hp).len

/-- What `alloc_mem` is to do with worst fit: read no hole that is not there, hand out memory
and no clicks of the swap area, take the low end of the widest hole, and leave everything as
it was if none is long enough and no process can be swapped out. -/
structure ServesWidest (c : Constants) (clicks : Nat) (s : State) (holes : List Nat) : Prop where
  sound : allocMem c clicks s ≠ .error .nilHole
  memory : ∀ base s', allocMem c clicks s = .ok (some base, s') → base < s.swapBase ∧ base + clicks ≤ s.swapBase
  serves : (∃ i ∈ holes, (s.hole i).base < s.swapBase ∧ clicks ≤ (s.hole i).len) →
    ∃ before hp after s' holes' slots', holes = before ++ hp :: after ∧ Widest s before hp after ∧
      allocMem c clicks s = .ok (some (s.hole hp).base, s') ∧ Table c s' holes' slots' ∧ Kept s s' ∧
      extents s' holes' = extents s before ++ ((s.hole hp).extent.cut clicks ++ extents s after)
  refuses : (∀ i ∈ holes, (s.hole i).base < s.swapBase → (s.hole i).len < clicks) → swapOut c s = .ok (false, s) →
    allocMem c clicks s = .ok (none, s)

/-- There is a first hole, and it lies in memory or is shorter than the request. -/
def HeadServes (c : Constants) (clicks : Nat) (s : State) : Prop :=
  s.holeHead ≠ c.nil ∧ ((s.hole s.holeHead).base < s.swapBase ∨ (s.hole s.holeHead).len < clicks)

/-- With such a head the candidate of the search lies in memory or is too short. -/
theorem Longest.low_or_short {hp : Nat} {prev : Option Nat} (longest : Longest s holes hp prev) (table : Table c s holes slots)
    (head : HeadServes c clicks s) : (s.hole hp).base < s.swapBase ∨ (s.hole hp).len < clicks := by
  obtain ⟨before, after, rfl, -, -, -, low | ⟨rfl, high⟩⟩ := longest.split
  · exact .inl low
  · obtain rfl := table.linked.head_eq
    exact head.2

theorem policy_worst (flag : s.worstFitFlag ≠ 0) : policy c clicks s = worstRound c clicks := if_neg flag

theorem allocMem_bites {hp base : Nat} {before rest : Option Nat}
    (searched : policy c clicks s none s = .ok (some (hp, before), rest))
    (bitten : bite clicks hp before s = .ok (base, s')) : allocMem c clicks s = .ok (some base, s') := by
  rw [allocMem_eq, rounds, searched, ok_bind]
  simp only [bitten, ok_bind]

theorem headServes_of_sound (table : Table c s holes slots) (separated : Separated (extents s holes))
    (range : ∀ e ∈ extents s holes, e.top ≤ clickRange) (flag : s.worstFitFlag ≠ 0)
    (sound : allocMem c clicks s ≠ .error .nilHole)
    (memory : ∀ base s', allocMem c clicks s = .ok (some base, s') → base < s.swapBase ∧ base + clicks ≤ s.swapBase) :
    HeadServes c clicks s := by
  have present : s.holeHead ≠ c.nil := fun empty => by
    refine sound ?_
    rw [allocMem_eq, policy_worst flag, rounds, worstRound_empty none empty]
    rfl
  refine ⟨present, ?_⟩
  by_contra outside
  rw [not_or, Nat.not_lt, Nat.not_lt] at outside
  have some_ : holes ≠ [] := fun none_ => present (table.linked.list_eq_nil_iff.mp none_)
  obtain ⟨hp, before, rest, longest, ran⟩ := worstRound_spec clicks none table separated some_
  obtain ⟨front, after, rfl, pred, -, -, place⟩ := longest.split
  -- every hole lies in the swap area, and the candidate is the first one
  have high : ∀ i ∈ front ++ hp :: after, s.swapBase ≤ (s.hole i).base := by
    refine above_of_head_above separated fun i first => ?_
    have same : s.holeHead = i := by
      cases front with
      | nil =>
        cases first
        exact table.linked.head_eq
      | cons j rest =>
        cases first
        exact table.linked.head_eq
    exact same ▸ outside.1
  have above := high hp (by simp)
  rcases place with low | ⟨rfl, -⟩
  · omega
  · obtain rfl := table.linked.head_eq
    rw [if_pos outside.2] at ran
    obtain ⟨s', holes', slots', bitten, -⟩ := bite_spec table pred outside.2 (range _ (by simp))
    rw [← policy_worst flag] at ran
    have taken := (memory _ _ (allocMem_bites ran bitten)).1
    omega

structure Serving (c : Constants) (clicks : Nat) (given others : List Extent) (owners : List Nat) (s : State) : Prop where
  standing : Standing c given others owners s
  head : HeadServes c clicks s
  resident : ∀ i, InTurn c i → (s.mproc i).candidate = true → (s.mproc i).d.memPhys < s.swapBase

theorem Serving.swapOut (serving : Serving c clicks given others owners s) (ran : swapOut c s = .ok (true, s')) :
    Serving c clicks given others owners s' ∧ s'.settings = s.settings := by
  obtain ⟨standing, -, resident⟩ := serving
  obtain ⟨standing', same, -⟩ := standing.swapOut ran
  obtain ⟨rmp, turned, steps⟩ := swapOut_steps ran
  have swapped := steps.swappedOut
  have turn := inTurn_of_mem_roundFrom standing.ready.turn turned
  have base : s'.swapBase = s.swapBase := by
    simp only [State.settings, Prod.mk.injEq] at same
    exact same.2.2.1
  have head := steps.head standing.ready.managed standing.nodup (standing.ready.owned rmp turn swapped.candidate)
    (standing.sizes rmp turn swapped.candidate)
  refine ⟨⟨standing', ⟨head.1, .inl ?_⟩, fun i inside candidate => ?_⟩, same⟩
  · rw [base]
    exact head.2.trans_lt (resident rmp turn swapped.candidate)
  · have unmoved := swapped.mproc_of_candidate candidate
    rw [unmoved] at candidate ⊢
    exact base ▸ resident i inside candidate

theorem Serving.swappedOuts (serving : Serving c clicks given others owners s) (outs : SwappedOuts c n s t) :
    Serving c clicks given others owners t ∧ t.settings = s.settings := by
  induction outs with
  | none => exact ⟨serving, rfl⟩
  | more ran _ ih =>
    obtain ⟨serving', same⟩ := serving.swapOut ran
    obtain ⟨final, same'⟩ := ih serving'
    exact ⟨final, same'.trans same⟩

theorem top_lt_of_low {hp : Nat} (managed : Managed c given others s) (table : Table c s holes slots) (member : hp ∈ holes)
    (separate : tally (s.swapBase - 1) given = 0) (low : (s.hole hp).base < s.swapBase) :
    (s.hole hp).base + (s.hole hp).len < s.swapBase := by
  obtain ⟨-, holes', slots', table', -, balance⟩ := managed
  obtain rfl := table.linked.unique table'.linked
  have held := balance (s.swapBase - 1)
  have inside := tally_le_of_mem (x := s.swapBase - 1) (List.mem_map_of_mem (f := fun i => (s.hole i).extent) member)
  have outside : ((s.hole hp).extent).tally (s.swapBase - 1) = 0 := by
    unfold extents at held
    omega
  simp only [Extent.tally, Extent.top, Hole.extent] at outside
  grind

/-- The call takes the widest hole if it is long enough. -/
theorem serves_of_head (layout : Layout c owners s holes slots) (flag : s.worstFitFlag ≠ 0) (head : HeadServes c clicks s)
    (enough : ∃ i ∈ holes, (s.hole i).base < s.swapBase ∧ clicks ≤ (s.hole i).len) :
    ∃ before hp after s' holes' slots', holes = before ++ hp :: after ∧ Widest s before hp after ∧
      allocMem c clicks s = .ok (some (s.hole hp).base, s') ∧ Table c s' holes' slots' ∧ Kept s s' ∧
      extents s' holes' = extents s before ++ ((s.hole hp).extent.cut clicks ++ extents s after) := by
  obtain ⟨i, member, lower, long⟩ := enough
  have table := layout.table
  obtain ⟨hp, before, rest, longest, ran⟩ :=
    worstRound_spec clicks none table layout.separated (List.ne_nil_of_mem member)
  have fit : clicks ≤ (s.hole hp).len := long.trans (longest.len_le member lower)
  have low : (s.hole hp).base < s.swapBase :=
    (longest.low_or_short table head).resolve_right (Nat.not_lt.mpr fit)
  obtain ⟨front, after, rfl, pred, longer, notShorter, -⟩ := longest.split
  have top := layout.range (s.hole hp).extent (by simp)
  obtain ⟨s', holes', slots', bitten, table', left, kept⟩ := bite_spec table pred fit top
  rw [if_pos fit, ← policy_worst flag] at ran
  exact ⟨front, hp, after, s', holes', slots', rfl, ⟨low, longer, notShorter⟩, allocMem_bites ran bitten, table', kept, left⟩

/-- The call gives up if every hole in memory is too short and nothing can be swapped out. -/
theorem refuses_of_head (layout : Layout c owners s holes slots) (flag : s.worstFitFlag ≠ 0) (head : HeadServes c clicks s)
    (short : ∀ i ∈ holes, (s.hole i).base < s.swapBase → (s.hole i).len < clicks)
    (refused : swapOut c s = .ok (false, s)) : allocMem c clicks s = .ok (none, s) := by
  have table := layout.table
  have some_ : holes ≠ [] := fun none_ => head.1 (table.linked.list_eq_nil_iff.mp none_)
  obtain ⟨hp, before, rest, longest, ran⟩ := worstRound_spec clicks none table layout.separated some_
  have tooShort : (s.hole hp).len < clicks := by
    rcases longest.low_or_short table head with low | short_
    · obtain ⟨front, after, rfl, -⟩ := longest.split
      exact short hp (by simp) low
    · exact short_
  rw [if_neg (Nat.not_le.mpr tooShort), ← policy_worst flag] at ran
  rw [allocMem_eq, rounds, ran, ok_bind]
  simp only [refused, ok_bind]
  rfl

/-- With worst fit `alloc_mem` does what it should exactly if the head of the hole list may be
the candidate before anything is known about it. -/
theorem servesWidest_iff (layout : Layout c owners s holes slots)
    (separate : s.swapBase - 1 ∉ units (images owners s.mproc ++ extents s holes))
    (resident : ∀ i, InTurn c i → (s.mproc i).candidate = true →
      0 < (s.mproc i).size ∧ (s.mproc i).d.memPhys < s.swapBase) (flag : s.worstFitFlag ≠ 0) :
    ServesWidest c clicks s holes ↔ HeadServes c clicks s := by
  have range : ∀ e ∈ extents s holes, e.top ≤ clickRange :=
    fun e member => layout.range e (List.mem_append_right _ member)
  refine ⟨fun right => headServes_of_sound layout.table layout.separated range flag right.sound right.memory, fun head => ?_⟩
  have standing : Standing c _ [] owners s :=
    ⟨layout.ready, layout.nodup, fun i inside candidate => (resident i inside candidate).1, head.1⟩
  have serving : Serving c clicks _ [] owners s :=
    ⟨standing, head, fun i inside candidate => (resident i inside candidate).2⟩
  refine ⟨fun unset => ?_, fun base s' taken => ?_, serves_of_head layout flag head, refuses_of_head layout flag head⟩
  · rw [allocMem_eq] at unset
    rcases standing.rounds_end clicks with full | ⟨found, s', ran⟩
    · cases full.symm.trans unset
    · cases ran.symm.trans unset
  · -- what was taken is the longest hole, and that one lies in memory
    rw [allocMem_eq] at taken
    obtain ⟨n, t, outs, last⟩ := rounds_cases taken
    obtain ⟨⟨standing', head', -⟩, same⟩ := serving.swappedOuts outs
    cases last with
    | @taken prev before rest hp base s' searched bitten =>
      obtain ⟨rfl, -⟩ := bite_kept bitten
      simp only [State.settings, Prod.mk.injEq] at same
      obtain ⟨-, -, swapBase, -, flag'⟩ := same
      obtain ⟨fits, holes', slots', table', separated', balance⟩ := standing'.ready.managed
      have some_ : holes' ≠ [] := fun none_ => head'.1 (table'.linked.list_eq_nil_iff.mp none_)
      obtain ⟨hp', before', rest', longest, ran⟩ := worstRound_spec clicks prev table' separated' some_
      rw [policy_worst flag] at searched
      have found := ran.symm.trans searched
      split at found
      next fit =>
        cases found
        have low := (longest.low_or_short table' head').resolve_right (Nat.not_lt.mpr fit)
        obtain ⟨front, after, rfl, -⟩ := longest.split
        have gap : tally (t.swapBase - 1) (images owners s.mproc ++ extents s holes) = 0 := by
          rw [swapBase]
          exact Nat.eq_zero_of_not_pos fun held => separate (mem_units_iff.mpr held)
        have top := top_lt_of_low standing'.ready.managed table' (by simp) gap low
        rw [← swapBase]
        exact ⟨low, by omega⟩
      next => cases found

def crowdedWorst : State := doWorstFit 1 crowded

theorem crowdedWorst_layout : Layout small [0] crowdedWorst [0, 1, 2] [3] where
  table := crowded_table.relink (fun _ => rfl) rfl rfl
  separated := crowded_layout.separated
  nodup := crowded_layout.nodup
  owned := crowded_layout.owned
  turn := crowded_layout.turn
  apart := crowded_layout.apart
  range := crowded_layout.range
  spare := crowded_layout.spare

theorem servesWidest_iff_crowdedWorst : ServesWidest small 3 crowdedWorst [0, 1, 2] := by
  refine (servesWidest_iff crowdedWorst_layout (by rw [mem_units_iff]; decide) ?_ (by decide)).mpr
    ⟨by decide, .inl (by decide)⟩
  intro i turn candidate
  obtain rfl : i = 0 := List.mem_singleton.mp (crowdedWorst_layout.owned i turn candidate)
  exact ⟨by decide, by decide⟩

def allInUse (area : List Hole) : State :=
  { static small fun _ => idle with
    hole := fun hp => (area ++ [⟨2, 0, 0⟩, ⟨3, 0, 0⟩, ⟨4, 0, 0⟩] : List Hole).getD hp ⟨0, 0, 0⟩
    swapBase := 16
    worstFitFlag := 1 }

def noHoles : State := { allInUse [⟨1, 0, 0⟩] with freeSlots := 0 }

def swapOnly : State := { allInUse [⟨4, 16, 8⟩] with holeHead := 0, freeSlots := 1 }

theorem noHoles_layout : Layout small [] noHoles [] [0, 1, 2, 3] where
  table := ⟨.stop, .link (by decide) (.link (by decide) (.link (by decide) (.link (by decide) .stop))), .refl _⟩
  separated := separated_nil
  nodup := .nil
  owned := by
    intro i turn candidate
    cases candidate
  turn := ⟨by decide, by decide⟩
  apart := by decide
  range := by decide
  spare := ⟨15, by decide, by rw [mem_units_iff]; decide⟩

theorem swapOnly_layout : Layout small [] swapOnly [0] [1, 2, 3] where
  table := ⟨.link (by decide) .stop, .link (by decide) (.link (by decide) (.link (by decide) .stop)), .refl _⟩
  separated := ⟨by decide, by decide⟩
  nodup := .nil
  owned := by
    intro i turn candidate
    cases candidate
  turn := ⟨by decide, by decide⟩
  apart := by decide
  range := by decide
  spare := ⟨15, by decide, by rw [mem_units_iff]; decide⟩

/-- With no hole at all `NIL_HOLE` is read, and with a swap area alone clicks of it are handed out. -/
theorem servesWidest_fails :
    (Layout small [] noHoles [] [0, 1, 2, 3] ∧ allocMem small 1 noHoles = .error .nilHole ∧
      ¬ ServesWidest small 1 noHoles []) ∧
    Layout small [] swapOnly [0] [1, 2, 3] ∧ (∃ s', allocMem small 5 swapOnly = .ok (some 16, s')) ∧
      swapOnly.swapBase = 16 ∧ ¬ ServesWidest small 5 swapOnly [0] := by
  have unset : allocMem small 1 noHoles = .error .nilHole := rfl
  obtain ⟨s', taken⟩ : ∃ s', allocMem small 5 swapOnly = .ok (some 16, s') := ⟨_, rfl⟩
  refine ⟨⟨noHoles_layout, unset, fun right => right.sound unset⟩, swapOnly_layout, ⟨s', taken⟩, rfl, fun right => ?_⟩
  exact absurd (right.memory 16 s' taken).1 (by decide)

end SoiStud.Memory
