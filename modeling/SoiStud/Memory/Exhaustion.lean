import SoiStud.Memory.Conservation
import SoiStud.Memory.Rounds

/-! When `alloc_mem` gives up.

A process that is swapped out stays so, and its old block is then free. So the
list never runs empty, and the call ends after one round for each process at
most. It says `NO_MEM` only when there is no hole for the request and no hole of
the swap area for any process that could be swapped out.
-/

set_option autoImplicit false

namespace SoiStud.Memory

open Library

variable {c : Constants} {given live live' others : List Extent} {owners holes slots : List Nat} {s s' t : State}
  {clicks n rmp : Nat}

theorem mem_roundFrom {outswap i : Nat} (turn : InTurn c outswap) : i ∈ roundFrom c outswap ↔ InTurn c i := by
  refine ⟨inTurn_of_mem_roundFrom turn, fun inside => ?_⟩
  unfold InTurn at *
  simp only [roundFrom, List.mem_append, List.mem_range'_1]
  omega

def unswapped (owners : List Nat) (s : State) : Nat := owners.countP fun i => !(s.mproc i).onswap

theorem SwappedOut.unswapped_eq (swapped : SwappedOut rmp s s') (nodup : owners.Nodup) (member : rmp ∈ owners) :
    unswapped owners s = unswapped owners s' + 1 := by
  have others : (owners.erase rmp).countP (fun i => !(s.mproc i).onswap) =
      (owners.erase rmp).countP fun i => !(s'.mproc i).onswap := by
    refine List.countP_congr fun i listed => ?_
    have other : i ≠ rmp := fun same => (List.Nodup.not_mem_erase nodup) (same ▸ listed)
    rw [swapped.onswap_eq, if_neg other]
  have split := List.perm_cons_erase member
  simp only [unswapped, split.countP_eq, List.countP_cons, others, swapped.onswap_eq, swapped.was_in_memory]
  simp

theorem freeMem_head {base : Nat} (managed : Managed c given live s)
    (freed : ∀ x, tally x live = (⟨base, clicks⟩ : Extent).tally x + tally x live') (some_ : clicks ≠ 0)
    (ran : freeMem c base clicks s = .ok s') : s'.holeHead ≠ c.nil ∧ (s'.hole s'.holeHead).base ≤ base := by
  obtain ⟨fits, holes, slots, table, separated, balance⟩ := managed
  have few : Fits clickRange (⟨base, clicks⟩ :: extents s holes) := fits.mono fun x => by
    have held := balance x
    have same := freed x
    rw [tally_cons]
    omega
  have room : slots ≠ [] := fun full => by
    rw [freeMem, if_neg some_, if_pos (table.free.list_eq_nil_iff.mp full)] at ran
    cases ran
  obtain ⟨t, holes', slots', ran', added⟩ := freeMem_spec table separated few some_ room
  cases ran'.symm.trans ran
  -- the first click of the block lies in some hole, and the head is the lowest
  have inside : base ∈ units (extents s' holes') := by
    have total := added.tally base
    have held : (⟨base, clicks⟩ : Extent).tally base = 1 :=
      if_pos ⟨Nat.le_refl _, Nat.lt_add_of_pos_right (Nat.pos_of_ne_zero some_)⟩
    rw [mem_units_iff]
    omega
  obtain ⟨e, member, low, -⟩ := inside
  obtain ⟨i, listed, rfl⟩ := List.mem_map.mp member
  cases holes' with
  | nil => cases listed
  | cons first rest =>
    obtain rfl := added.table.linked.head_eq
    refine ⟨added.table.linked.ne_nil, ?_⟩
    rcases List.mem_cons.mp listed with rfl | later
    · exact low
    · exact ((List.pairwise_cons.mp (increasing_of_separated added.separated)).1 i later).le.trans low

/-- After a process has been swapped out the list begins with its old block or below it. -/
theorem SwapSteps.head (steps : SwapSteps c rmp s s') (managed : Managed c given (others ++ images owners s.mproc) s)
    (nodup : owners.Nodup) (member : rmp ∈ owners) (some_ : 0 < (s.mproc rmp).size) :
    s'.holeHead ≠ c.nil ∧ (s'.hole s'.holeHead).base ≤ (s.mproc rmp).d.memPhys := by
  obtain ⟨newBase, t, u, bite, freed, rfl⟩ := steps
  have front := freeMem_head (bite.managed managed) (bite.freed nodup member) some_.ne' freed
  exact front

theorem SwappedOut.mproc_of_candidate (swapped : SwappedOut rmp s s') {i : Nat}
    (candidate : (s'.mproc i).candidate = true) : s'.mproc i = s.mproc i := by
  obtain ⟨base, moved⟩ := swapped.moved
  rw [moved, Function.update_apply] at candidate ⊢
  split at candidate
  next => simp [Mproc.candidate] at candidate
  next other => exact if_neg other

structure Standing (c : Constants) (given others : List Extent) (owners : List Nat) (s : State) : Prop where
  ready : Ready c given others owners s
  nodup : owners.Nodup
  sizes : ∀ i, InTurn c i → (s.mproc i).candidate = true → 0 < (s.mproc i).size
  some_ : s.holeHead ≠ c.nil

theorem Standing.swapOut (standing : Standing c given others owners s) (ran : swapOut c s = .ok (true, s')) :
    Standing c given others owners s' ∧ s'.settings = s.settings ∧ inMemory c s = inMemory c s' + 1 ∧
      unswapped owners s = unswapped owners s' + 1 := by
  obtain ⟨ready, nodup, sizes, -⟩ := standing
  obtain ⟨rmp, turned, steps⟩ := swapOut_steps ran
  have swapped := steps.swappedOut
  have turn := inTurn_of_mem_roundFrom ready.turn turned
  have member : rmp ∈ owners := ready.owned rmp turn swapped.candidate
  have head := steps.head ready.managed nodup member (sizes rmp turn swapped.candidate)
  rcases swapOut_spec ready nodup with none_ | full | ⟨t, ran', ready', same, fewer⟩
  · cases none_.symm.trans ran
  · cases full.symm.trans ran
  · cases ran'.symm.trans ran
    refine ⟨⟨ready', nodup, fun i inside candidate => ?_, head.1⟩, same, fewer, swapped.unswapped_eq nodup member⟩
    have unmoved := swapped.mproc_of_candidate candidate
    rw [unmoved] at candidate ⊢
    exact sizes i inside candidate

theorem Standing.swappedOuts (standing : Standing c given others owners s) (outs : SwappedOuts c n s t) :
    Standing c given others owners t ∧ t.settings = s.settings ∧ n + unswapped owners t = unswapped owners s := by
  induction outs with
  | none => exact ⟨standing, rfl, Nat.zero_add _⟩
  | more ran _ ih =>
    obtain ⟨standing', same, -, fewer⟩ := standing.swapOut ran
    obtain ⟨final, same', count⟩ := ih standing'
    exact ⟨final, same'.trans same, by omega⟩

/-- With holes in the list the call has a result, unless the hole table is full. -/
theorem Standing.rounds_end (clicks : Nat) (standing : Standing c given others owners s) :
    rounds c clicks (policy c clicks s) (c.nrProcs + 1) none s = .error .holeTableFull ∨
      ∃ found s', rounds c clicks (policy c clicks s) (c.nrProcs + 1) none s = .ok (found, s') := by
  rcases Memory.rounds_end none standing.ready standing.nodup (Nat.lt_succ_of_le (inMemory_le c s)) with
    full | ⟨-, n, t, outs, empty⟩ | found
  · exact .inl full
  · exact absurd empty (standing.swappedOuts outs).1.some_
  · exact .inr found

structure Exhausted (c : Constants) (clicks : Nat) (s : State) (holes : List Nat) : Prop where
  memory : ∀ i ∈ holes, (s.hole i).base < s.swapBase → (s.hole i).len < clicks
  swap : ∀ rmp, InTurn c rmp → (s.mproc rmp).candidate = true → ∀ i ∈ holes, s.swapBase ≤ (s.hole i).base →
    (s.hole i).len < (s.mproc rmp).size

theorem exhausted_of_swapOut (table : Table c s holes slots) (turn : InTurn c s.outswap)
    (short : ∀ i ∈ holes, (s.hole i).base < s.swapBase → (s.hole i).len < clicks)
    (ran : swapOut c s = .ok (false, s)) : Exhausted c clicks s holes := by
  refine ⟨short, fun rmp inside candidate i member high => ?_⟩
  rcases swapOut_cases ran with ⟨-, -, none_⟩ | ⟨yes, -⟩
  · -- the round comes past every process
    rcases trySwap_cases (none_ rmp ((mem_roundFrom turn).mpr inside)) with ⟨-, walked⟩ | ⟨u, done, -⟩
    · obtain ⟨prev, ended⟩ := walked candidate
      obtain ⟨hp, prev', again, ends⟩ := walk_ends (Memory.unfit s (s.mproc rmp)) none table
      cases again.symm.trans ended
      have unfit := (ends.resolve_right fun present => present.1 rfl).2 i member
      simp only [Memory.unfit, Bool.not_eq_true', Bool.and_eq_false_iff, decide_eq_false_iff_not] at unfit
      omega
    · cases done
  · cases yes

/-- A hole list and the images of processes, which all overlap nowhere. What can be swapped
out are the images of owners. -/
structure Layout (c : Constants) (owners : List Nat) (s : State) (holes slots : List Nat) : Prop where
  table : Table c s holes slots
  separated : Separated (extents s holes)
  nodup : owners.Nodup
  owned : Owned c owners s
  turn : InTurn c s.outswap
  apart : (images owners s.mproc ++ extents s holes).Pairwise fun e f => e.top ≤ f.base ∨ f.top ≤ e.base
  range : ∀ e ∈ images owners s.mproc ++ extents s holes, e.top ≤ clickRange
  spare : ∃ x < clickRange, x ∉ units (images owners s.mproc ++ extents s holes)

theorem Layout.ready (layout : Layout c owners s holes slots) :
    Ready c (images owners s.mproc ++ extents s holes) [] owners s := by
  obtain ⟨table, separated, -, owned, turn, apart, range, spare⟩ := layout
  refine ⟨⟨fits_of_pairwise apart range spare, holes, slots, table, separated, fun x => ?_⟩, owned, turn⟩
  rw [List.nil_append, tally_append, Nat.add_comm]

/-- The call ends after no more successful calls of `swap_out` than there are processes without
`ONSWAP`, and `NO_MEM` is the whole truth. -/
theorem allocMem_exhausts (layout : Layout c owners s holes slots) (some_ : holes ≠ [])
    (sizes : ∀ i ∈ owners, 0 < (s.mproc i).size) (room : allocMem c clicks s ≠ .error .holeTableFull) :
    ∃ found s' n t, allocMem c clicks s = .ok (found, s') ∧ SwappedOuts c n s t ∧
      LastRound c clicks (policy c clicks s) t found s' ∧ n ≤ unswapped owners s ∧
      (found = none → ∃ holes' slots', Table c s' holes' slots' ∧ Exhausted c clicks s' holes') := by
  have standing : Standing c _ [] owners s := ⟨layout.ready, layout.nodup,
    fun i inside candidate => sizes i (layout.owned i inside candidate),
    fun ended => some_ (layout.table.linked.list_eq_nil_iff.mpr ended)⟩
  rw [allocMem_eq] at room ⊢
  rcases standing.rounds_end clicks with full | ⟨found, s', ran⟩
  · exact absurd full room
  · obtain ⟨n, t, outs, last⟩ := rounds_cases ran
    obtain ⟨standing', same, count⟩ := standing.swappedOuts outs
    refine ⟨found, s', n, t, ran, outs, last, by omega, ?_⟩
    rintro rfl
    cases last with
    | @gaveUp prev rest searched refused =>
      obtain ⟨-, holes', slots', table', separated', -⟩ := standing'.ready.managed
      have some_' : holes' ≠ [] := fun none_ => standing'.some_ (table'.linked.list_eq_nil_iff.mp none_)
      obtain ⟨out, rest', searched', short⟩ :=
        (policy_ends clicks prev table' separated').resolve_left fun empty => some_' empty.1
      rw [policy_congr clicks same] at searched'
      cases searched'.symm.trans searched
      exact ⟨holes', slots', table', exhausted_of_swapOut table' standing'.ready.turn (short rfl) refused⟩

def crowded : State :=
  { static small fun i => if i = 0 then { idle with waiting := true, d := ⟨0, 4, 4⟩, s := ⟨4, 8, 2⟩ } else idle with
    hole := fun hp => ([⟨1, 0, 4⟩, ⟨2, 10, 5⟩, ⟨4, 16, 8⟩, ⟨4, 0, 0⟩] : List Hole).getD hp ⟨0, 0, 0⟩
    holeHead := 0
    freeSlots := 3
    swapBase := 16 }

theorem crowded_table : Table small crowded [0, 1, 2] [3] where
  linked := .link (by decide) (.link (by decide) (.link (by decide) .stop))
  free := .link (by decide) .stop
  once := .refl _

theorem crowded_layout : Layout small [0] crowded [0, 1, 2] [3] where
  table := crowded_table
  separated := ⟨by decide, by decide⟩
  nodup := by decide
  owned := by
    intro i turn candidate
    obtain rfl | rfl : i = 0 ∨ i = 1 := by
      have := turn.2
      simp only [small] at this
      omega
    · exact List.mem_singleton_self 0
    · cases candidate
  turn := ⟨by decide, by decide⟩
  apart := by decide
  range := by decide
  spare := ⟨15, by decide, by rw [mem_units_iff]; decide⟩

theorem allocMem_exhausts_crowded :
    ∃ found s' n t, allocMem small 12 crowded = .ok (found, s') ∧ SwappedOuts small n crowded t ∧
      LastRound small 12 (policy small 12 crowded) t found s' ∧ n ≤ unswapped [0] crowded ∧
      (found = none → ∃ holes' slots', Table small s' holes' slots' ∧ Exhausted small 12 s' holes') :=
  allocMem_exhausts crowded_layout (by decide) (by decide) (by intro full; cases full)

end SoiStud.Memory
