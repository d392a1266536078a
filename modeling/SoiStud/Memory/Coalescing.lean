import SoiStud.Library.MaximalRun
import SoiStud.Memory.Conservation
import SoiStud.Memory.Rounds

/-! What is free determines the hole list.

`merge` leaves no two holes that touch, so that the list is that of the maximal
runs of free clicks, whatever way led to it: a block that is freed again leaves
no trace, and the order in which blocks are freed does not matter.
-/

set_option autoImplicit false

namespace SoiStud.Memory

open Library

variable {c : Constants} {s s' : State} {holes slots : List Nat}

theorem Table.length_eq (table : Table c s holes slots) : holes.length + slots.length = c.nrHoles := by
  have same := table.once.length_eq
  rwa [List.length_append, List.length_range] at same

theorem length_extents (s : State) (l : List Nat) : (extents s l).length = l.length := List.length_map _

theorem Extent.length_cut (e : Extent) (n : Nat) : (e.cut n).length ≤ 1 := by
  unfold Extent.cut
  split <;> simp

/-- A block that `alloc_mem` took without swapping, freed again: the holes are those of before. -/
theorem freeMem_undoes_allocMem {base clicks : Nat} (table : Table c s holes slots)
    (separated : Separated (extents s holes))
    (range : ∀ e ∈ extents s holes, e.top ≤ clickRange ∧ e.len < clickRange) (room : slots ≠ []) (some_ : 0 < clicks)
    (taken : allocMem c clicks s = .ok (some base, s')) (unswapped : s'.mproc = s.mproc) :
    ∃ t holes' slots', freeMem c base clicks s' = .ok t ∧ Table c t holes' slots' ∧
      extents t holes' = extents s holes := by
  have fits : Fits clickRange (extents s holes) := separated.fits (by decide) range
  rw [allocMem_eq] at taken
  obtain ⟨n, t, outs, last⟩ := rounds_cases taken
  cases last with
  | @taken prev before rest hp base s' searched bitten =>
    obtain ⟨rfl, kept⟩ := bite_kept bitten
    obtain ⟨-, rfl⟩ := outs.eq_of_mproc (kept.mproc_eq.symm.trans unswapped)
    obtain ⟨⟨front, after, rfl, pred⟩, enough⟩ := policy_found table separated searched
    obtain ⟨t', holes', slots', ran, table', left, -⟩ :=
      bite_spec table pred enough (range _ (by simp)).1
    cases ran.symm.trans bitten
    rw [extents_append, extents_cons] at separated fits ⊢
    -- what is left of the holes, together with the block, is what there was
    have whole (x : Nat) : (⟨(t.hole hp).base, clicks⟩ : Extent).tally x + tally x (extents s' holes') =
        tally x (extents t front ++ (t.hole hp).extent :: extents t after) := by
      have cut := tally_cut (x := x) (e := (t.hole hp).extent) enough
      rw [left]
      simp only [tally_append, tally_cons, Hole.extent] at cut ⊢
      omega
    have free : slots' ≠ [] := by
      have short := Extent.length_cut (t.hole hp).extent clicks
      have holes_ := congrArg List.length left
      have total := table.length_eq
      have total' := table'.length_eq
      have some_ := List.length_pos_of_ne_nil room
      simp only [length_extents, List.length_append, List.length_cons] at holes_ total
      exact List.ne_nil_of_length_pos (by omega)
    obtain ⟨u, holes'', slots'', freed, added⟩ := freeMem_spec table' (left ▸ separated_cut separated enough)
      (fits.mono fun x => (whole x).le) some_.ne' free
    refine ⟨u, holes'', slots'', freed, added.table, ?_⟩
    exact added.separated.eq_of_tally separated fun x => (added.tally x).trans (whole x)

def twoHoles : State :=
  { static small fun _ => idle with
    hole := fun hp => ([⟨1, 0, 4⟩, ⟨4, 10, 5⟩, ⟨3, 0, 0⟩, ⟨4, 0, 0⟩] : List Hole).getD hp ⟨0, 0, 0⟩
    holeHead := 0
    freeSlots := 2
    swapBase := 16 }

theorem twoHoles_table : Table small twoHoles [0, 1] [2, 3] where
  linked := .link (by decide) (.link (by decide) .stop)
  free := .link (by decide) (.link (by decide) .stop)
  once := .refl _

theorem twoHoles_separated : Separated (extents twoHoles [0, 1]) := ⟨by decide, by decide⟩

theorem freeMem_undoes_allocMem_twoHoles : ∃ s', allocMem small 5 twoHoles = .ok (some 10, s') ∧
    ∃ t holes' slots', freeMem small 10 5 s' = .ok t ∧ Table small t holes' slots' ∧
      extents t holes' = [⟨0, 4⟩, ⟨10, 5⟩] :=
  ⟨_, rfl, freeMem_undoes_allocMem twoHoles_table twoHoles_separated (by decide) (by simp) (by decide) rfl rfl⟩

def freeAll (c : Constants) : List Extent → State → Except Fault State
  | [], s => .ok s
  | block :: rest, s => do
    let s ← freeMem c block.base block.len s
    freeAll c rest s

theorem freeAll_spec {blocks : List Extent} (table : Table c s holes slots) (separated : Separated (extents s holes))
    (nonempty : ∀ e ∈ blocks, 0 < e.len) (fits : Fits clickRange (blocks ++ extents s holes)) :
    freeAll c blocks s = .error .holeTableFull ∧ slots.length < blocks.length ∨
      ∃ s' holes' slots', freeAll c blocks s = .ok s' ∧ Table c s' holes' slots' ∧ Separated (extents s' holes') ∧
        ∀ x, tally x (extents s' holes') = tally x (blocks ++ extents s holes) := by
  induction blocks generalizing s holes slots with
  | nil => exact .inr ⟨s, holes, slots, rfl, table, separated, fun _ => rfl⟩
  | cons block rest ih =>
    obtain ⟨some_, others⟩ := List.forall_mem_cons.mp nonempty
    rw [freeAll]
    by_cases room : slots = []
    · have full : freeMem c block.base block.len s = .error .holeTableFull := by
        rw [freeMem, if_neg some_.ne', if_pos (table.free.list_eq_nil_iff.mp room)]
      rw [full, room]
      exact .inl ⟨rfl, Nat.succ_pos _⟩
    · have few : Fits clickRange (block :: extents s holes) := fits.mono fun x => by simp
      obtain ⟨t, holes', slots', freed, added⟩ := freeMem_spec table separated few some_.ne' room
      -- what is free and what is still to be freed stay the same together
      have same (x : Nat) : tally x (rest ++ extents t holes') = tally x (block :: rest ++ extents s holes) := by
        have total : tally x (extents t holes') = block.tally x + tally x (extents s holes) := added.tally x
        simp only [tally_append, List.cons_append, tally_cons]
        omega
      rw [freed, ok_bind]
      rcases ih added.table added.separated others (fits.mono fun x => (same x).le) with
        ⟨full, short⟩ | ⟨u, h, l, ran, table', apart, all⟩
      · -- one block takes one slot at most
        have more := added.separated.length_le_succ added.tally
        have total := table.length_eq
        have total' := added.table.length_eq
        rw [length_extents, length_extents] at more
        exact .inl ⟨full, by rw [List.length_cons]; omega⟩
      · exact .inr ⟨u, h, l, ran, table', apart, fun x => (all x).trans (same x)⟩

/-- Whatever the order in which blocks are freed, the holes are then the maximal runs of
free clicks, unless there are fewer free slots than blocks. -/
theorem freeAll_any_order {blocks order : List Extent} (table : Table c s holes slots)
    (separated : Separated (extents s holes)) (nonempty : ∀ e ∈ blocks, 0 < e.len)
    (apart : (blocks ++ extents s holes).Pairwise fun e f => e.top ≤ f.base ∨ f.top ≤ e.base)
    (range : ∀ e ∈ blocks ++ extents s holes, e.top ≤ clickRange)
    (spare : ∃ x < clickRange, x ∉ units (blocks ++ extents s holes)) (perm : order.Perm blocks) :
    freeAll c order s = .error .holeTableFull ∧ slots.length < blocks.length ∨
      ∃ s' holes' slots', freeAll c order s = .ok s' ∧ Table c s' holes' slots' ∧
        ∀ runs, RunsInOrder (units (blocks ++ extents s holes)) runs ↔ runs = extents s' holes' := by
  have fits : Fits clickRange (blocks ++ extents s holes) := fits_of_pairwise apart range spare
  have same (x : Nat) : tally x (order ++ extents s holes) = tally x (blocks ++ extents s holes) :=
    tally_perm (perm.append_right _)
  rcases freeAll_spec table separated (fun e member => nonempty e (perm.mem_iff.mp member))
    (fits.mono fun x => (same x).le) with ⟨full, short⟩ | ⟨s', holes', slots', ran, table', separated', all⟩
  · exact .inl ⟨full, perm.length_eq ▸ short⟩
  · have free : units (extents s' holes') = units (blocks ++ extents s holes) :=
      units_congr fun x => (all x).trans (same x)
    have listed : RunsInOrder (units (blocks ++ extents s holes)) (extents s' holes') := free ▸ separated'.runsInOrder
    refine .inr ⟨s', holes', slots', ran, table', fun runs => ⟨fun others => others.unique listed, ?_⟩⟩
    rintro rfl
    exact listed

theorem freeAll_any_order_twoHoles :
    ∃ s' holes' slots', freeAll small [⟨7, 3⟩, ⟨4, 3⟩] twoHoles = .ok s' ∧ Table small s' holes' slots' ∧
      ∀ runs, RunsInOrder (units ([⟨4, 3⟩, ⟨7, 3⟩] ++ extents twoHoles [0, 1])) runs ↔ runs = extents s' holes' := by
  rcases freeAll_any_order twoHoles_table twoHoles_separated (by decide) (by decide) (by decide)
    ⟨15, by decide, by rw [mem_units_iff]; decide⟩ (List.Perm.swap ⟨4, 3⟩ ⟨7, 3⟩ []) with ⟨full, -⟩ | freed
  · cases full
  · exact freed

/-- The order in which the chunks of memory are reported does not matter either. -/
theorem memInit_any_order {mproc : Nat → Mproc} {replies order : List SysMem} {last last' : SysMem}
    {total total' : Nat} {out out' : Nat × Nat} {s' : State} (described : Described replies)
    (apart : (chunks replies).Pairwise fun e f => e.top ≤ f.base ∨ f.top ≤ e.base) (perm : order.Perm replies)
    (ended : toClicks last.m1_i2 = 0) (ended' : toClicks last'.m1_i2 = 0)
    (ran : memInit c (replies ++ [last]) total (static c mproc) = .ok (s, out))
    (ran' : memInit c (order ++ [last']) total' (static c mproc) = .ok (s', out')) :
    ∃ holes slots holes' slots', Table c s holes slots ∧ Table c s' holes' slots' ∧
      extents s holes = extents s' holes' := by
  have same : (chunks order).Perm (chunks replies) := perm.map SysMem.chunk
  have once (x : Nat) : tally x (chunks replies) ≤ 1 := tally_le_one_of_pairwise apart
  obtain ⟨⟨-, holes, slots, table, separated, balance⟩, -⟩ := memInit_spec described once ended ran
  obtain ⟨⟨-, holes', slots', table', separated', balance'⟩, -⟩ :=
    memInit_spec (fun e member => described e (same.mem_iff.mp member)) (fun x => tally_perm same ▸ once x) ended' ran'
  refine ⟨holes, slots, holes', slots', table, table', separated.eq_of_tally separated' fun x => ?_⟩
  have first := balance x
  have second := balance' x
  have both := tally_perm (x := x) same
  rw [tally_nil] at first second
  omega

end SoiStud.Memory
