import SoiStud.Library.MaximalRun
import SoiStud.Memory.Conservation
import SoiStud.Memory.Rounds

/-! How many holes there can be.

Above every hole begins a live block or ends a chunk, so that there are no more
holes than these. `free_mem` takes a slot before it merges, and it panics only
where blocks and chunks leave no slot.
-/

set_option autoImplicit false

namespace SoiStud.Memory

open Library

variable {c : Constants} {s s' t u : State} {hp rmp clicks fuel n k base : Nat} {prev : Option Nat}

section
variable {given live : List Extent} {holes slots : List Nat}

def nonempty (live : List Extent) : List Extent := live.filter fun e => 0 < e.len

theorem holes_length_le (managed : Managed c given live s) (table : Table c s holes slots) :
    holes.length ≤ (nonempty live).length + given.length := by
  obtain ⟨fits, holes', slots', table', separated, balance⟩ := managed
  obtain rfl := table.linked.unique table'.linked
  have fewer := separated.length_le_of_shared balance fits.once
  rwa [extents, List.length_map] at fewer

theorem nrHoles_le (managed : Managed c given live s) (full : s.freeSlots = c.nil) :
    c.nrHoles ≤ (nonempty live).length + given.length := by
  obtain ⟨holes, slots, table, -⟩ := managed.lists
  have few := holes_length_le managed table
  have total := table.once.length_eq
  rw [table.free.list_eq_nil_iff.mpr full, List.append_nil, List.length_range] at total
  omega

end

section
/-! Only `free_mem` panics. -/

theorem walk_error {onward : Hole → Bool} {e : Fault} (ran : walk c s onward fuel hp prev = .error e) :
    e = .outOfFuel := by
  induction fuel generalizing hp prev with
  | zero =>
    cases ran
    rfl
  | succ fuel ih =>
    rw [walk] at ran
    split at ran
    next => exact ih ran
    next => cases ran

theorem bite_error {e : Fault} (ran : bite clicks hp prev s = .error e) : e = .nilHole := by
  obtain unset | ⟨t, done, -⟩ := bite_stays clicks hp prev s
  · cases ran.symm.trans unset
    rfl
  · cases ran.symm.trans done

theorem freeMem_full (ran : freeMem c base clicks s = .error .holeTableFull) : s.freeSlots = c.nil := by
  unfold freeMem at ran
  split at ran
  next => cases ran
  next =>
    split at ran
    next full => exact full
    next =>
      dsimp only at ran
      split at ran
      next => cases (merge_stays _ _ _).error ran
      next =>
        rcases bind_eq_error.mp ran with walked | ⟨⟨found, pred⟩, -, ran⟩
        · cases walk_error walked
        · cases pred with
          | none => cases ran
          | some p => cases (merge_stays _ _ _).error ran

/-- If swapping a process out panics, it does so when the old image is freed. -/
theorem trySwap_full (ran : trySwap c rmp s = .error .holeTableFull) :
    ∃ newBase t, SwapBite c rmp s newBase t ∧
      freeMem c (s.mproc rmp).d.memPhys (s.mproc rmp).size t = .error .holeTableFull := by
  unfold trySwap at ran
  by_cases candidate : (s.mproc rmp).candidate = true
  · simp only [candidate, Bool.not_true, Bool.false_eq_true, if_false] at ran
    rcases bind_eq_error.mp ran with walked | ⟨⟨hp, prev⟩, walked, ran⟩
    · cases walk_error walked
    · by_cases ended : hp = c.nil
      · simp only [if_pos ended] at ran
        cases ran
      · simp only [if_neg ended] at ran
        rcases bind_eq_error.mp ran with bitten | ⟨⟨newBase, s₁⟩, bitten, ran⟩
        · cases bite_error bitten
        · rcases bind_eq_error.mp ran with freed | ⟨s₃, -, ran⟩
          · exact ⟨newBase, _, ⟨candidate, hp, prev, s₁, walked, ended, bitten, rfl⟩, freed⟩
          · cases ran
  · simp only [Bool.eq_false_iff.mpr candidate, Bool.not_false, if_true] at ran
    cases ran

theorem swapOutFrom_full {l : List Nat} (ran : swapOutFrom c l s = .error .holeTableFull) :
    ∃ rmp ∈ l, trySwap c rmp s = .error .holeTableFull := by
  induction l with
  | nil => cases ran
  | cons rmp rest ih =>
    rw [swapOutFrom] at ran
    rcases bind_eq_error.mp ran with tried | ⟨out, -, ran⟩
    · exact ⟨rmp, List.mem_cons_self, tried⟩
    · cases out with
      | some u => cases ran
      | none =>
        obtain ⟨i, member, full⟩ := ih ran
        exact ⟨i, List.mem_cons_of_mem _ member, full⟩

theorem findBiggest_error {found : Search} {e : Fault} (ran : findBiggest c s fuel hp found = .error e) :
    e = .outOfFuel := by
  induction fuel generalizing hp found with
  | zero =>
    cases ran
    rfl
  | succ fuel ih =>
    rw [findBiggest] at ran
    split at ran
    next => exact ih ran
    next => cases ran

theorem policy_ne_full (prev : Option Nat) : policy c clicks s prev t ≠ .error .holeTableFull := by
  intro ran
  unfold policy at ran
  split at ran
  next =>
    rw [firstRound] at ran
    rcases bind_eq_error.mp ran with walked | ⟨⟨hp, pred⟩, -, ran⟩
    · cases walk_error walked
    · dsimp only at ran
      split at ran <;> cases ran
  next =>
    rw [worstRound] at ran
    rcases bind_eq_error.mp ran with searched | ⟨found, -, ran⟩
    · cases findBiggest_error searched
    · split at ran
      next => cases ran
      next => split at ran <;> cases ran

/-- If `alloc_mem` panics, it does so when the old image of a process is freed. -/
theorem rounds_full (ran : rounds c clicks (policy c clicks u) fuel prev s = .error .holeTableFull) :
    ∃ n t rmp newBase t', SwappedOuts c n s t ∧ rmp ∈ roundFrom c t.outswap ∧ SwapBite c rmp t newBase t' ∧
      freeMem c (t.mproc rmp).d.memPhys (t.mproc rmp).size t' = .error .holeTableFull := by
  rcases rounds_stop c clicks (policy c clicks u) fuel prev s with ⟨fault, -⟩ | ⟨n, t, outs, stops⟩
  · cases fault.symm.trans ran
  generalize rounds c clicks (policy c clicks u) fuel prev s = result at ran stops
  cases stops with
  | @failed prev e searched =>
    cases ran
    exact absurd searched (policy_ne_full prev)
  | found _ =>
    rcases bind_eq_error.mp ran with bitten | ⟨out, -, done⟩
    · cases bite_error bitten
    · cases done
  | refused _ swapping =>
    cases ran
    obtain ⟨rmp, member, tried⟩ := swapOutFrom_full swapping
    obtain ⟨newBase, t', bite, freed⟩ := trySwap_full tried
    exact ⟨n, t, rmp, newBase, t', outs, member, bite, freed⟩
  | gaveUp _ _ => cases ran

end

def booted (c : Constants) (k : Nat) : System World Event where
  init w := (system c).init w ∧ w.given.length = k
  step := Moves c

inductive Course (c : Constants) (w : World) : State → List Extent → Prop where
  | now : Course c w w.state w.live
  /-- between two rounds of `alloc_mem` -/
  | round {n : Nat} {t : State} : Owned c w.owners w.state → SwappedOuts c n w.state t →
      Course c w t (w.others ++ images w.owners t.mproc)
  /-- in `swap_out`, before the old image is freed -/
  | between {n rmp newBase : Nat} {t u : State} : Owned c w.owners w.state → SwappedOuts c n w.state t →
      rmp ∈ roundFrom c t.outswap → SwapBite c rmp t newBase u →
      Course c w u (⟨newBase, (t.mproc rmp).size⟩ :: (w.others ++ images w.owners t.mproc))
  /-- in `swap_on`, before the swap area is freed -/
  | opening {fd offset : Nat} : w.state.swapFd = -1 →
      Course c w { w.state with swapFd := fd, swapOffset := offset } w.live

inductive Frees (c : Constants) (w : World) : State → List Extent → Nat → Nat → Prop where
  | block {base clicks : Nat} : ⟨base, clicks⟩ ∈ w.others → Frees c w w.state w.live base clicks
  | image {n rmp newBase : Nat} {t u : State} : Owned c w.owners w.state → SwappedOuts c n w.state t →
      rmp ∈ roundFrom c t.outswap → SwapBite c rmp t newBase u →
      Frees c w u (⟨newBase, (t.mproc rmp).size⟩ :: (w.others ++ images w.owners t.mproc))
        (t.mproc rmp).d.memPhys (t.mproc rmp).size
  | area {fd offset size : Nat} : w.state.swapFd = -1 →
      Frees c w { w.state with swapFd := fd, swapOffset := offset } w.live w.state.swapBase (swapSize c w.state size)

def FullAt (c : Constants) (w : World) : Prop :=
  ∃ t live base clicks, Frees c w t live base clicks ∧ freeMem c base clicks t = .error .holeTableFull

section
variable {w w' : World} {event : Event} {live : List Extent}

theorem Frees.course (frees : Frees c w t live base clicks) : Course c w t live := by
  cases frees with
  | block _ => exact .now
  | image owned outs member bite => exact .between owned outs member bite
  | area closed => exact .opening closed

theorem Course.managed (course : Course c w t live) (conserved : Conserved c w) : Managed c w.given live t := by
  obtain ⟨managed, -, nodup, turn⟩ := conserved
  cases course with
  | now => exact managed
  | round owned outs =>
    have ready : Ready c w.given w.others w.owners w.state := ⟨managed, owned, turn⟩
    exact (outs.ready ready nodup).1.managed
  | between owned outs _ bite =>
    have ready : Ready c w.given w.others w.owners w.state := ⟨managed, owned, turn⟩
    exact bite.managed (outs.ready ready nodup).1.managed
  | opening _ => exact managed.congr rfl rfl rfl fun _ => rfl

theorem swapFd_of_settings (same : s'.settings = s.settings) : s'.swapFd = s.swapFd := congrArg Prod.fst same

theorem allocMem_settings {found : Option Nat} (ran : allocMem c clicks s = .ok (found, s')) : s'.settings = s.settings := by
  rw [allocMem_eq] at ran
  obtain ⟨n, t, outs, last⟩ := rounds_cases ran
  cases last with
  | taken _ bitten => exact (bite_kept bitten).2.settings_eq.trans outs.settings
  | gaveUp _ _ => exact outs.settings

/-- `swap_on` gives clicks once: after that there is a file descriptor. -/
theorem swapOn_once {opened : Except Int Nat} {offset size : Nat} {r : SwapOn}
    (ran : swapOn c opened offset size s = .ok (r, s')) :
    (s'.swapFd = s.swapFd ∧ swapArea c s size r = []) ∨
      (s.swapFd = -1 ∧ s'.swapFd ≠ -1 ∧ (swapArea c s size r).length = 1) := by
  unfold swapOn at ran
  split at ran
  next =>
    cases ran
    exact .inl ⟨rfl, rfl⟩
  next closed =>
    have closed := Decidable.not_not.mp closed
    cases opened with
    | error errno =>
      cases ran
      exact .inl ⟨closed.symm, rfl⟩
    | ok fd =>
      have opened_ : (fd : Int) ≠ -1 := by omega
      dsimp only at ran
      split at ran
      next =>
        obtain ⟨u, freed, ran⟩ := bind_eq_ok.mp ran
        cases ran
        have same : s'.swapFd = fd := by rw [freeMem_kept freed]
        exact .inr ⟨closed, same ▸ opened_, rfl⟩
      next =>
        cases ran
        exact .inr ⟨closed, opened_, rfl⟩

theorem swapOn_full {opened : Except Int Nat} {offset size : Nat}
    (ran : swapOn c opened offset size s = .error .holeTableFull) :
    s.swapFd = -1 ∧ ∃ fd : Nat, freeMem c s.swapBase (swapSize c s size) { s with swapFd := fd, swapOffset := offset } =
      .error .holeTableFull := by
  unfold swapOn at ran
  split at ran
  next => cases ran
  next closed =>
    cases opened with
    | error errno => cases ran
    | ok fd =>
      dsimp only at ran
      split at ran
      next =>
        rcases bind_eq_error.mp ran with freed | ⟨u, -, ran⟩
        · exact ⟨Decidable.not_not.mp closed, fd, freed⟩
        · cases ran
      next => cases ran

structure Counted (c : Constants) (k : Nat) (w : World) : Prop where
  conserved : Conserved c w
  closed : w.state.swapFd = -1 → w.given.length ≤ k
  few : w.given.length ≤ k + 1

theorem Counted.of_swapFd (counted : Counted c k w) (conserved : Conserved c w') (given : w'.given = w.given)
    (fd : w'.state.swapFd = w.state.swapFd) : Counted c k w' where
  conserved := conserved
  closed closed := given ▸ counted.closed (fd ▸ closed)
  few := given ▸ counted.few

theorem Counted.move (counted : Counted c k w) (moves : Moves c w event w') : Counted c k w' := by
  have conserved := counted.conserved.move moves
  cases moves with
  | swapOn ran =>
    rcases swapOn_once ran with ⟨fd, none_⟩ | ⟨closed, opened, one⟩
    · exact counted.of_swapFd conserved (by simp only [none_, List.nil_append]) fd
    · refine ⟨conserved, fun still => absurd still opened, ?_⟩
      have few := counted.closed closed
      rw [List.length_append, one]
      omega
  | doWorstFit =>
    refine counted.of_swapFd conserved rfl ?_
    unfold doWorstFit
    split <;> rfl
  | allocMem _ ran => exact counted.of_swapFd conserved rfl (swapFd_of_settings (allocMem_settings ran))
  | freeMem _ ran => exact counted.of_swapFd conserved rfl (swapFd_of_settings (freeMem_kept ran).settings_eq)
  | elsewhere _ _ => exact counted.of_swapFd conserved rfl rfl

theorem counted_of_reachable (reached : (booted c k).Reachable w) : Counted c k w :=
  reached.invariant (fun _ ⟨initial, many⟩ => ⟨conserved_init initial, fun _ => many.le, many.le.trans (Nat.le_succ k)⟩)
    fun _ _ _ counted moves => counted.move moves

theorem addChunks_has_room {given : List Extent} {replies : List SysMem} {last : SysMem} {total free : Nat}
    (arriving : Arriving c given s) (described : Described replies)
    (once : ∀ x, tally x (chunks replies) + tally x given ≤ 1) (ended : toClicks last.m1_i2 = 0)
    (room : given.length + replies.length < c.nrHoles) :
    addChunks c (replies ++ [last]) total free s ≠ .error .holeTableFull := by
  induction replies generalizing s given total free with
  | nil =>
    simp only [List.nil_append, addChunks, if_pos ended]
    simp
  | cons mess replies ih =>
    obtain ⟨nonempty_, top⟩ := described mess.chunk List.mem_cons_self
    have some_ : toClicks mess.m1_i2 ≠ 0 := nonempty_.ne'
    have single (x : Nat) : mess.chunk.tally x + tally x given ≤ 1 := by
      have := once x
      simp only [chunks, List.map_cons, tally_cons] at this
      omega
    intro ran
    rw [List.cons_append, addChunks, if_neg some_] at ran
    -- a chunk takes one slot at most
    rcases bind_eq_error.mp ran with freed | ⟨s₁, freed, ran⟩
    · have full := nrHoles_le arriving.managed (freeMem_full freed)
      simp only [nonempty, List.filter_nil, List.length_nil, List.length_cons] at full room
      omega
    · obtain ⟨t, same, next, -⟩ := arriving.chunk top single freed
      rw [← same] at ran
      refine ih next (fun e member => described e (List.mem_cons_of_mem _ member)) (fun x => ?_) ?_ ran
      · have := once x
        simp only [chunks, List.map_cons, tally_cons] at this ⊢
        omega
      · simp only [List.length_cons] at room ⊢
        omega

theorem memInit_has_room {mproc : Nat → Mproc} {replies : List SysMem} {last : SysMem} {total : Nat}
    (described : Described replies) (apart : (chunks replies).Pairwise fun e f => e.top ≤ f.base ∨ f.top ≤ e.base)
    (ended : toClicks last.m1_i2 = 0) (room : replies.length < c.nrHoles) :
    memInit c (replies ++ [last]) total (static c mproc) ≠ .error .holeTableFull := by
  intro ran
  have arriving : Arriving c [] (clearTable c (static c mproc)) :=
    ⟨clearTable_managed c _, by simp, (by decide : 0 < clickRange)⟩
  rcases bind_eq_error.mp ran with full | ⟨out, -, ran⟩
  · refine addChunks_has_room arriving described (fun x => ?_) ended (by simpa using room) full
    rw [tally_nil]
    exact tally_le_one_of_pairwise apart
  · cases ran

/-- There are no more holes than live blocks, chunks and a swap area, and where these are
fewer than the slots `free_mem` does not panic. Nothing else does. -/
structure Bounded (c : Constants) (k : Nat) (w : World) : Prop where
  holes : ∀ t live, Course c w t live → ∃ holes slots, Table c t holes slots ∧
    holes.length ≤ (nonempty live).length + k + 1
  room : ∀ t live base clicks, Frees c w t live base clicks → (nonempty live).length + k + 1 < c.nrHoles →
    freeMem c base clicks t ≠ .error .holeTableFull
  allocMem : ∀ clicks, Owned c w.owners w.state → allocMem c clicks w.state = .error .holeTableFull → FullAt c w
  swapOn : ∀ opened offset size, swapOn c opened offset size w.state = .error .holeTableFull → FullAt c w

theorem holes_bounded (reached : (booted c k).Reachable w) : Bounded c k w ∧
    (k + 1 < c.nrHoles → ∀ mproc replies last total, replies.length = k → Described replies →
      (chunks replies).Pairwise (fun e f => e.top ≤ f.base ∨ f.top ≤ e.base) → toClicks last.m1_i2 = 0 →
      memInit c (replies ++ [last]) total (static c mproc) ≠ .error .holeTableFull) := by
  obtain ⟨conserved, -, few⟩ := counted_of_reachable reached
  refine ⟨⟨fun t live course => ?_, fun t live base clicks frees room full => ?_, fun clicks owned full => ?_,
    fun opened offset size full => ?_⟩, ?_⟩
  · have managed := course.managed conserved
    obtain ⟨holes, slots, table, -⟩ := managed.lists
    have bound := holes_length_le managed table
    exact ⟨holes, slots, table, by omega⟩
  · have slots := nrHoles_le (frees.course.managed conserved) (freeMem_full full)
    omega
  · rw [allocMem_eq] at full
    obtain ⟨n, t, rmp, newBase, u, outs, member, bite, freed⟩ := rounds_full full
    exact ⟨u, _, _, _, .image owned outs member bite, freed⟩
  · obtain ⟨closed, fd, freed⟩ := swapOn_full full
    exact ⟨_, _, _, _, .area closed, freed⟩
  · rintro room mproc replies last total rfl described apart ended
    exact memInit_has_room described apart ended (by omega)

def middle : Constants := ⟨4, 0, 0, by decide⟩

def resting : Mproc := ⟨false, true, false, false, false, false, ⟨0, 10, 5⟩, ⟨5, 15, 0⟩⟩

theorem resting_image : resting.image = ⟨10, 5⟩ := by decide

/-- Two chunks and a swap area, a block that becomes the image of process 0, another for which
that process is swapped out, a third, and the second freed. -/
def swapDay : Except Fault ((State × Nat × Nat) × (SwapOn × State) × (Option Nat × State) × (Option Nat × State) ×
    (Option Nat × State) × State) := do
  let booted ← memInit middle (smallReplies ++ [⟨0, 0, 9⟩]) 0 (static middle fun _ => idle)
  let on ← swapOn middle (.ok 3) 0 8 booted.1
  let first ← allocMem middle 5 on.2
  let second ← allocMem middle 5 { first.2 with mproc := Function.update first.2.mproc 0 resting }
  let third ← allocMem middle 2 second.2
  let s ← freeMem middle 10 5 third.2
  .ok (booted, on, first, second, third, s)

theorem holes_bounded_swapped : ∃ w, (booted middle 2).Reachable w ∧ w.live = [⟨0, 2⟩, ⟨16, 5⟩] ∧
    (w.state.mproc 0).onswap = true ∧ Bounded middle 2 w := by
  have played : swapDay.toOption.any (fun day => day.2.1.1 = .done ∧ day.2.2.1.1 = some 10 ∧
      day.2.2.2.1.1 = some 10 ∧ day.2.2.2.2.1.1 = some 0 ∧ (∀ i < 4, (day.2.1.2.mproc i).candidate = false) ∧
      (∀ i < 4, i ≠ 0 → (day.2.2.1.2.mproc i).candidate = false) ∧
      (∀ i < 4, (day.2.2.2.1.2.mproc i).candidate = false) ∧ (day.2.2.2.2.2.mproc 0).onswap = true ∧
      (day.2.2.2.2.2.mproc 0).image = ⟨16, 5⟩) = true := by
    decide +kernel
  cases run : swapDay with
  | error e =>
    rw [run] at played
    cases played
  | ok day =>
    obtain ⟨⟨s₁, out⟩, ⟨r, s₂⟩, ⟨found₁, s₃⟩, ⟨found₂, s₄⟩, ⟨found₃, s₅⟩, s₆⟩ := day
    rw [run] at played
    simp only [Except.toOption, Option.any_some, decide_eq_true_eq] at played
    obtain ⟨rfl, rfl, rfl, rfl, idle₂, idle₃, idle₄, asleep, image⟩ := played
    simp only [swapDay, bind_eq_ok] at run
    obtain ⟨booted_, boot, on, turnedOn, first, took₁, second, took₂, third, took₃, s, gave, same⟩ := run
    cases same
    have start : (booted middle 2).Reachable ⟨s₁, [], [], chunks smallReplies⟩ :=
      .start ⟨⟨_, smallReplies, ⟨0, 0, 9⟩, 0, out, by unfold Described; decide, by decide, rfl, boot, rfl, rfl, rfl⟩, rfl⟩
    have nobody₂ : Owned middle [] s₂ := fun i turn candidate => absurd candidate (by simp [idle₂ i turn.2])
    have first := (start.next (Moves.swapOn turnedOn)).next (Moves.allocMem nobody₂ took₁)
    have loaded := first.next (@Moves.elsewhere middle _ (Function.update s₃.mproc 0 resting) [] [0] (by decide)
      (fun x => by simp [World.live, images, block, resting_image]))
    have owned₃ : Owned middle [0] { s₃ with mproc := Function.update s₃.mproc 0 resting } := fun i turn candidate => by
      by_contra other
      have apart : i ≠ 0 := by simpa using other
      simp [Function.update_of_ne apart, idle₃ i turn.2 apart] at candidate
    have owned₄ : Owned middle [0] s₄ := fun i turn candidate => absurd candidate (by simp [idle₄ i turn.2])
    have handedOut : (⟨10, 5⟩ : Extent) ∈ block 2 (some 0) ++ (block 5 (some 10) ++ []) := by decide
    have final := ((loaded.next (Moves.allocMem owned₃ took₂)).next (Moves.allocMem owned₄ took₃)).next
      (Moves.freeMem handedOut gave)
    refine ⟨_, final, ?_, asleep, (holes_bounded final).1⟩
    simp [World.live, images, image]
    rfl

end

end SoiStud.Memory
