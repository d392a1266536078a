import SoiStud.Memory.Replies
import SoiStud.Memory.WorstFit
import SoiStud.Memory.Fragmentation

/-! Memory and the swap area over a whole run of the memory manager.

A process is flagged `ONSWAP` exactly when its image lies in the swap area, and the
holes and the live blocks share out what was given, through swapping in either
direction and through `swap_off`. With worst fit this depends on the first hole, which
the search takes without looking where it lies.
-/

set_option autoImplicit false

namespace SoiStud.Memory
open Library

/-! ## Where `alloc_mem` and `swap_out` take memory -/

structure Sides (others : List Extent) (owners : List Nat) (s : State) : Prop where
  process : ∀ i ∈ owners, ∀ x, 0 < (s.mproc i).image.tally x → (s.swapBase ≤ x ↔ (s.mproc i).onswap = true)
  others : ∀ x, 0 < tally x others → x < s.swapBase

/-- With worst fit, the first hole lies in memory or is too short to be taken, and a process
that can be swapped out is not empty. -/
def SearchesMemory (c : Constants) (clicks : Nat) (s : State) : Prop :=
  s.worstFitFlag = 0 ∨
    HeadServes c clicks s ∧ ∀ i, InTurn c i → (s.mproc i).candidate = true → 0 < (s.mproc i).size

section
variable {c : Constants} {s s' t : State} {given others live : List Extent} {owners : List Nat} {rmp n clicks base : Nat}

theorem swapBase_of_settings (same : s'.settings = s.settings) : s'.swapBase = s.swapBase :=
  congrArg (fun settings => settings.2.2.1) same

theorem Sides.congr (sides : Sides others owners s) (swapBase : s'.swapBase = s.swapBase)
    (images : ∀ i ∈ owners, (s'.mproc i).image = (s.mproc i).image ∧ (s'.mproc i).onswap = (s.mproc i).onswap) :
    Sides others owners s' where
  process i member x inside := by
    rw [(images i member).1] at inside
    rw [swapBase, (images i member).2]
    exact sides.process i member x inside
  others x inside := swapBase ▸ sides.others x inside

theorem Sides.move {p : Mproc} (sides : Sides others owners s) (swapBase : s'.swapBase = s.swapBase)
    (moved : s'.mproc = Function.update s.mproc rmp p)
    (side : ∀ x, 0 < p.image.tally x → (s.swapBase ≤ x ↔ p.onswap = true)) : Sides others owners s' where
  process i member x inside := by
    rw [moved] at inside ⊢
    rw [swapBase]
    rcases eq_or_ne i rmp with rfl | other
    · rw [Function.update_self] at inside ⊢
      exact side x inside
    · rw [Function.update_of_ne other] at inside ⊢
      exact sides.process i member x inside
  others x inside := swapBase ▸ sides.others x inside

theorem SwapSteps.sides (steps : SwapSteps c rmp s s') (managed : Managed c given live s) (sides : Sides others owners s) :
    Sides others owners s' := by
  have settings := steps.swappedOut.settings
  obtain ⟨newBase, t, u, bite, freed, rfl⟩ := steps
  obtain ⟨moved, -⟩ := bite.kept
  obtain ⟨-, hp, prev, s₁, walked, present, bitten, -⟩ := bite
  obtain ⟨-, holes, slots, table, -, -⟩ := managed
  obtain ⟨hp', prev', again, ends⟩ := walk_ends (unfit s (s.mproc rmp)) none table
  cases again.symm.trans walked
  obtain ⟨-, -, fit⟩ := ends.resolve_left fun ended => present ended.1
  simp only [unfit, Bool.not_eq_false', Bool.and_eq_true, decide_eq_true_eq] at fit
  have high : s.swapBase ≤ newBase := (bite_kept bitten).1 ▸ fit.1
  have after : Function.update u.mproc rmp { u.mproc rmp with onswap := true } =
      Function.update s.mproc rmp { (s.mproc rmp).moveTo newBase with onswap := true } := by
    rw [(freeMem_kept freed).mproc_eq, moved, Function.update_self, Function.update_idem]
  refine sides.move (swapBase_of_settings settings) after fun x inside => iff_of_true ?_ rfl
  exact Nat.le_trans high (Extent.tally_pos_iff.mp inside).1

theorem SwappedOuts.sides (outs : SwappedOuts c n s t) (ready : Ready c given others owners s) (nodup : owners.Nodup)
    (sides : Sides others owners s) : Sides others owners t := by
  induction outs with
  | none => exact sides
  | more ran rest ih =>
    obtain ⟨rmp, -, steps⟩ := swapOut_steps ran
    obtain ⟨ready', -⟩ := (SwappedOuts.more ran .none).ready ready nodup
    exact ih ready' (steps.sides ready.managed sides)

theorem Sides.serving (sides : Sides others owners s) (ready : Ready c given others owners s) (nodup : owners.Nodup)
    (head : HeadServes c clicks s) (sizes : ∀ i, InTurn c i → (s.mproc i).candidate = true → 0 < (s.mproc i).size) :
    Serving c clicks given others owners s where
  standing := ⟨ready, nodup, sizes, head.1⟩
  head := head
  resident i turn candidate := by
    have some_ := sizes i turn candidate
    have inside : 0 < (s.mproc i).image.tally (s.mproc i).d.memPhys :=
      Extent.tally_pos_iff.mpr ⟨Nat.le_refl _, Nat.lt_add_of_pos_right some_⟩
    have side := sides.process i (ready.owned i turn candidate) _ inside
    rw [(candidate_flags candidate).2.2] at side
    simpa using side

/-- The block that `alloc_mem` hands out lies in memory. -/
theorem allocMem_low {found : Option Nat} (ready : Ready c given others owners s) (nodup : owners.Nodup)
    (sides : Sides others owners s) (separate : tally (s.swapBase - 1) given = 0) (searches : SearchesMemory c clicks s)
    (ran : allocMem c clicks s = .ok (found, s')) :
    Sides others owners s' ∧ ∀ base, found = some base → base + clicks < s.swapBase := by
  rw [allocMem_eq] at ran
  obtain ⟨n, t, outs, last⟩ := rounds_cases ran
  obtain ⟨ready', -⟩ := outs.ready ready nodup
  have sides' := outs.sides ready nodup sides
  have settings := outs.settings
  have swapBase := swapBase_of_settings settings
  have searched := policy_congr (c := c) clicks settings
  cases last with
  | gaveUp _ _ => exact ⟨sides', nofun⟩
  | @taken prev before rest hp base s' round bitten =>
    obtain ⟨same, kept⟩ := bite_kept bitten
    refine ⟨sides'.congr (swapBase_of_settings kept.settings_eq) fun i _ => by rw [kept.mproc_eq]; exact ⟨rfl, rfl⟩, ?_⟩
    rintro _ ⟨⟩
    obtain ⟨-, holes, slots, table, separated, -⟩ := ready'.managed
    rw [← searched] at round
    obtain ⟨located, enough⟩ := policy_found table separated round
    -- first fit looks below `swap_base` only; worst fit does so if it starts there
    have low : (t.hole hp).base < t.swapBase := by
      by_cases flag : t.worstFitFlag = 0
      · obtain ⟨out, rest', spec, found, -⟩ := firstRound_spec clicks prev table separated
        rw [policy, if_pos flag, spec] at round
        cases round
        exact (found hp before rfl).2.2
      · have same : t.worstFitFlag = s.worstFitFlag := congrArg (fun settings => settings.2.2.2.2) settings
        obtain ⟨head, sizes⟩ := searches.resolve_left (same ▸ flag)
        obtain ⟨serving, -⟩ := (sides.serving ready nodup head sizes).swappedOuts outs
        have some_ : holes ≠ [] := by
          intro none_
          exact serving.head.1 ((table.linked.list_eq_nil_iff).mp none_)
        obtain ⟨hp', before', rest', longest, spec⟩ := worstRound_spec clicks prev table separated some_
        rw [policy_worst flag, spec] at round
        split at round
        · cases round
          rcases longest.low_or_short table serving.head with low | short
          · exact low
          · exact absurd enough (Nat.not_le.mpr short)
        · cases round
    obtain ⟨front, back, whole, -⟩ := located
    have inside : hp ∈ holes := by
      rw [whole]
      simp
    have top := top_lt_of_low ready'.managed table inside (swapBase ▸ separate) low
    rw [same]
    omega

end

/-! ## The invariant -/

/-- The clicks of the manager, `boot` being those of the boot image and of the kernel's answers. -/
structure Placed (c : Constants) (boot : List Extent) (m : Mm) : Prop where
  managed : Managed c m.given m.world.live m.manager.state
  sides : Sides m.others m.owners m.manager.state
  positive : 0 < m.manager.state.swapBase
  below : ∀ e ∈ boot, e.top < m.manager.state.swapBase
  given : m.given = boot ∨
    m.manager.state.swapFd ≠ -1 ∧ ∃ len, m.given = ⟨m.manager.state.swapBase, len⟩ :: boot
  limit : m.manager.state.swapMaxsize = 0 ∨
    0 < m.manager.state.swapBase ∧ m.manager.state.swapBase + m.manager.state.swapMaxsize = clickRange
  turn : InTurn c m.manager.state.outswap

structure SameClicks (s s' : State) : Prop where
  kept : s' = { s with mproc := s'.mproc }
  flags : ∀ i, (s'.mproc i).image = (s.mproc i).image ∧ (s'.mproc i).onswap = (s.mproc i).onswap

section
variable {c : Constants} {boot : List Extent} {m m' : Mm} {s s' : State} {manager manager' : Manager} {rmp : Nat}

theorem SameClicks.refl (s : State) : SameClicks s s := ⟨rfl, fun _ => ⟨rfl, rfl⟩⟩

theorem SameClicks.putProc {p : Mproc} (image : p.image = (s.mproc rmp).image) (onswap : p.onswap = (s.mproc rmp).onswap) :
    SameClicks s (s.putProc rmp p) := by
  refine ⟨rfl, fun i => ?_⟩
  unfold State.putProc
  rcases eq_or_ne i rmp with rfl | other
  · simp [image, onswap]
  · simp [other]

theorem images_congr {owners : List Nat} {mproc mproc' : Nat → Mproc} (same : ∀ i ∈ owners, (mproc' i).image = (mproc i).image) :
    images owners mproc' = images owners mproc := List.map_congr_left same

theorem SameClicks.placed (same : SameClicks m.manager.state m'.manager.state) (placed : Placed c boot m)
    (rest : m'.others = m.others ∧ m'.owners = m.owners ∧ m'.given = m.given) : Placed c boot m' := by
  obtain ⟨others, owners, given⟩ := rest
  have live : m'.world.live = m.world.live := by
    change m'.others ++ images m'.owners m'.manager.state.mproc = m.others ++ images m.owners m.manager.state.mproc
    rw [others, owners, images_congr fun i _ => (same.flags i).1]
  have kept := same.kept
  refine ⟨?_, ?_, ?_, ?_, ?_, ?_, ?_⟩
  · rw [given, live]
    exact placed.managed.congr (by rw [kept]) (by rw [kept]) (by rw [kept]) fun _ => rfl
  · rw [others, owners]
    exact placed.sides.congr (by rw [kept]) fun i _ => same.flags i
  · rw [kept]
    exact placed.positive
  · rw [kept]
    exact placed.below
  · rw [given, kept]
    exact placed.given
  · rw [kept]
    exact placed.limit
  · rw [kept]
    exact placed.turn

theorem swapInqueue_state (ran : swapInqueue c rmp manager = .ok manager') : manager'.state = manager.state := by
  unfold swapInqueue at ran
  split at ran
  · cases ran
    rfl
  · obtain ⟨pmp, -, returned⟩ := bind_eq_ok.mp ran
    cases returned
    simp

theorem setreply_clicks {result : Int} (ran : setreply c rmp result manager = .ok manager') :
    SameClicks manager.state manager'.state := by
  have flag : SameClicks manager.state (manager.state.putProc rmp { manager.mproc rmp with reply := true }) := .putProc rfl rfl
  unfold setreply at ran
  dsimp only at ran
  split at ran
  · rw [swapInqueue_state ran]
    exact flag
  · cases ran
    exact flag

theorem queueAll_state {l : List Nat} (ran : queueAll c l manager = .ok manager') : manager'.state = manager.state := by
  induction l generalizing manager with
  | nil =>
    cases ran
    rfl
  | cons rmp rest ih =>
    rw [queueAll] at ran
    split at ran
    · obtain ⟨t, queued, ran⟩ := bind_eq_ok.mp ran
      exact (ih ran).trans (swapInqueue_state queued)
    · exact ih ran

theorem sendReply_clicks {procNr : Nat} {out : Option Int} (ran : sendReply procNr manager = (out, manager')) :
    SameClicks manager.state manager'.state := by
  rcases sendReply_eq procNr manager with ⟨none_, -⟩ | ⟨-, -, sent⟩
  · rw [none_] at ran
    cases ran
    exact .refl _
  · rw [sent] at ran
    cases ran
    exact .putProc rfl rfl

end

/-! ## One step -/

section
variable {c : Constants} {boot : List Extent} {m m' : Mm} {s s' : State} {queue : List Nat} {rmp clicks : Nat}

theorem Waiting.ownedBlocked (waiting : Waiting c m queue) : Owned c m.owners m.manager.state := by
  intro i _ candidate
  by_contra stranger
  have blocked : (m.manager.mproc i).blocked = true := (candidate_flags candidate).1
  rw [waiting.idle i stranger] at blocked
  cases blocked

theorem Placed.boot_below (placed : Placed c boot m) {x : Nat} (inside : 0 < tally x boot) :
    x + 1 < m.manager.state.swapBase := by
  obtain ⟨e, member, -, before⟩ := mem_units_iff.mpr inside
  exact Nat.lt_of_le_of_lt before (placed.below e member)

theorem Placed.room (placed : Placed c boot m) : SwapRoom m.given m.manager.state := by
  intro closed
  rcases placed.given with same | ⟨opened, -⟩
  · rcases placed.limit with none_ | ⟨positive, total⟩
    · exact .inl none_
    · exact .inr ⟨positive, total, fun x inside => placed.boot_below (same ▸ inside)⟩
  · exact absurd closed opened

/-- Nobody has the click between memory and the swap area. -/
theorem Placed.separate (placed : Placed c boot m) : tally (m.manager.state.swapBase - 1) m.given = 0 := by
  have positive := placed.positive
  have outside : tally (m.manager.state.swapBase - 1) boot = 0 := by
    by_contra inside
    have below := placed.boot_below (Nat.pos_of_ne_zero inside)
    omega
  rcases placed.given with same | ⟨-, len, same⟩
  · rw [same]
    exact outside
  · have above : ¬ 0 < (⟨m.manager.state.swapBase, len⟩ : Extent).tally (m.manager.state.swapBase - 1) := by
      rw [Extent.tally_pos_iff]
      rintro ⟨start, -⟩
      change m.manager.state.swapBase ≤ m.manager.state.swapBase - 1 at start
      omega
    rw [same, tally_cons, outside]
    omega

theorem Placed.settled (placed : Placed c boot m) (managed : Managed c m'.given m'.world.live m'.manager.state)
    (sides : Sides m'.others m'.owners m'.manager.state) (settings : m'.manager.state.settings = m.manager.state.settings)
    (turn : InTurn c m'.manager.state.outswap) (given : m'.given = m.given) : Placed c boot m' := by
  obtain ⟨fd, offset, base, limit, flag⟩ : m'.manager.state.swapFd = m.manager.state.swapFd ∧
      m'.manager.state.swapOffset = m.manager.state.swapOffset ∧ m'.manager.state.swapBase = m.manager.state.swapBase ∧
      m'.manager.state.swapMaxsize = m.manager.state.swapMaxsize ∧
      m'.manager.state.worstFitFlag = m.manager.state.worstFitFlag := by
    simpa [State.settings] using settings
  refine ⟨managed, sides, base ▸ placed.positive, ?_, ?_, ?_, turn⟩
  · rw [base]
    exact placed.below
  · rw [given, fd, base]
    exact placed.given
  · rw [limit, base]
    exact placed.limit

theorem Placed.takes {found : Option Nat} (placed : Placed c boot m) (waiting : Waiting c m queue)
    (searches : SearchesMemory c clicks m.manager.state)
    (ran : allocMem c clicks m.manager.state = .ok (found, s')) :
    Managed c m.given (block clicks found ++ (m.others ++ images m.owners s'.mproc)) s' ∧ Sides m.others m.owners s' ∧
      s'.settings = m.manager.state.settings ∧ InTurn c s'.outswap ∧
      ∀ base, found = some base → base + clicks < m.manager.state.swapBase := by
  have ready : Ready c m.given m.others m.owners m.manager.state := ⟨placed.managed, waiting.ownedBlocked, placed.turn⟩
  obtain ⟨sides, low⟩ := allocMem_low ready waiting.nodup placed.sides placed.separate searches ran
  rcases allocMem_spec clicks ready waiting.nodup with full | unset | ⟨t, none_, ready', same⟩ | ⟨base, t, taken, ready', same⟩
  · rw [full] at ran
    cases ran
  · rw [unset] at ran
    cases ran
  · rw [none_] at ran
    cases ran
    exact ⟨ready'.managed, sides, same, ready'.turn, low⟩
  · rw [taken] at ran
    cases ran
    exact ⟨ready'.managed, sides, same, ready'.turn, low⟩

/-- The process takes the block, and what it had on swap is free. -/
theorem bringIn_managed {given others : List Extent} {owners : List Nat} {newBase : Nat}
    (managed : Managed c given (⟨newBase, (s.mproc rmp).size⟩ :: (others ++ images owners s.mproc)) s)
    (nodup : owners.Nodup) (member : rmp ∈ owners) (ran : bringIn c rmp (s.mproc rmp).size newBase s = .ok s') :
    Managed c given (others ++ images owners s'.mproc) s' ∧ s'.settings = s.settings ∧ s'.outswap = s.outswap := by
  have mproc := bringIn_mproc ran
  rw [bringIn, bind_eq_ok] at ran
  obtain ⟨t, freed, returned⟩ := ran
  cases returned
  let moved : State := s.putProc rmp ((s.mproc rmp).moveTo newBase)
  have before : Managed c given (⟨newBase, (s.mproc rmp).size⟩ :: (others ++ images owners s.mproc)) moved :=
    managed.congr rfl rfl rfl fun _ => rfl
  rcases freeMem_managed before (tally_moved nodup member s.mproc newBase) with full | ⟨t', done, managed', kept⟩
  · rw [full] at freed
    cases freed
  · obtain rfl := Except.ok.inj (done.symm.trans freed)
    refine ⟨managed'.congr rfl rfl rfl fun x => ?_, kept.settings_eq, kept.outswap_eq⟩
    rw [mproc]
    congr 2
    apply images_congr
    intro i _
    rcases eq_or_ne i rmp with rfl | other
    · rw [Function.update_self, Function.update_self]
      rfl
    · rw [Function.update_of_ne other, Function.update_of_ne other]

theorem Placed.swapOn {opened : Except Int Nat} {offset size : Nat} {r : SwapOn} (placed : Placed c boot m)
    (ran : swapOn c opened offset size m.manager.state = .ok (r, s')) :
    Placed c boot { m with
      manager := { m.manager with state := s' }, given := swapArea c m.manager.state size r ++ m.given } := by
  obtain ⟨managed, room, mproc, outswap⟩ := swapOn_spec placed.managed placed.room ran
  obtain ⟨-, base, limit⟩ := swapOn_frame ran
  have live : m.others ++ images m.owners s'.mproc = m.world.live := by
    rw [mproc]
    rfl
  refine ⟨?_, ?_, base ▸ placed.positive, fun e member => ?_, ?_, ?_, ?_⟩
  · exact managed.congr rfl rfl rfl fun x => congrArg (tally x) live
  · exact placed.sides.congr base fun i _ => by simp [mproc]
  · change e.top < s'.swapBase
    rw [base]
    exact placed.below e member
  · change swapArea c m.manager.state size r ++ m.given = boot ∨
      s'.swapFd ≠ -1 ∧ ∃ len, swapArea c m.manager.state size r ++ m.given = ⟨s'.swapBase, len⟩ :: boot
    -- swapping was on already, or the area is added now
    rcases swapOn_once ran with ⟨same, none_⟩ | ⟨closed, opened, single⟩
    · rw [none_, base, same, List.nil_append]
      exact placed.given
    · refine .inr ⟨opened, ?_⟩
      have given : m.given = boot := placed.given.resolve_right fun open_ => open_.1 closed
      cases r with
      | done => exact ⟨swapSize c m.manager.state size, by rw [given, base]; rfl⟩
      | busy => cases single
      | failed errno => cases single
  · change s'.swapMaxsize = 0 ∨ 0 < s'.swapBase ∧ s'.swapBase + s'.swapMaxsize = clickRange
    rw [limit, base]
    exact placed.limit
  · change InTurn c s'.outswap
    rw [outswap]
    exact placed.turn

theorem Placed.doWorstFit (placed : Placed c boot m) (flag : Int) :
    Placed c boot { m with manager := { m.manager with state := doWorstFit flag m.manager.state } } := by
  unfold Memory.doWorstFit
  split
  · exact ⟨placed.managed.congr rfl rfl rfl fun _ => rfl, placed.sides.congr rfl fun _ _ => ⟨rfl, rfl⟩, placed.positive,
      placed.below, placed.given, placed.limit, placed.turn⟩
  · exact placed

theorem Placed.allocated {found : Option Nat} (placed : Placed c boot m) (waiting : Waiting c m queue)
    (searches : SearchesMemory c clicks m.manager.state)
    (ran : allocMem c clicks m.manager.state = .ok (found, s')) :
    Placed c boot { m with manager := { m.manager with state := s' }, others := block clicks found ++ m.others } := by
  obtain ⟨managed, sides, settings, turn, low⟩ := placed.takes waiting searches ran
  refine placed.settled ?_ ⟨sides.process, fun x held => ?_⟩ settings turn rfl
  · change Managed c m.given ((block clicks found ++ m.others) ++ images m.owners s'.mproc) s'
    rw [List.append_assoc]
    exact managed
  · change 0 < tally x (block clicks found ++ m.others) at held
    change x < s'.swapBase
    rw [swapBase_of_settings settings]
    rw [tally_append] at held
    rcases Nat.eq_zero_or_pos (tally x m.others) with none_ | some_
    · cases found with
      | none => simp [block, none_] at held
      | some base =>
        have within : 0 < (⟨base, clicks⟩ : Extent).tally x := by simpa [block, none_] using held
        exact Nat.lt_trans (Extent.tally_pos_iff.mp within).2 (low base rfl)
    · exact placed.sides.others x some_

theorem Placed.freed {base : Nat} (placed : Placed c boot m) (member : ⟨base, clicks⟩ ∈ m.others)
    (ran : freeMem c base clicks m.manager.state = .ok s') :
    Placed c boot { m with manager := { m.manager with state := s' }, others := m.others.erase ⟨base, clicks⟩ } := by
  have others (x : Nat) : tally x m.others = (⟨base, clicks⟩ : Extent).tally x + tally x (m.others.erase ⟨base, clicks⟩) :=
    (tally_perm (List.perm_cons_erase member)).trans (tally_cons)
  have freed (x : Nat) : tally x m.world.live = (⟨base, clicks⟩ : Extent).tally x +
      tally x (m.others.erase ⟨base, clicks⟩ ++ images m.owners m.manager.state.mproc) := by
    change tally x (m.others ++ images m.owners m.manager.state.mproc) = _
    rw [tally_append, tally_append, others, Nat.add_assoc]
  rcases freeMem_managed placed.managed freed with full | ⟨t, done, managed, kept⟩
  · cases full.symm.trans ran
  · obtain rfl := Except.ok.inj (done.symm.trans ran)
    have swapBase := swapBase_of_settings kept.settings_eq
    refine placed.settled ?_ ⟨fun i member x held => ?_, fun x held => ?_⟩ kept.settings_eq ?_ rfl
    · refine managed.congr rfl rfl rfl fun x => ?_
      change tally x (m.others.erase ⟨base, clicks⟩ ++ images m.owners t.mproc) = _
      rw [kept.mproc_eq]
    · change 0 < ((t.mproc i).image).tally x at held
      change t.swapBase ≤ x ↔ (t.mproc i).onswap = true
      rw [kept.mproc_eq] at held ⊢
      rw [swapBase]
      exact placed.sides.process i member x held
    · change x < t.swapBase
      rw [swapBase]
      apply placed.sides.others
      rw [others]
      exact Nat.lt_of_lt_of_le held (Nat.le_add_left _ _)
    · change InTurn c t.outswap
      rw [kept.outswap_eq]
      exact placed.turn

theorem Placed.memory {event : Event} {w : World} (placed : Placed c boot m) (waiting : Waiting c m queue)
    (searches : ∀ clicks found, event = .allocMem clicks found → SearchesMemory c clicks m.manager.state)
    (inside : event ≠ .elsewhere) (moves : Moves c m.world event w) : Placed c boot (m.withWorld w) := by
  cases moves with
  | swapOn ran => exact placed.swapOn ran
  | @doWorstFit flag => exact placed.doWorstFit flag
  | allocMem _ ran => exact placed.allocated waiting (searches _ _ rfl) ran
  | freeMem member ran => exact placed.freed member ran
  | elsewhere => exact absurd rfl inside

theorem Placed.exit (placed : Placed c boot m) (nodup : m.owners.Nodup) (member : rmp ∈ m.owners)
    (ran : freeMem c (m.manager.mproc rmp).image.base (m.manager.mproc rmp).image.len m.manager.state = .ok s)
    (final : m' = { m with
      manager := { m.manager with
        state := s.putProc rmp (s.mproc rmp).exited
        swapin := Function.update m.manager.swapin rmp false }
      owners := m.owners.erase rmp }) : Placed c boot m' := by
  subst final
  have others (i : Nat) (member : i ∈ m.owners.erase rmp) : i ∈ m.owners ∧
      (s.putProc rmp (s.mproc rmp).exited).mproc i = s.mproc i := by
    have other : i ≠ rmp := fun same => nodup.not_mem_erase (same ▸ member)
    exact ⟨List.mem_of_mem_erase member, Function.update_of_ne other _ _⟩
  -- the image of the process is what is freed, and nobody else has it
  have freed (x : Nat) : tally x m.world.live =
      (⟨(m.manager.mproc rmp).image.base, (m.manager.mproc rmp).image.len⟩ : Extent).tally x +
        tally x (m.others ++ images (m.owners.erase rmp) m.manager.state.mproc) := by
    have image : tally x (images m.owners m.manager.state.mproc) =
        (m.manager.mproc rmp).image.tally x + tally x (images (m.owners.erase rmp) m.manager.state.mproc) :=
      (tally_perm ((List.perm_cons_erase member).map _)).trans (tally_cons)
    change tally x (m.others ++ images m.owners m.manager.state.mproc) =
      (m.manager.mproc rmp).image.tally x + tally x (m.others ++ images (m.owners.erase rmp) m.manager.state.mproc)
    rw [tally_append, tally_append, image]
    omega
  rcases freeMem_managed placed.managed freed with full | ⟨t, done, managed, kept⟩
  · cases full.symm.trans ran
  · obtain rfl := Except.ok.inj (done.symm.trans ran)
    have swapBase := swapBase_of_settings kept.settings_eq
    refine placed.settled ?_ ⟨fun i member x held => ?_, fun x held => ?_⟩ kept.settings_eq ?_ rfl
    · refine managed.congr rfl rfl rfl fun x => ?_
      change tally x (m.others ++ images (m.owners.erase rmp) (t.putProc rmp (t.mproc rmp).exited).mproc) = _
      rw [images_congr fun i member => congrArg Mproc.image (others i member).2, kept.mproc_eq]
    · obtain ⟨was, same⟩ := others i member
      change 0 < ((t.putProc rmp (t.mproc rmp).exited).mproc i).image.tally x at held
      change t.swapBase ≤ x ↔ ((t.putProc rmp (t.mproc rmp).exited).mproc i).onswap = true
      rw [same, kept.mproc_eq] at held ⊢
      rw [swapBase]
      exact placed.sides.process i was x held
    · change x < t.swapBase
      rw [swapBase]
      exact placed.sides.others x held
    · change InTurn c t.outswap
      rw [kept.outswap_eq]
      exact placed.turn

theorem tally_images_partition (owners : List Nat) (mproc : Nat → Mproc) (x : Nat) :
    tally x (images owners mproc) = tally x (images (owners.filter fun i => (mproc i).onswap) mproc) +
      tally x (images (owners.filter fun i => !(mproc i).onswap) mproc) := by
  have perm := (List.filter_append_perm (fun i => (mproc i).onswap) owners).map fun i => (mproc i).image
  rw [List.map_append] at perm
  exact (tally_perm perm).symm.trans (tally_append)

theorem Sides.live_high {others : List Extent} {owners : List Nat} {x : Nat} (sides : Sides others owners s)
    (high : s.swapBase ≤ x) : tally x (others ++ images owners s.mproc) =
      tally x (images (owners.filter fun i => (s.mproc i).onswap) s.mproc) := by
  have none_ : tally x others = 0 := by
    by_contra inside
    exact absurd (sides.others x (Nat.pos_of_ne_zero inside)) (Nat.not_lt.mpr high)
  have low : tally x (images (owners.filter fun i => !(s.mproc i).onswap) s.mproc) = 0 := by
    by_contra inside
    obtain ⟨e, held, within⟩ := mem_units_iff.mpr (Nat.pos_of_ne_zero inside)
    obtain ⟨i, member, rfl⟩ := List.mem_map.mp held
    obtain ⟨member, inMemory⟩ := List.mem_filter.mp member
    have side := (sides.process i member x (Extent.tally_pos_iff.mpr within)).mp high
    simp [side] at inMemory
  rw [tally_append, tally_images_partition, none_, low]
  omega

theorem Placed.elsewhere (placed : Placed c boot m) (waiting : Waiting c m queue) (outside : Elsewhere c m m') :
    Placed c boot m' := by
  have settings : m'.manager.state.settings = m.manager.state.settings := by rw [outside.settings]; rfl
  have swapBase := swapBase_of_settings settings
  have swapped (i : Nat) : i ∈ m'.owners.filter (fun i => (m'.manager.state.mproc i).onswap) ↔
      i ∈ m.owners.filter fun i => (m.manager.state.mproc i).onswap := by
    rw [List.mem_filter, List.mem_filter]
    constructor
    · rintro ⟨member, out⟩
      by_cases old : i ∈ m.owners
      · exact ⟨old, (outside.old i old).2.2.1 ▸ out⟩
      · rw [show (m'.manager.state.mproc i).onswap = false from (outside.new i member old).2.2] at out
        cases out
    · rintro ⟨old, out⟩
      obtain ⟨member, -, same, -⟩ := outside.old i old
      exact ⟨member, same.trans out⟩
  have perm : (m'.owners.filter fun i => (m'.manager.state.mproc i).onswap).Perm
      (m.owners.filter fun i => (m.manager.state.mproc i).onswap) :=
    (List.perm_ext_iff_of_nodup (outside.nodup.filter _) (waiting.nodup.filter _)).mpr swapped
  have still (i : Nat) (member : i ∈ m.owners.filter fun i => (m.manager.state.mproc i).onswap) :
      (m'.manager.state.mproc i).image = (m.manager.state.mproc i).image := by
    obtain ⟨old, out⟩ := List.mem_filter.mp member
    exact (outside.old i old).2.2.2 out
  -- above `swap_base` nothing is left for anyone else
  have rest (x : Nat) (high : m.manager.state.swapBase ≤ x) : tally x m'.others = 0 ∧
      tally x (images (m'.owners.filter fun i => !(m'.manager.state.mproc i).onswap) m'.manager.state.mproc) = 0 := by
    have before := placed.sides.live_high high
    have balance : tally x (m'.others ++ images m'.owners m'.manager.state.mproc) =
        tally x (m.others ++ images m.owners m.manager.state.mproc) := outside.balance x
    have same : tally x (images (m'.owners.filter fun i => (m'.manager.state.mproc i).onswap) m'.manager.state.mproc) =
        tally x (images (m.owners.filter fun i => (m.manager.state.mproc i).onswap) m.manager.state.mproc) := by
      rw [← images_congr still]
      exact tally_perm (perm.map _)
    rw [tally_append, tally_images_partition, same, before] at balance
    omega
  refine placed.settled ?_ ⟨fun i member x held => ?_, fun x held => ?_⟩ settings ?_ outside.rest.2.2.1
  · rw [outside.rest.2.2.1]
    exact placed.managed.congr (by rw [outside.settings]) (by rw [outside.settings]) (by rw [outside.settings]) outside.balance
  · rw [swapBase]
    constructor
    · intro high
      by_contra inMemory
      have listed : (m'.manager.state.mproc i).image ∈
          images (m'.owners.filter fun i => !(m'.manager.state.mproc i).onswap) m'.manager.state.mproc :=
        List.mem_map_of_mem (List.mem_filter.mpr ⟨member, by simpa using inMemory⟩)
      have within := tally_le_of_mem (x := x) listed
      have none_ := (rest x high).2
      omega
    · intro out
      have listed := (swapped i).mp (List.mem_filter.mpr ⟨member, out⟩)
      obtain ⟨old, out⟩ := List.mem_filter.mp listed
      rw [still i listed] at held
      exact (placed.sides.process i old x held).mpr out
  · rw [swapBase]
    by_contra high
    have none_ := (rest x (Nat.not_lt.mp high)).1
    omega
  · rw [outside.settings]
    exact placed.turn

theorem Acts.placed {a : Act} (acts : Acts c m a m') (placed : Placed c boot m) (waiting : Waiting c m queue)
    (searches : ∀ clicks found, a = .memory (.allocMem clicks found) → SearchesMemory c clicks m.manager.state) :
    Placed c boot m' := by
  cases acts with
  | memory inside moves =>
    exact placed.memory waiting (fun clicks found same => searches clicks found (congrArg _ same)) inside moves
  | setreply _ ran => exact (setreply_clicks ran).placed placed ⟨rfl, rfl, rfl⟩
  | @swapInqueue rmp manager _ ran =>
    have same : SameClicks m.manager.state manager.state := by
      rw [swapInqueue_state ran]
      exact .refl _
    exact same.placed placed ⟨rfl, rfl, rfl⟩
  | exit member ran => exact placed.exit waiting.nodup member ran rfl
  | elsewhere outside => exact placed.elsewhere waiting outside

/-- A round of `swap_in`: the process moves into the block, and its place on swap becomes a hole. -/
theorem Placed.round {pmp : Option Nat} {ends : SwapIn} {manager : Manager} (placed : Placed c boot m)
    (waiting : Waiting c m queue) (searches : m.manager.deref pmp ≠ c.null →
      SearchesMemory c (m.manager.mproc (m.manager.deref pmp)).size m.manager.state)
    (ran : swapInRound c pmp m.manager = .ok (ends, manager)) : Placed c boot { m with manager := manager } := by
  unfold swapInRound at ran
  dsimp only at ran
  split at ran
  next =>
    cases ran
    exact placed
  next present =>
    cases marked : m.manager.swapin (m.manager.deref pmp) with
    | false =>
      rw [marked, if_pos (by rfl)] at ran
      cases ran
      have same : SameClicks m.manager.state (m.manager.assign pmp (m.manager.swapq (m.manager.deref pmp))).state := by
        rw [assign_state]
        exact .refl _
      exact same.placed placed ⟨rfl, rfl, rfl⟩
    | true =>
      rw [marked, if_neg (by simp), bind_eq_ok] at ran
      obtain ⟨⟨found, s⟩, allocated, ran⟩ := ran
      -- the process is on swap, so the search does not move it
      obtain ⟨managed, sides, settings, turn, low⟩ := placed.takes waiting (searches present) allocated
      cases found with
      | none =>
        cases ran
        exact placed.settled managed sides settings turn rfl
      | some newBase =>
        dsimp only at ran
        rw [bind_eq_ok] at ran
        obtain ⟨t, brought, returned⟩ := ran
        cases returned
        have out := (waiting.marked _ marked).2
        have still : s.mproc (m.manager.deref pmp) = m.manager.mproc (m.manager.deref pmp) :=
          (allocMem_sweptOut allocated).still _ out
        rw [← still] at managed brought low
        obtain ⟨managed', settings', outswap⟩ := bringIn_managed managed waiting.nodup (waiting.owned _ out) brought
        have sides' : Sides m.others m.owners t := by
          refine sides.move (swapBase_of_settings settings') (bringIn_mproc brought) fun x held => iff_of_false ?_ (by simp)
          rw [swapBase_of_settings settings]
          exact Nat.not_le.mpr (Nat.lt_trans (Extent.tally_pos_iff.mp held).2 (low newBase rfl))
        refine placed.settled ?_ ?_ ?_ ?_ rfl
        · refine Managed.congr (s := t) managed' ?_ ?_ ?_ fun x => ?_ <;> simp [Mm.world, World.live]
        · exact sides'.congr (by simp) fun i _ => by simp
        · rw [assign_state]
          exact settings'.trans settings
        · rw [assign_state]
          exact outswap ▸ turn

end

end SoiStud.Memory
