import SoiStud.Library.Population
import SoiStud.Memory.Table
import Mathlib.Data.List.Perm.Basic

/-! Where the clicks are while blocks are allocated, freed and moved to the swap area.

Biting a piece off a hole makes a live block of it, `free_mem` makes a hole of a
live block, and swapping a process out does both with an image of one size.
-/

set_option autoImplicit false

namespace SoiStud.Memory

open Library

variable {c : Constants} {given live live' others : List Extent} {s s' t : State} {holes slots : List Nat}
  {hp rmp : Nat} {prev : Option Nat}

/-- The holes are separated, and each click that was given is either in a hole or in a live block. -/
structure Managed (c : Constants) (given live : List Extent) (s : State) : Prop where
  fits : Fits clickRange given
  lists : ∃ holes slots, Table c s holes slots ∧ Separated (extents s holes) ∧
    ∀ x, tally x (extents s holes) + tally x live = tally x given

theorem Managed.congr (managed : Managed c given live s) (hole : s'.hole = s.hole) (head : s'.holeHead = s.holeHead)
    (free : s'.freeSlots = s.freeSlots) (same : ∀ x, tally x live' = tally x live) : Managed c given live' s' := by
  obtain ⟨fits, holes, slots, table, separated, balance⟩ := managed
  have clicks : extents s' holes = extents s holes := by rw [extents, hole]; rfl
  refine ⟨fits, holes, slots, table.relink (fun i => by rw [State.next, hole]; rfl) head free, clicks ▸ separated, ?_⟩
  intro x
  rw [clicks, same]
  exact balance x

def State.settings (s : State) : Int × Nat × Nat × Nat × Int :=
  (s.swapFd, s.swapOffset, s.swapBase, s.swapMaxsize, s.worstFitFlag)

theorem Kept.settings_eq (kept : Kept s s') : s'.settings = s.settings := by rw [kept]; rfl

theorem Kept.mproc_eq (kept : Kept s s') : s'.mproc = s.mproc := by rw [kept]

theorem Kept.outswap_eq (kept : Kept s s') : s'.outswap = s.outswap := by rw [kept]

/-- A live block that is freed is live no more, unless there is no slot for it. -/
theorem freeMem_managed {base clicks : Nat} (managed : Managed c given live s)
    (freed : ∀ x, tally x live = (⟨base, clicks⟩ : Extent).tally x + tally x live') :
    freeMem c base clicks s = .error .holeTableFull ∨
      ∃ s', freeMem c base clicks s = .ok s' ∧ Managed c given live' s' ∧ Kept s s' := by
  obtain ⟨fits, holes, slots, table, separated, balance⟩ := managed
  by_cases none_ : clicks = 0
  · refine .inr ⟨s, if_pos none_, ⟨fits, holes, slots, table, separated, fun x => ?_⟩, .refl s⟩
    have held := balance x
    have same := freed x
    have empty : (⟨base, clicks⟩ : Extent).tally x = 0 := by simp [Extent.tally, Extent.top, none_]
    omega
  · by_cases room : slots = []
    · have full : s.freeSlots = c.nil := (table.free.list_eq_nil_iff).mp room
      exact .inl (by rw [freeMem, if_neg none_, if_pos full])
    · have few : Fits clickRange (⟨base, clicks⟩ :: extents s holes) := fits.mono fun x => by
        have held := balance x
        have same := freed x
        rw [tally_cons]
        omega
      obtain ⟨s', holes', slots', ran, added⟩ := freeMem_spec table separated few none_ room
      refine .inr ⟨s', ran, ⟨fits, holes', slots', added.table, added.separated, fun x => ?_⟩, added.kept⟩
      have held := balance x
      have same := freed x
      have total := added.tally x
      omega

def Located (holes : List Nat) (hp : Nat) (prev : Option Nat) : Prop :=
  ∃ before after, holes = before ++ hp :: after ∧ Precedes prev before

theorem walk_ends (onward : Hole → Bool) (prev : Option Nat) (table : Table c s holes slots) :
    ∃ hp pred, walk c s onward (c.nrHoles + 1) s.holeHead prev = .ok (hp, pred) ∧
      ((hp = c.nil ∧ ∀ i ∈ holes, onward (s.hole i) = true) ∨
        (hp ≠ c.nil ∧ Located holes hp pred ∧ onward (s.hole hp) = false)) := by
  obtain ⟨passed, rest, hp, ran, rfl, chain, all, stop⟩ :=
    walk_spec prev onward table.linked (Nat.lt_succ_of_le table.length_le)
  refine ⟨hp, _, ran, ?_⟩
  cases rest with
  | nil => exact .inl ⟨chain.eq_nil, by simpa using all⟩
  | cons i after =>
    obtain rfl := chain.head_eq
    exact .inr ⟨chain.ne_nil, ⟨passed, after, rfl, precedes_getLast? passed prev⟩, stop hp rfl⟩

theorem bite_managed {clicks : Nat} (fits : Fits clickRange given) (table : Table c s holes slots)
    (separated : Separated (extents s holes)) (balance : ∀ x, tally x (extents s holes) + tally x live = tally x given)
    (located : Located holes hp prev) (enough : clicks ≤ (s.hole hp).len) :
    ∃ s', bite clicks hp prev s = .ok ((s.hole hp).base, s') ∧
      Managed c given (⟨(s.hole hp).base, clicks⟩ :: live) s' ∧ Kept s s' := by
  obtain ⟨before, after, rfl, pred⟩ := located
  have few : Fits clickRange (extents s (before ++ hp :: after)) := fits.mono fun x => by
    have held := balance x
    omega
  have nonempty : 0 < (s.hole hp).extent.len := separated.nonempty _ (by simp)
  have top := few.top_le (e := (s.hole hp).extent) (by simp) nonempty
  obtain ⟨s', holes', slots', ran, table', clicks', kept⟩ := bite_spec table pred enough top
  rw [extents_append, extents_cons] at separated
  refine ⟨s', ran, ⟨fits, holes', slots', table', clicks' ▸ separated_cut separated enough, fun x => ?_⟩, kept⟩
  have held := balance x
  have cut := tally_cut (x := x) (e := (s.hole hp).extent) enough
  rw [clicks']
  simp only [extents_append, extents_cons, tally_append, tally_cons, Hole.extent] at held cut ⊢
  omega

def Mproc.image (p : Mproc) : Extent := ⟨p.d.memPhys, p.size⟩

def images (owners : List Nat) (mproc : Nat → Mproc) : List Extent := owners.map fun i => (mproc i).image

theorem tally_images_update {owners : List Nat} {i : Nat} (nodup : owners.Nodup) (member : i ∈ owners)
    (mproc : Nat → Mproc) (p : Mproc) (x : Nat) :
    tally x (images owners (Function.update mproc i p)) + (mproc i).image.tally x =
      tally x (images owners mproc) + p.image.tally x := by
  have split_ (m : Nat → Mproc) : tally x (images owners m) = (m i).image.tally x + tally x (images (owners.erase i) m) :=
    tally_perm ((List.perm_cons_erase member).map fun j => (m j).image)
  have others : images (owners.erase i) (Function.update mproc i p) = images (owners.erase i) mproc :=
    List.map_congr_left fun j listed => by
      have other : j ≠ i := fun same => (List.Nodup.not_mem_erase nodup) (same ▸ listed)
      rw [Function.update_of_ne other]
  rw [split_, split_ mproc, others, Function.update_self]
  omega

theorem tally_moved {owners : List Nat} {rmp : Nat} (nodup : owners.Nodup) (member : rmp ∈ owners)
    (mproc : Nat → Mproc) (base x : Nat) :
    tally x (⟨base, (mproc rmp).size⟩ :: (others ++ images owners mproc)) =
      (mproc rmp).image.tally x +
        tally x (others ++ images owners (Function.update mproc rmp ((mproc rmp).moveTo base))) := by
  have update := tally_images_update nodup member mproc ((mproc rmp).moveTo base) x
  have image : ((mproc rmp).moveTo base).image = ⟨base, (mproc rmp).size⟩ := rfl
  rw [image] at update
  simp only [tally_cons, tally_append]
  omega

structure SwappedOut (rmp : Nat) (s s' : State) : Prop where
  candidate : (s.mproc rmp).candidate = true
  settings : s'.settings = s.settings
  outswap : s'.outswap = rmp
  moved : ∃ base, s'.mproc = Function.update s.mproc rmp { (s.mproc rmp).moveTo base with onswap := true }

def unfit (s : State) (p : Mproc) (h : Hole) : Bool := !(h.base ≥ s.swapBase && h.len ≥ p.size)

structure SwapBite (c : Constants) (rmp : Nat) (s : State) (newBase : Nat) (t : State) : Prop where
  candidate : (s.mproc rmp).candidate = true
  taken : ∃ hp prev s₁, walk c s (unfit s (s.mproc rmp)) (c.nrHoles + 1) s.holeHead none = .ok (hp, prev) ∧ hp ≠ c.nil ∧
    bite (s.mproc rmp).size hp prev s = .ok (newBase, s₁) ∧ t = s₁.putProc rmp ((s.mproc rmp).moveTo newBase)

/-- How process `rmp` is swapped out. -/
def SwapSteps (c : Constants) (rmp : Nat) (s s' : State) : Prop :=
  ∃ newBase t u, SwapBite c rmp s newBase t ∧
    freeMem c (s.mproc rmp).d.memPhys (s.mproc rmp).size t = .ok u ∧
    s' = { u.putProc rmp { u.mproc rmp with onswap := true } with outswap := rmp }

/-- A process that is passed over is no candidate or fits into no hole of the swap area. -/
theorem trySwap_cases {out : Option State} (ran : trySwap c rmp s = .ok out) :
    (out = none ∧ ((s.mproc rmp).candidate = true →
      ∃ prev, walk c s (unfit s (s.mproc rmp)) (c.nrHoles + 1) s.holeHead none = .ok (c.nil, prev))) ∨
      ∃ s', out = some s' ∧ SwapSteps c rmp s s' := by
  unfold trySwap at ran
  by_cases candidate : (s.mproc rmp).candidate = true
  · simp only [candidate, Bool.not_true, Bool.false_eq_true, if_false] at ran
    obtain ⟨⟨hp, prev⟩, walked, ran⟩ := bind_eq_ok.mp ran
    by_cases ended : hp = c.nil
    · simp only [if_pos ended] at ran
      cases ran
      exact .inl ⟨rfl, fun _ => ⟨prev, ended ▸ walked⟩⟩
    · simp only [if_neg ended] at ran
      obtain ⟨⟨newBase, s₁⟩, bitten, ran⟩ := bind_eq_ok.mp ran
      obtain ⟨s₃, freed, ran⟩ := bind_eq_ok.mp ran
      cases ran
      exact .inr ⟨_, rfl, newBase, _, s₃, ⟨candidate, hp, prev, s₁, walked, ended, bitten, rfl⟩, freed, rfl⟩
  · simp only [Bool.eq_false_iff.mpr candidate, Bool.not_false, if_true] at ran
    cases ran
    exact .inl ⟨rfl, fun yes => absurd yes candidate⟩

theorem SwapBite.kept {newBase : Nat} (bite : SwapBite c rmp s newBase t) :
    t.mproc = Function.update s.mproc rmp ((s.mproc rmp).moveTo newBase) ∧ t.settings = s.settings := by
  obtain ⟨-, hp, prev, s₁, -, -, bitten, rfl⟩ := bite
  obtain ⟨-, kept⟩ := bite_kept bitten
  refine ⟨?_, kept.settings_eq⟩
  rw [← kept.mproc_eq]
  rfl

theorem SwapSteps.swappedOut (steps : SwapSteps c rmp s s') : SwappedOut rmp s s' := by
  obtain ⟨newBase, t, u, bite, freed, rfl⟩ := steps
  obtain ⟨moved, settings⟩ := bite.kept
  have kept := freeMem_kept freed
  refine ⟨bite.candidate, kept.settings_eq.trans settings, rfl, newBase, ?_⟩
  change Function.update u.mproc rmp { u.mproc rmp with onswap := true } = _
  rw [kept.mproc_eq, moved, Function.update_self, Function.update_idem]

theorem SwapBite.managed {owners : List Nat} {newBase : Nat} (bite : SwapBite c rmp s newBase t)
    (managed : Managed c given (others ++ images owners s.mproc) s) :
    Managed c given (⟨newBase, (s.mproc rmp).size⟩ :: (others ++ images owners s.mproc)) t := by
  obtain ⟨-, hp, prev, s₁, walked, present, bitten, rfl⟩ := bite
  obtain ⟨fits, holes, slots, table, separated, balance⟩ := managed
  obtain ⟨hp', prev', again, ends⟩ := walk_ends (unfit s (s.mproc rmp)) none table
  cases again.symm.trans walked
  obtain ⟨-, located, fit⟩ := ends.resolve_left fun ended => present ended.1
  simp only [unfit, Bool.not_eq_false', Bool.and_eq_true, decide_eq_true_eq] at fit
  obtain ⟨s₁', bitten', managed₁, -⟩ := bite_managed fits table separated balance located fit.2
  cases bitten'.symm.trans bitten
  exact managed₁.congr rfl rfl rfl fun x => rfl

theorem SwapBite.freed {owners : List Nat} {newBase : Nat} (bite : SwapBite c rmp s newBase t) (nodup : owners.Nodup)
    (member : rmp ∈ owners) (x : Nat) :
    tally x (⟨newBase, (s.mproc rmp).size⟩ :: (others ++ images owners s.mproc)) =
      (s.mproc rmp).image.tally x + tally x (others ++ images owners t.mproc) := by
  rw [bite.kept.1]
  exact tally_moved nodup member s.mproc newBase x

theorem images_update_same {i : Nat} {mproc : Nat → Mproc} {p : Mproc} (same : p.image = (mproc i).image) (owners : List Nat) :
    images owners (Function.update mproc i p) = images owners mproc := by
  refine List.map_congr_left fun j _ => ?_
  rw [Function.update_apply]
  split
  next here => exact here ▸ same
  next => rfl

theorem trySwap_spec {owners : List Nat} (managed : Managed c given (others ++ images owners s.mproc) s)
    (nodup : owners.Nodup) (owned : (s.mproc rmp).candidate = true → rmp ∈ owners) :
    trySwap c rmp s = .ok none ∨ trySwap c rmp s = .error .holeTableFull ∨
      ∃ s', trySwap c rmp s = .ok (some s') ∧ Managed c given (others ++ images owners s'.mproc) s' ∧
        SwappedOut rmp s s' := by
  unfold trySwap
  by_cases candidate : (s.mproc rmp).candidate = true
  · have before := managed
    obtain ⟨fits, holes, slots, table, separated, balance⟩ := before
    obtain ⟨hp, prev, walked, ended | ⟨present, located, fit⟩⟩ := walk_ends (unfit s (s.mproc rmp)) none table
    all_goals
      have searched := walked
      unfold unfit at searched
      simp only [candidate, Bool.not_true, Bool.false_eq_true, if_false, searched, ok_bind]
    · exact .inl (if_pos ended.1)
    · simp only [unfit, Bool.not_eq_false', Bool.and_eq_true, decide_eq_true_eq] at fit
      obtain ⟨s₁, bitten, -⟩ := bite_managed fits table separated balance located fit.2
      have bite : SwapBite c rmp s (s.hole hp).base _ := ⟨candidate, hp, prev, s₁, walked, present, bitten, rfl⟩
      rw [if_neg present]
      simp only [bitten, ok_bind]
      -- the block on swap is taken before the image is freed, so there may be no slot for the hole
      rcases freeMem_managed (bite.managed managed) (bite.freed nodup (owned candidate)) with
        full | ⟨u, done, managed', kept⟩
      · exact .inr (.inl (by rw [full]; rfl))
      · have steps : SwapSteps c rmp s _ := ⟨_, _, u, bite, done, rfl⟩
        rw [← kept.mproc_eq] at managed'
        have marked := images_update_same (p := { u.mproc rmp with onswap := true }) rfl owners
        refine .inr (.inr ⟨_, by rw [done]; rfl, ?_, steps.swappedOut⟩)
        exact managed'.congr rfl rfl rfl fun x => congrArg (fun l => tally x (others ++ l)) marked
  · left
    simp [candidate]

def InTurn (c : Constants) (i : Nat) : Prop := c.lowUser ≤ i ∧ i < c.nrProcs

theorem inTurn_of_mem_roundFrom {outswap i : Nat} (turn : InTurn c outswap) (member : i ∈ roundFrom c outswap) :
    InTurn c i := by
  unfold InTurn at *
  simp only [roundFrom, List.mem_append, List.mem_range'_1] at member
  omega

/-- The processes that may be swapped out are those whose clicks are live blocks. -/
def Owned (c : Constants) (owners : List Nat) (s : State) : Prop :=
  ∀ i, InTurn c i → (s.mproc i).candidate = true → i ∈ owners

theorem SwappedOut.owned {owners : List Nat} {rmp : Nat} (swapped : SwappedOut rmp s s') (owned : Owned c owners s) :
    Owned c owners s' := by
  obtain ⟨base, moved⟩ := swapped.moved
  intro i turn candidate
  rw [moved, Function.update_apply] at candidate
  split at candidate
  next => simp [Mproc.candidate] at candidate
  next => exact owned i turn candidate

def inMemory (c : Constants) (s : State) : Nat := population fun i : Fin c.nrProcs => (s.mproc i).onswap = false

theorem SwappedOut.inMemory_eq {rmp : Nat} (swapped : SwappedOut rmp s s') (turn : InTurn c rmp) :
    inMemory c s = inMemory c s' + 1 := by
  obtain ⟨base, moved⟩ := swapped.moved
  have candidate := swapped.candidate
  refine population_leave (t := ⟨rmp, turn.2⟩) (fun u other => ?_) ?_ ?_
  · have distinct : (u : Nat) ≠ rmp := fun same => other (Fin.ext same)
    rw [moved, Function.update_of_ne distinct]
  · simp only [Mproc.candidate, Bool.and_eq_true, Bool.not_eq_true', Bool.or_eq_false_iff] at candidate
    exact candidate.2.2
  · simp [moved]

theorem inMemory_le (c : Constants) (s : State) : inMemory c s ≤ c.nrProcs := by
  unfold inMemory population
  exact (Finset.card_filter_le _ _).trans (by simp)

structure Ready (c : Constants) (given others : List Extent) (owners : List Nat) (s : State) : Prop where
  managed : Managed c given (others ++ images owners s.mproc) s
  owned : Owned c owners s
  turn : InTurn c s.outswap

variable {owners : List Nat}

theorem swapOutFrom_spec (l : List Nat) (ready : Ready c given others owners s) (nodup : owners.Nodup)
    (inTurn : ∀ i ∈ l, InTurn c i) :
    swapOutFrom c l s = .ok (false, s) ∨ swapOutFrom c l s = .error .holeTableFull ∨
      ∃ s', swapOutFrom c l s = .ok (true, s') ∧ Ready c given others owners s' ∧ s'.settings = s.settings ∧
        inMemory c s = inMemory c s' + 1 := by
  induction l with
  | nil => exact .inl rfl
  | cons rmp rest ih =>
    have turn := inTurn rmp List.mem_cons_self
    rw [swapOutFrom]
    rcases trySwap_spec ready.managed nodup (ready.owned rmp turn) with continue_ | full | ⟨s', ran, managed, swapped⟩
    · rw [continue_]
      exact ih fun i member => inTurn i (List.mem_cons_of_mem rmp member)
    · exact .inr (.inl (by rw [full]; rfl))
    · refine .inr (.inr ⟨s', by rw [ran]; rfl, ⟨managed, swapped.owned ready.owned, ?_⟩, swapped.settings,
        swapped.inMemory_eq turn⟩)
      exact swapped.outswap.symm ▸ turn

theorem swapOut_spec (ready : Ready c given others owners s) (nodup : owners.Nodup) :
    swapOut c s = .ok (false, s) ∨ swapOut c s = .error .holeTableFull ∨
      ∃ s', swapOut c s = .ok (true, s') ∧ Ready c given others owners s' ∧ s'.settings = s.settings ∧
        inMemory c s = inMemory c s' + 1 :=
  swapOutFrom_spec (roundFrom c s.outswap) ready nodup fun _ => inTurn_of_mem_roundFrom ready.turn

end SoiStud.Memory
