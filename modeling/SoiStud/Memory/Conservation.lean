import SoiStud.Library.Transition
import SoiStud.Memory.Rounds

/-! No click is lost and none is given out twice, in any run of the memory manager.

`mem_init` and `swap_on` give the allocator its clicks. From then on blocks are
handed out, freed, and moved between memory and the swap area, in any order.
-/

set_option autoImplicit false

namespace SoiStud.Memory

open Library

section
variable {c : Constants} {given given' live : List Extent} {s s' : State}

theorem Managed.given_congr (managed : Managed c given live s) (same : ∀ x, tally x given' = tally x given) :
    Managed c given' live s := by
  obtain ⟨fits, holes, slots, table, separated, balance⟩ := managed
  exact ⟨fits.mono fun x => (same x).le, holes, slots, table, separated, fun x => (balance x).trans (same x).symm⟩

theorem Managed.give {e : Extent} (managed : Managed c given live s) (fits : Fits clickRange (e :: given)) :
    Managed c (e :: given) (e :: live) s := by
  obtain ⟨-, holes, slots, table, separated, balance⟩ := managed
  refine ⟨fits, holes, slots, table, separated, fun x => ?_⟩
  have held := balance x
  rw [tally_cons, tally_cons]
  omega

theorem freeMem_given {base clicks : Nat} (managed : Managed c given live s)
    (fits : Fits clickRange (⟨base, clicks⟩ :: given)) (ran : freeMem c base clicks s = .ok s') :
    Managed c (⟨base, clicks⟩ :: given) live s' ∧ Kept s s' := by
  rcases freeMem_managed (managed.give fits) fun x => tally_cons with full | ⟨t, done, managed', kept⟩
  · rw [full] at ran
    cases ran
  · rw [done] at ran
    cases ran
    exact ⟨managed', kept⟩

section
variable {replies : List SysMem} {total free : Nat} {last : SysMem} {out : Nat × Nat}

def SysMem.chunk (mess : SysMem) : Extent := ⟨toClicks mess.m1_i1, toClicks mess.m1_i2⟩

def chunks (replies : List SysMem) : List Extent := replies.map SysMem.chunk

def Described (replies : List SysMem) : Prop := ∀ e ∈ chunks replies, 0 < e.len ∧ e.top < clickRange

theorem clearTable_table (c : Constants) (s : State) : Table c (clearTable c s) [] (List.range c.nrHoles) where
  linked := .stop
  free := by
    rw [List.range_eq_range']
    refine Chain.range' (fun i below => ?_) 0 c.nrHoles (Nat.zero_add _)
    change (if i = c.nrHoles - 1 then c.nil else i + 1) = i + 1
    unfold Constants.nil at below ⊢
    split
    next last => omega
    next => rfl
  once := .refl _

theorem clearTable_managed (c : Constants) (s : State) : Managed c [] [] (clearTable c s) where
  fits := ⟨by simp, by simp, 0, by decide, rfl⟩
  lists := ⟨[], _, clearTable_table c s, separated_nil, fun _ => rfl⟩

structure Arriving (c : Constants) (given : List Extent) (s : State) : Prop where
  managed : Managed c given [] s
  below : ∀ x, 0 < tally x given → x < s.swapBase
  swapBase : s.swapBase < clickRange

section
variable {mess : SysMem}

theorem Arriving.fits (arriving : Arriving c given s) (top : mess.chunk.top < clickRange)
    (once : ∀ x, mess.chunk.tally x + tally x given ≤ 1) : Fits clickRange (mess.chunk :: given) := by
  have inside (x : Nat) (held : 0 < mess.chunk.tally x) : x < mess.chunk.top := by
    unfold Extent.tally at held
    split at held
    next both => exact both.2
    next => cases held
  refine ⟨once, fun x held => ?_, max s.swapBase mess.chunk.top, max_lt arriving.swapBase top, ?_⟩
  · rcases Nat.add_pos_iff_pos_or_pos.mp held with new | old
    · exact (inside x new).trans top
    · exact (arriving.below x old).trans arriving.swapBase
  · -- nothing that has arrived reaches the greater of the two ends
    by_contra held
    rcases Nat.add_pos_iff_pos_or_pos.mp (Nat.pos_of_ne_zero held) with new | old
    · exact absurd (inside _ new) (Nat.not_lt.mpr (Nat.le_max_right _ _))
    · exact absurd (arriving.below _ old) (Nat.not_lt.mpr (Nat.le_max_left _ _))

theorem Arriving.chunk (arriving : Arriving c given s) (top : mess.chunk.top < clickRange)
    (once : ∀ x, mess.chunk.tally x + tally x given ≤ 1)
    (freed : freeMem c (toClicks mess.m1_i1) (toClicks mess.m1_i2) s = .ok s') :
    ∃ t, t = (if s'.swapBase < plus (toClicks mess.m1_i1) (toClicks mess.m1_i2) then
        { s' with swapBase := plus (toClicks mess.m1_i1) (toClicks mess.m1_i2) } else s') ∧
      Arriving c (mess.chunk :: given) t ∧ t.swapFd = s.swapFd ∧ t.outswap = s.outswap := by
  have end_ : plus (toClicks mess.m1_i1) (toClicks mess.m1_i2) = mess.chunk.top := Nat.mod_eq_of_lt top
  obtain ⟨managed, kept⟩ := freeMem_given arriving.managed (arriving.fits top once) freed
  have base : s'.swapBase = s.swapBase := by rw [kept]
  rw [end_]
  have raise {t : State} (hole : t.hole = s'.hole) (head : t.holeHead = s'.holeHead) (free : t.freeSlots = s'.freeSlots)
      (raised : t.swapBase = max s.swapBase mess.chunk.top) : Arriving c (mess.chunk :: given) t := by
    refine ⟨managed.congr hole head free fun _ => rfl, fun x held => ?_, raised ▸ max_lt arriving.swapBase top⟩
    rw [raised]
    rcases Nat.add_pos_iff_pos_or_pos.mp held with new | old
    · unfold Extent.tally at new
      split at new
      next both => exact lt_max_of_lt_right both.2
      next => cases new
    · exact lt_max_of_lt_left (arriving.below x old)
  refine ⟨_, rfl, ?_⟩
  split
  next lower =>
    exact ⟨raise rfl rfl rfl (Nat.max_eq_right (base ▸ lower.le)).symm, by rw [kept], kept.outswap_eq⟩
  next higher =>
    exact ⟨raise rfl rfl rfl (base.trans (Nat.max_eq_left (base ▸ Nat.not_lt.mp higher)).symm), by rw [kept],
      kept.outswap_eq⟩

end

theorem addChunks_arriving (arriving : Arriving c given s) (described : Described replies)
    (once : ∀ x, tally x (chunks replies) + tally x given ≤ 1) (ended : toClicks last.m1_i2 = 0)
    (ran : addChunks c (replies ++ [last]) total free s = .ok (s', out)) :
    ∃ given', Arriving c given' s' ∧ (∀ x, tally x given' = tally x (chunks replies) + tally x given) ∧
      s'.swapFd = s.swapFd ∧ s'.outswap = s.outswap := by
  induction replies generalizing s given total free with
  | nil =>
    simp only [List.nil_append, addChunks, if_pos ended] at ran
    cases ran
    exact ⟨given, arriving, fun x => (Nat.zero_add _).symm, rfl, rfl⟩
  | cons mess replies ih =>
    obtain ⟨nonempty, top⟩ := described mess.chunk List.mem_cons_self
    have some_ : toClicks mess.m1_i2 ≠ 0 := nonempty.ne'
    rw [List.cons_append, addChunks, if_neg some_, bind_eq_ok] at ran
    obtain ⟨s₁, freed, ran⟩ := ran
    -- the chunks do not overlap
    have single (x : Nat) : mess.chunk.tally x + tally x given ≤ 1 := by
      have := once x
      simp only [chunks, List.map_cons, tally_cons] at this
      omega
    obtain ⟨t, same, next, fd, outswap⟩ := arriving.chunk top single freed
    rw [← same] at ran
    obtain ⟨given', arriving', total_, fd', outswap'⟩ := ih next
      (fun e member => described e (List.mem_cons_of_mem _ member))
      (fun x => by
        have := once x
        simp only [chunks, List.map_cons, tally_cons] at this ⊢
        omega) ran
    refine ⟨given', arriving', fun x => ?_, fd'.trans fd, outswap'.trans outswap⟩
    have sum := total_ x
    simp only [chunks, List.map_cons, tally_cons] at sum ⊢
    omega

/-- As long as there is no swap area `swap_on` can add one above a unit that was
never given, unless `swap_base` itself has run over. -/
def SwapRoom (given : List Extent) (s : State) : Prop :=
  s.swapFd = -1 → s.swapMaxsize = 0 ∨
    0 < s.swapBase ∧ s.swapBase + s.swapMaxsize = clickRange ∧ ∀ x, 0 < tally x given → x + 1 < s.swapBase

theorem SwapRoom.of_settings (room : SwapRoom given s) (same : s'.settings = s.settings) : SwapRoom given s' := by
  simp only [State.settings, Prod.mk.injEq] at same
  obtain ⟨fd, -, base, maxsize, -⟩ := same
  unfold SwapRoom
  rwa [fd, base, maxsize]

theorem SwapRoom.fits {clicks : Nat} (room : SwapRoom given s) (old : Fits clickRange given) (closed : s.swapFd = -1)
    (positive : 0 < clicks) (limit : clicks ≤ s.swapMaxsize) : Fits clickRange (⟨s.swapBase, clicks⟩ :: given) := by
  rcases room closed with empty | ⟨above, total, below⟩
  · omega
  refine ⟨fun x => ?_, fun x held => ?_, s.swapBase - 1, by omega, ?_⟩
  · have once := old.once x
    have apart := below x
    simp only [tally_cons, Extent.tally, Extent.top]
    grind
  · have inside := old.below x
    simp only [tally_cons, Extent.tally, Extent.top] at held
    grind
  · have free := below (s.swapBase - 1)
    simp only [tally_cons, Extent.tally, Extent.top]
    grind

theorem memInit_spec {mproc : Nat → Mproc} (described : Described replies) (once : ∀ x, tally x (chunks replies) ≤ 1)
    (ended : toClicks last.m1_i2 = 0) (ran : memInit c (replies ++ [last]) total (static c mproc) = .ok (s, out)) :
    Managed c (chunks replies) [] s ∧ SwapRoom (chunks replies) s ∧ s.outswap = c.lowUser := by
  unfold memInit at ran
  rw [bind_eq_ok] at ran
  obtain ⟨⟨s₁, out₁⟩, added, ran⟩ := ran
  cases ran
  have arriving : Arriving c [] (clearTable c (static c mproc)) :=
    ⟨clearTable_managed c _, by simp, (by decide : 0 < clickRange)⟩
  obtain ⟨given, ⟨managed, below, base⟩, total_, -, outswap⟩ :=
    addChunks_arriving arriving described (fun x => once x) ended added
  have same (x : Nat) : tally x (chunks replies) = tally x given := (total_ x).symm
  refine ⟨(managed.given_congr same).congr rfl rfl rfl fun _ => rfl, fun _ => ?_, outswap⟩
  by_cases overrun : s₁.swapBase + 1 = clickRange
  · have zero : plus s₁.swapBase 1 = 0 := by rw [plus, overrun, Nat.mod_self]
    left
    change minus 0 (plus s₁.swapBase 1) = 0
    rw [zero]
    rfl
  · right
    have next : plus s₁.swapBase 1 = s₁.swapBase + 1 := Nat.mod_eq_of_lt (by omega)
    change 0 < plus s₁.swapBase 1 ∧ plus s₁.swapBase 1 + minus 0 (plus s₁.swapBase 1) = clickRange ∧
      ∀ x, 0 < tally x (chunks replies) → x + 1 < plus s₁.swapBase 1
    rw [next]
    refine ⟨Nat.succ_pos _, ?_, fun x held => Nat.succ_lt_succ (below x (same x ▸ held))⟩
    simp only [minus, clickRange] at base overrun ⊢
    omega

end
def swapArea (c : Constants) (s : State) (size : Nat) : SwapOn → List Extent
  | .done => [⟨s.swapBase, swapSize c s size⟩]
  | .busy | .failed _ => []

theorem swapOn_spec {opened : Except Int Nat} {offset size : Nat} {r : SwapOn} (managed : Managed c given live s)
    (room : SwapRoom given s) (ran : swapOn c opened offset size s = .ok (r, s')) :
    Managed c (swapArea c s size r ++ given) live s' ∧ SwapRoom (swapArea c s size r ++ given) s' ∧
      s'.mproc = s.mproc ∧ s'.outswap = s.outswap := by
  unfold swapOn at ran
  by_cases busy : s.swapFd ≠ -1
  · rw [if_pos busy] at ran
    cases ran
    exact ⟨managed, room, rfl, rfl⟩
  rw [if_neg busy] at ran
  have closed : s.swapFd = -1 := Decidable.not_not.mp busy
  cases opened with
  | error errno =>
    cases ran
    exact ⟨managed.congr rfl rfl rfl fun _ => rfl, fun _ => room closed, rfl, rfl⟩
  | ok fd =>
    let on : State := { s with swapFd := fd, swapOffset := offset }
    have same : swapSize c on size = swapSize c s size := rfl
    have opened_ : on.swapFd ≠ -1 := by
      change (fd : Int) ≠ -1
      omega
    have ready : Managed c given live on := managed.congr rfl rfl rfl fun _ => rfl
    by_cases none_ : swapSize c s size = 0
    · -- a swap area of no click at all
      have result : (Except.ok (SwapOn.done, on) : Except Fault (SwapOn × State)) = .ok (r, s') := by
        rw [← ran]
        exact (if_neg (same ▸ Nat.not_lt.mpr (Nat.le_of_eq none_))).symm
      obtain ⟨done, final⟩ : SwapOn.done = r ∧ on = s' := by simpa using result
      rw [← done, ← final]
      refine ⟨ready.given_congr fun x => ?_, fun closed => absurd closed opened_, rfl, rfl⟩
      simp [swapArea, Extent.tally, Extent.top, none_]
    · have positive : 0 < swapSize c s size := Nat.pos_of_ne_zero none_
      have result : (freeMem c s.swapBase (swapSize c s size) on >>= fun t => .ok (SwapOn.done, t)) = .ok (r, s') := by
        rw [← ran]
        exact (if_pos (same ▸ positive)).symm
      rw [bind_eq_ok] at result
      obtain ⟨t, freed, returned⟩ := result
      cases returned
      have fits := room.fits managed.fits closed positive (Nat.min_le_right _ _)
      obtain ⟨managed', kept⟩ := freeMem_given ready fits freed
      have open_ : s'.swapFd ≠ -1 := by
        rw [kept]
        exact opened_
      exact ⟨managed', fun closed => absurd closed open_, kept.mproc_eq, kept.outswap_eq⟩

end

/-- The allocator and what the rest of the system has of it: the blocks that belong to
no process, the processes whose images are live blocks, and all that was ever given. -/
structure World where
  state : State
  others : List Extent
  owners : List Nat
  given : List Extent

def World.live (w : World) : List Extent := w.others ++ images w.owners w.state.mproc

inductive Event where
  | swapOn (opened : Except Int Nat) (offset size : Nat)
  | doWorstFit (m1_i1 : Int)
  | allocMem (clicks : Nat) (found : Option Nat)
  | freeMem (base clicks : Nat)
  /-- processes come, go and change, and with them what the live blocks are used for -/
  | elsewhere

def block (clicks : Nat) (found : Option Nat) : List Extent := (found.map fun base => ⟨base, clicks⟩).toList

inductive Moves (c : Constants) (w : World) : Event → World → Prop where
  | swapOn {opened : Except Int Nat} {offset size : Nat} {r : SwapOn} {s' : State} :
      swapOn c opened offset size w.state = .ok (r, s') →
      Moves c w (.swapOn opened offset size) { w with state := s', given := swapArea c w.state size r ++ w.given }
  | doWorstFit {m1_i1 : Int} : Moves c w (.doWorstFit m1_i1) { w with state := doWorstFit m1_i1 w.state }
  | allocMem {clicks : Nat} {found : Option Nat} {s' : State} : Owned c w.owners w.state →
      allocMem c clicks w.state = .ok (found, s') →
      Moves c w (.allocMem clicks found) { w with state := s', others := block clicks found ++ w.others }
  | freeMem {base clicks : Nat} {s' : State} : ⟨base, clicks⟩ ∈ w.others → freeMem c base clicks w.state = .ok s' →
      Moves c w (.freeMem base clicks) { w with state := s', others := w.others.erase ⟨base, clicks⟩ }
  | elsewhere {mproc : Nat → Mproc} {others : List Extent} {owners : List Nat} : owners.Nodup →
      (∀ x, tally x (others ++ images owners mproc) = tally x w.live) →
      Moves c w .elsewhere { w with state := { w.state with mproc := mproc }, others := others, owners := owners }

def system (c : Constants) : System World Event where
  init w := ∃ mproc replies last total out, Described replies ∧
    (chunks replies).Pairwise (fun e f => e.top ≤ f.base ∨ f.top ≤ e.base) ∧ toClicks last.m1_i2 = 0 ∧
    memInit c (replies ++ [last]) total (static c mproc) = .ok (w.state, out) ∧
    w.others = [] ∧ w.owners = [] ∧ w.given = chunks replies
  step := Moves c

structure Conserved (c : Constants) (w : World) : Prop where
  managed : Managed c w.given w.live w.state
  room : SwapRoom w.given w.state
  nodup : w.owners.Nodup
  turn : InTurn c w.state.outswap

section
variable {c : Constants} {w w' : World} {event : Event}

theorem conserved_init (initial : (system c).init w) : Conserved c w := by
  obtain ⟨mproc, replies, last, total, out, described, apart, ended, ran, none_, nobody, all⟩ := initial
  obtain ⟨managed, room, outswap⟩ := memInit_spec described (fun x => tally_le_one_of_pairwise apart) ended ran
  have live : w.live = [] := by
    unfold World.live
    rw [none_, nobody]
    rfl
  refine ⟨?_, all ▸ room, nobody ▸ List.nodup_nil, ?_⟩
  · rw [all, live]
    exact managed
  · rw [outswap]
    exact ⟨Nat.le_refl _, c.lowUser_lt⟩

theorem Conserved.move (conserved : Conserved c w) (moves : Moves c w event w') : Conserved c w' := by
  obtain ⟨managed, room, nodup, turn⟩ := conserved
  cases moves with
  | swapOn ran =>
    obtain ⟨managed', room', mproc, outswap⟩ := swapOn_spec managed room ran
    refine ⟨?_, room', nodup, outswap ▸ turn⟩
    unfold World.live
    rw [mproc]
    exact managed'
  | doWorstFit =>
    unfold doWorstFit
    split
    next => exact ⟨managed.congr rfl rfl rfl fun _ => rfl, room, nodup, turn⟩
    next => exact ⟨managed, room, nodup, turn⟩
  | @allocMem clicks found s' owned ran =>
    have ready : Ready c w.given w.others w.owners w.state := ⟨managed, owned, turn⟩
    rcases allocMem_spec clicks ready nodup with full | unset | ⟨t, none_, ready', same⟩ |
      ⟨base, t, taken, ready', same⟩
    · rw [full] at ran
      cases ran
    · rw [unset] at ran
      cases ran
    · rw [none_] at ran
      cases ran
      exact ⟨ready'.managed, room.of_settings same, nodup, ready'.turn⟩
    · rw [taken] at ran
      cases ran
      exact ⟨ready'.managed, room.of_settings same, nodup, ready'.turn⟩
  | @freeMem base clicks s' member ran =>
    -- the block that is freed is one of those that the rest of the system has
    have freed (x : Nat) : tally x w.live = (⟨base, clicks⟩ : Extent).tally x +
        tally x (w.others.erase ⟨base, clicks⟩ ++ images w.owners w.state.mproc) := by
      have split_ := tally_perm (x := x) (List.perm_cons_erase member)
      unfold World.live
      rw [tally_append, split_, tally_append, tally_cons]
      omega
    rcases freeMem_managed managed freed with full | ⟨t, done, managed', kept⟩
    · rw [full] at ran
      cases ran
    · rw [done] at ran
      cases ran
      refine ⟨?_, room.of_settings kept.settings_eq, nodup, kept.outswap_eq ▸ turn⟩
      unfold World.live
      rw [kept.mproc_eq]
      exact managed'
  | elsewhere distinct same => exact ⟨managed.congr rfl rfl rfl same, room, distinct, turn⟩

theorem conserved_of_reachable (reached : (system c).Reachable w) : Conserved c w :=
  reached.invariant (fun _ => conserved_init) fun _ _ _ conserved moves => conserved.move moves

structure InOrder (c : Constants) (w : World) (holes slots : List Nat) : Prop where
  linked : Chain w.state.next c.nil w.state.holeHead holes
  free : Chain w.state.next c.nil w.state.freeSlots slots
  once : (holes ++ slots).Perm (List.range c.nrHoles)
  increasing : holes.Pairwise fun i j => (w.state.hole i).base < (w.state.hole j).base
  nonempty : ∀ i ∈ holes, 0 < (w.state.hole i).len
  apart : holes.Pairwise fun i j => (w.state.hole i).base + (w.state.hole i).len < (w.state.hole j).base
  disjoint : ∀ x ∈ units (extents w.state holes), x ∉ units w.live
  single : ∀ x, tally x w.live ≤ 1
  all : units (extents w.state holes) ∪ units w.live = units w.given

theorem clicks_conserved (reached : (system c).Reachable w) : ∃ holes slots, InOrder c w holes slots := by
  obtain ⟨fits, holes, slots, table, separated, balance⟩ := (conserved_of_reachable reached).managed
  have apart : holes.Pairwise fun i j => (w.state.hole i).base + (w.state.hole i).len < (w.state.hole j).base :=
    List.pairwise_map.mp separated.apart
  refine ⟨holes, slots, table.linked, table.free, table.once, apart.imp fun {i j} below => ?_, fun i member => ?_, apart,
    fun x hole live => ?_, fun x => ?_, ?_⟩
  · omega
  · exact separated.nonempty _ (List.mem_map_of_mem member)
  · have once := fits.once x
    have sum := balance x
    rw [mem_units_iff] at hole live
    omega
  · have once := fits.once x
    have sum := balance x
    omega
  · ext x
    have sum := balance x
    rw [Set.mem_union, mem_units_iff, mem_units_iff, mem_units_iff]
    omega

def small : Constants := ⟨2, 0, 0, by decide⟩

def idle : Mproc := ⟨false, false, false, false, false, false, ⟨0, 0, 0⟩, ⟨0, 0, 0⟩⟩

def smallReplies : List SysMem := [⟨10, 5, 0⟩, ⟨0, 4, 9⟩]

def smallDay : Except Fault ((State × Nat × Nat) × (SwapOn × State) × (Option Nat × State) × (Option Nat × State) × State) := do
  let booted ← memInit small (smallReplies ++ [⟨0, 0, 9⟩]) 0 (static small fun _ => idle)
  let on ← swapOn small (.ok 3) 0 8 booted.1
  let first ← allocMem small 5 on.2
  let second ← allocMem small 2 (doWorstFit 1 first.2)
  let s ← freeMem small 10 5 second.2
  .ok (booted, on, first, second, s)

theorem clicks_conserved_small : ∃ w, (system small).Reachable w ∧ w.live = [⟨0, 2⟩] ∧
    w.given = [⟨16, 8⟩, ⟨10, 5⟩, ⟨0, 4⟩] ∧ ∃ holes slots, InOrder small w holes slots := by
  have played : smallDay.toOption.any (fun day => day.2.1.1 = .done ∧ day.1.1.swapBase = 16 ∧
      swapSize small day.1.1 8 = 8 ∧ day.2.2.1.1 = some 10 ∧ day.2.2.2.1.1 = some 0 ∧
      (∀ i < 2, (day.2.1.2.mproc i).candidate = false) ∧ ∀ i < 2, (day.2.2.1.2.mproc i).candidate = false) = true := by
    decide +kernel
  cases run : smallDay with
  | error e =>
    rw [run] at played
    cases played
  | ok day =>
    obtain ⟨⟨s₁, out⟩, ⟨r, s₂⟩, ⟨found₁, s₃⟩, ⟨found₂, s₄⟩, s₅⟩ := day
    rw [run] at played
    simp only [Except.toOption, Option.any_some, decide_eq_true_eq] at played
    obtain ⟨rfl, base, size, rfl, rfl, idle₂, idle₃⟩ := played
    simp only [smallDay, bind_eq_ok] at run
    obtain ⟨booted, boot, on, turnedOn, first, took₁, second, took₂, s, gave, same⟩ := run
    cases same
    have start : (system small).Reachable ⟨s₁, [], [], chunks smallReplies⟩ :=
      .start ⟨_, smallReplies, ⟨0, 0, 9⟩, 0, out, by unfold Described; decide, by decide, rfl, boot, rfl, rfl, rfl⟩
    have nobody₂ : Owned small [] s₂ := fun i turn candidate => absurd candidate (by simp [idle₂ i turn.2])
    have nobody₃ : Owned small [] (doWorstFit 1 s₃) :=
      fun i turn candidate => absurd candidate (by simp [doWorstFit, idle₃ i turn.2])
    have handedOut : (⟨10, 5⟩ : Extent) ∈ block 2 (some 0) ++ (block 5 (some 10) ++ []) := by decide
    have served := (start.next (Moves.swapOn turnedOn)).next (Moves.allocMem nobody₂ took₁)
    have final := ((served.next Moves.doWorstFit).next (Moves.allocMem nobody₃ took₂)).next
      (Moves.freeMem handedOut gave)
    refine ⟨_, final, rfl, ?_, clicks_conserved final⟩
    change [⟨s₁.swapBase, swapSize small s₁ 8⟩] ++ chunks smallReplies = _
    rw [base, size]
    rfl

theorem allocMem_ends (reached : (system c).Reachable w) (owned : Owned c w.owners w.state) (clicks : Nat) :
    allocMem c clicks w.state ≠ .error .outOfFuel := by
  obtain ⟨managed, -, nodup, turn⟩ := conserved_of_reachable reached
  have ready : Ready c w.given w.others w.owners w.state := ⟨managed, owned, turn⟩
  rcases allocMem_spec clicks ready nodup with full | unset | ⟨t, none_, -⟩ | ⟨base, t, taken, -⟩
  · simp [full]
  · simp [unset]
  · simp [none_]
  · simp [taken]

end

end SoiStud.Memory
