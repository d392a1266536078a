import SoiStud.FileSystem.Removal

/-! Reference counts while a removal runs.

The removal has opened the inodes `active`, whose counts are down to zero and
whose entries it is working off, and owes a call for each inode of the list
`owed`. Every other count is the number of calls owed plus the number of entries
in the directories that are not open. The names in directory `d` are the list
`names d`; the inodes `guard` are those that the root directory still leads to,
and are never opened.
-/

set_option autoImplicit false

namespace SoiStud.FileSystem
namespace VirtualDisc

open Library

variable {s s' : VirtualDisc} {names : Nat → List Nat} {guard : Nat → Prop} {active : Finset Nat}
  {owed : List Nat} {file i d : Nat}

/-- The inodes that entries of `d` name; what is not a directory names none. -/
def held (s : VirtualDisc) (names : Nat → List Nat) (d : Nat) : List Nat :=
  if (s.nodeTab d).type = .directory then names d else []

/-- How many entries outside the open directories name inode `i`. -/
def outstanding (s : VirtualDisc) (names : Nat → List Nat) (active : Finset Nat) (i : Nat) : Nat :=
  ∑ d ∈ Finset.range s.inodesNum \ active, (s.held names d).count i

structure Ledger (s : VirtualDisc) (names : Nat → List Nat) (guard : Nat → Prop) (active : Finset Nat)
    (owed : List Nat) : Prop where
  opened : ∀ a ∈ active, a < s.inodesNum ∧ (s.nodeTab a).type ≠ .empty ∧ (s.nodeTab a).referencesNum = 0
  owing : ∀ i ∈ owed, s.Nameable i
  named : ∀ d < s.inodesNum, d ∉ active → ∀ i ∈ s.held names d, s.Nameable i
  counted : ∀ i < s.inodesNum, i ≠ 0 → (s.nodeTab i).type ≠ .empty →
    (s.nodeTab i).referencesNum.toNat = owed.count i + s.outstanding names active i
  guarded : ∀ p, guard p → p < s.inodesNum ∧ p ∉ active ∧ (s.nodeTab p).type = .directory ∧
    (p = 0 ∨ ∃ d, guard d ∧ p ∈ names d)

theorem withReferences_type (s : VirtualDisc) (file : Nat) (n : UInt8) (i : Nat) :
    ((s.withReferences file n).nodeTab i).type = (s.nodeTab i).type := by
  by_cases same : i = file
  · subst same; simp
  · simp [same]

theorem held_withReferences (s : VirtualDisc) (file : Nat) (n : UInt8) (d : Nat) :
    (s.withReferences file n).held names d = s.held names d := by
  unfold held
  rw [withReferences_type]

theorem outstanding_withReferences (s : VirtualDisc) (file : Nat) (n : UInt8) (i : Nat) :
    (s.withReferences file n).outstanding names active i = s.outstanding names active i := by
  unfold outstanding
  simp only [held_withReferences]
  rfl

theorem nameable_withReferences {n : UInt8} : (s.withReferences file n).Nameable i ↔ s.Nameable i := by
  unfold Nameable
  rw [withReferences_type]
  rfl

theorem outstanding_pos (inRange : d < s.inodesNum) (closed : d ∉ active) (listed : i ∈ s.held names d) :
    0 < s.outstanding names active i := by
  have here : 0 < (s.held names d).count i := List.count_pos_iff.mpr listed
  have whole : (s.held names d).count i ≤ s.outstanding names active i :=
    Finset.single_le_sum (f := fun d => (s.held names d).count i) (fun _ _ => Nat.zero_le _)
      (Finset.mem_sdiff.mpr ⟨Finset.mem_range.mpr inRange, closed⟩)
  omega

theorem outstanding_open (inRange : file < s.inodesNum) (closed : file ∉ active) (i : Nat) :
    s.outstanding names active i = (s.held names file).count i + s.outstanding names (insert file active) i := by
  unfold outstanding
  rw [Finset.sdiff_insert]
  exact (Finset.add_sum_erase _ (fun d => (s.held names d).count i)
    (Finset.mem_sdiff.mpr ⟨Finset.mem_range.mpr inRange, closed⟩)).symm

theorem toNat_pred {n : UInt8} (positive : 0 < n.toNat) : (n - 1).toNat = n.toNat - 1 := by
  rw [UInt8.toNat_sub_of_le]
  · rfl
  · rw [UInt8.le_iff_toNat_le]
    exact positive

theorem Ledger.not_open (ledger : s.Ledger names guard active (file :: owed)) :
    0 < (s.nodeTab file).referencesNum.toNat ∧ file ∉ active := by
  obtain ⟨inRange, live, notRoot⟩ := ledger.owing file List.mem_cons_self
  have count := ledger.counted file inRange notRoot live
  rw [List.count_cons_self] at count
  refine ⟨by omega, fun member => ?_⟩
  rw [(ledger.opened file member).2.2, UInt8.toNat_zero] at count
  omega

theorem Ledger.pay (ledger : s.Ledger names guard active (file :: owed)) :
    (s.withReferences file ((s.nodeTab file).referencesNum - 1)).Ledger names guard active owed := by
  obtain ⟨positive, notOpen⟩ := ledger.not_open
  constructor
  · intro a member
    have other : a ≠ file := fun same => notOpen (same ▸ member)
    obtain ⟨bounded, type, zero⟩ := ledger.opened a member
    refine ⟨bounded, by rwa [withReferences_type], ?_⟩
    simpa [other] using zero
  · intro i member
    exact nameable_withReferences.mpr (ledger.owing i (List.mem_cons_of_mem _ member))
  · intro d bounded closed i listed
    rw [held_withReferences] at listed
    exact nameable_withReferences.mpr (ledger.named d bounded closed i listed)
  · intro i bounded nonRoot type
    rw [withReferences_type] at type
    rw [outstanding_withReferences]
    have before := ledger.counted i bounded nonRoot type
    by_cases same : i = file
    · subst same
      rw [List.count_cons_self] at before
      simp only [withReferences_nodeTab, Function.update_self, toNat_pred positive]
      omega
    · rw [List.count_cons_of_ne (fun same' => same same'.symm)] at before
      simpa [same] using before
  · intro p guards
    obtain ⟨bounded, closed, type, reached⟩ := ledger.guarded p guards
    exact ⟨bounded, closed, by rwa [withReferences_type], reached⟩

theorem Ledger.not_guard (ledger : s.Ledger names guard active owed) (named : s.Nameable file)
    (zero : (s.nodeTab file).referencesNum = 0) : ¬ guard file := by
  intro guards
  obtain ⟨inRange, live, notRoot⟩ := named
  have count := ledger.counted file inRange notRoot live
  rw [zero, UInt8.toNat_zero] at count
  obtain ⟨_, _, _, reached⟩ := ledger.guarded file guards
  rcases reached with root | ⟨d, guardsD, listed⟩
  · exact notRoot root
  · obtain ⟨bounded, closed, type, _⟩ := ledger.guarded d guardsD
    have heldHere : file ∈ s.held names d := by
      rw [held, if_pos type]
      exact listed
    have counts := outstanding_pos bounded closed heldHere
    omega

theorem Ledger.open_ (ledger : s.Ledger names guard active owed) (named : s.Nameable file)
    (zero : (s.nodeTab file).referencesNum = 0) (notOpen : file ∉ active) :
    s.Ledger names guard (insert file active) (s.held names file ++ owed) := by
  have notGuard := ledger.not_guard named zero
  obtain ⟨inRange, live, notRoot⟩ := named
  constructor
  · intro a member
    rcases Finset.mem_insert.mp member with rfl | member
    · exact ⟨inRange, live, zero⟩
    · exact ledger.opened a member
  · intro i member
    rcases List.mem_append.mp member with member | member
    · exact ledger.named file inRange notOpen i member
    · exact ledger.owing i member
  · intro d bounded closed i listed
    rw [Finset.mem_insert, not_or] at closed
    exact ledger.named d bounded closed.2 i listed
  · intro i bounded nonRoot type
    rw [ledger.counted i bounded nonRoot type, outstanding_open inRange notOpen i, List.count_append]
    omega
  · intro p guards
    obtain ⟨bounded, closed, type, reached⟩ := ledger.guarded p guards
    refine ⟨bounded, ?_, type, reached⟩
    rw [Finset.mem_insert, not_or]
    exact ⟨fun same => notGuard (same ▸ guards), closed⟩

theorem Ledger.close (ledger : s.Ledger names guard (insert file active) owed) (notOpen : file ∉ active)
    (notRoot : file ≠ 0) (blocks : List Nat) : (s.emptied file blocks).Ledger names guard active owed := by
  obtain ⟨inRange, live, zero⟩ := ledger.opened file (Finset.mem_insert_self _ _)
  have count := ledger.counted file inRange notRoot live
  rw [zero] at count
  simp only [UInt8.toNat_zero] at count
  have nodes : (s.emptied file blocks).nodeTab = Function.update s.nodeTab file ⟨0, nil64, .empty, 0⟩ := by
    simp [emptied]
  have size : (s.emptied file blocks).inodesNum = s.inodesNum := by simp [emptied, inodesNum]
  have gone : (s.emptied file blocks).held names file = [] := by simp [held, nodes]
  have others (d : Nat) (other : d ≠ file) : (s.emptied file blocks).held names d = s.held names d := by
    simp [held, nodes, other]
  have nameable (i : Nat) (other : i ≠ file) (before : s.Nameable i) : (s.emptied file blocks).Nameable i := by
    unfold Nameable at before ⊢
    rw [size, nodes, Function.update_of_ne other]
    exact before
  -- what the directory named has been owed since it was opened, so emptying it changes no sum
  have sums (i : Nat) : (s.emptied file blocks).outstanding names active i =
      s.outstanding names (insert file active) i := by
    rw [outstanding_open (by rwa [size]) notOpen, gone, List.count_nil, Nat.zero_add]
    unfold outstanding
    rw [size]
    apply Finset.sum_congr rfl
    intro d member
    rw [Finset.mem_sdiff, Finset.mem_insert, not_or] at member
    rw [others d member.2.1]
  constructor
  · intro a member
    have other : a ≠ file := fun same => notOpen (same ▸ member)
    obtain ⟨bounded, type, zero⟩ := ledger.opened a (Finset.mem_insert_of_mem member)
    rw [size, nodes, Function.update_of_ne other]
    exact ⟨bounded, type, zero⟩
  · -- with no references left, `file` is neither owed nor named by a directory that is not open
    intro i member
    have other : i ≠ file := by
      intro same
      have counts := List.count_pos_iff.mpr (same ▸ member : file ∈ owed)
      omega
    exact nameable i other (ledger.owing i member)
  · intro d bounded closed i listed
    rw [size] at bounded
    have otherD : d ≠ file := by
      intro same
      rw [same, gone] at listed
      cases listed
    rw [others d otherD] at listed
    have closedToo : d ∉ insert file active := by
      rw [Finset.mem_insert, not_or]
      exact ⟨otherD, closed⟩
    have other : i ≠ file := by
      intro same
      have counts := outstanding_pos bounded closedToo (same ▸ listed : file ∈ s.held names d)
      omega
    exact nameable i other (ledger.named d bounded closedToo i listed)
  · intro i bounded nonRoot type
    rw [sums]
    rw [size] at bounded
    by_cases same : i = file
    · subst same
      simp [nodes] at type
    · rw [nodes, Function.update_of_ne same] at type ⊢
      exact ledger.counted i bounded nonRoot type
  · intro p guards
    obtain ⟨bounded, closed, type, reached⟩ := ledger.guarded p guards
    rw [Finset.mem_insert, not_or] at closed
    rw [size, nodes, Function.update_of_ne closed.1]
    exact ⟨bounded, closed.2, type, reached⟩

/-! ## The removal keeps the ledger

`s₀` is the disc before the removal. Its blocks are only read, so what an opened
directory turns out to hold is what it held then.
-/

section
variable {s₀ : VirtualDisc} {chain₀ chain : Nat → List Nat}
  {remove : VirtualDisc → Nat → Except Fault VirtualDisc}

/-- A routine that, called for an inode that is owed, returns and pays. -/
def Pays (s₀ : VirtualDisc) (chain₀ : Nat → List Nat) (names : Nat → List Nat) (guard : Nat → Prop)
    (active : Finset Nat) (remove : VirtualDisc → Nat → Except Fault VirtualDisc) : Prop :=
  ∀ s chain owed file, Removed s₀ chain₀ s chain → s.Ledger names guard active (file :: owed) →
    ∃ s', remove s file = .ok s' ∧ s'.Ledger names guard active owed

theorem removeSlots_ok (pays : Pays s₀ chain₀ names guard active remove) (removes : Removes remove) (idx : Nat)
    (slots : List Nat) (removed : Removed s₀ chain₀ s chain)
    (ledger : s.Ledger names guard active
      ((((slots.map (readElem (s₀.data idx))).filter fun e => e.used ≠ 0).map fun e => e.inodeId) ++ owed)) :
    ∃ s', removeSlots remove idx slots s = .ok s' ∧ s'.Ledger names guard active owed := by
  induction slots generalizing s chain with
  | nil => exact ⟨s, rfl, ledger⟩
  | cons i rest ih =>
    have elem : s.elemAt (idx, i) = readElem (s₀.data idx) i := by rw [elemAt, removed.data]
    rw [removeSlots, elem]
    rw [List.map_cons, List.filter_cons] at ledger
    by_cases used : (readElem (s₀.data idx) i).used ≠ 0
    · rw [if_pos (decide_eq_true used), List.map_cons, List.cons_append] at ledger
      obtain ⟨t, returned, ledgerT⟩ := pays s chain _ _ removed ledger
      obtain ⟨chainT, removedT⟩ := removes s chain _ t removed.pool returned
      obtain ⟨s', rest_, ledger'⟩ := ih (removed.trans removedT) ledgerT
      exact ⟨s', by simp only [if_pos used, returned, ok_bind, rest_], ledger'⟩
    · rw [if_neg (by simpa using used)] at ledger
      obtain ⟨s', rest_, ledger'⟩ := ih removed ledger
      exact ⟨s', by simp only [if_neg used, rest_], ledger'⟩

theorem removeBlocks_ok (pays : Pays s₀ chain₀ names guard active remove) (removes : Removes remove)
    (member : file ∈ active) {fuel idx : Nat} {before l : List Nat} (parts : chain₀ file = before ++ l)
    (removed : Removed s₀ chain₀ s chain) (linked : Chain s.next nil64 idx l) (enough : l.length < fuel)
    (ledger : s.Ledger names guard active (((s₀.usedElems l).map fun e => e.inodeId) ++ owed)) :
    ∃ s', removeBlocks remove fuel idx s = .ok s' ∧ s'.Ledger names guard active owed := by
  induction l generalizing fuel idx s chain before with
  | nil =>
    obtain ⟨fuel, rfl⟩ := Nat.exists_eq_add_of_lt enough
    exact ⟨s, by simp [removeBlocks, linked.eq_nil], ledger⟩
  | cons b rest ih =>
    cases fuel with
    | zero => simp at enough
    | succ fuel =>
      obtain rfl := linked.head_eq
      obtain ⟨bounded, live, _⟩ := ledger.opened file member
      have size : s.superblock = s₀.superblock := removed.superblock
      have bounded₀ : file < s₀.inodesNum := by
        rw [inodesNum, ← size]
        exact bounded
      have inRange : idx < s.datablocksNum := by
        apply removed.pool.bounded file bounded
        rw [(removed.spared bounded₀ live).2, parts]
        simp
      rw [usedElems, List.flatMap_cons, List.map_append, List.append_assoc] at ledger
      obtain ⟨t, slots, ledgerT⟩ := removeSlots_ok pays removes idx (List.range dirElemsPerBlock) removed ledger
      obtain ⟨chainT, removedT⟩ := removeSlots_removed removes removed.pool slots
      have removedT := removed.trans removedT
      -- the directory is open, so its blocks are still linked as they were
      obtain ⟨boundedT, liveT, _⟩ := ledgerT.opened file member
      have linkedT := removedT.pool.linked file boundedT
      rw [(removedT.spared bounded₀ liveT).2, parts] at linkedT
      obtain ⟨c, again⟩ := linkedT.suffix
      have onward : Chain t.next nil64 (t.next idx) rest := again.tail
      have onwards : chain₀ file = (before ++ [idx]) ++ rest := by simp [parts]
      obtain ⟨s', rest_, ledger'⟩ := ih onwards removedT onward
        (Nat.lt_of_succ_lt_succ enough) ledgerT
      refine ⟨s', ?_, ledger'⟩
      simp only [removeBlocks, linked.ne_nil, if_false, block_eq_ok inRange, ok_bind, slots, rest_]

theorem removeEntries_ok (pays : Pays s₀ chain₀ names guard (insert file active) remove)
    (removes : Removes remove) (faithful : names file = (s₀.usedElems (chain₀ file)).map fun e => e.inodeId)
    (removed : Removed s₀ chain₀ s chain)
    (ledger : s.Ledger names guard (insert file active) (s.held names file ++ owed)) {node : Inode}
    (type : node.type = (s.nodeTab file).type) (start : node.firstDataBlock = s.first file) :
    ∃ s', removeEntries remove node s = .ok s' ∧ s'.Ledger names guard (insert file active) owed := by
  obtain ⟨inRange, live, _⟩ := ledger.opened file (Finset.mem_insert_self _ _)
  have inRange₀ : file < s₀.inodesNum := by rwa [inodesNum_eq removed.superblock] at inRange
  have linked := removed.pool.linked file inRange
  have few := removed.pool.length_le inRange
  rw [(removed.spared inRange₀ live).2] at linked few
  unfold removeEntries
  by_cases directory : node.type = .directory
  · rw [if_pos directory, start]
    rw [held, if_pos (type ▸ directory), faithful] at ledger
    exact removeBlocks_ok pays removes (Finset.mem_insert_self _ _) (List.nil_append _).symm removed linked
      (Nat.lt_succ_of_le few) ledger
  · rw [if_neg directory]
    rw [held, if_neg (type ▸ directory), List.nil_append] at ledger
    exact ⟨s, rfl, ledger⟩

/-- `remove_file` returns: an inode is opened once, so the recursion is no deeper
than there are inodes. -/
theorem removeFile_ok (faithful : ∀ d < s₀.inodesNum, ¬ guard d →
      names d = (s₀.usedElems (chain₀ d)).map fun e => e.inodeId)
    (fuel : Nat) (deep : s₀.inodesNum < active.card + fuel) :
    Pays s₀ chain₀ names guard active (removeFile fuel) := by
  induction fuel generalizing active with
  | zero =>
    -- every inode would have to be open, but the one owed is not
    intro s chain owed file removed ledger
    have within : active ⊆ Finset.range s₀.inodesNum := by
      intro a member
      have bounded := (ledger.opened a member).1
      rw [inodesNum, removed.superblock] at bounded
      exact Finset.mem_range.mpr bounded
    have few := Finset.card_le_card within
    rw [Finset.card_range] at few
    omega
  | succ fuel ih =>
    intro s chain owed file removed ledger
    have named := ledger.owing file List.mem_cons_self
    obtain ⟨_, notOpen⟩ := ledger.not_open
    have paid := ledger.pay
    rw [removeFile]
    simp only [node_eq_ok file named.1, ok_bind]
    by_cases last : (s.nodeTab file).referencesNum - 1 = 0
    · rw [if_neg (not_not.mpr last)]
      generalize decremented : s.withReferences file ((s.nodeTab file).referencesNum - 1) = t at paid ⊢
      have removedT : Removed s₀ chain₀ t chain := by
        rw [← decremented]
        exact removed.trans (removed_withReferences removed.pool file _)
      have namedT : t.Nameable file := by
        rw [← decremented]
        exact nameable_withReferences.mpr named
      have zeroT : (t.nodeTab file).referencesNum = 0 := by simp [← decremented, last]
      have typeT : (t.nodeTab file).type = (s.nodeTab file).type := by
        rw [← decremented, withReferences_type]
      have firstT : (s.nodeTab file).firstDataBlock = t.first file := by
        rw [← decremented, withReferences_first]
        rfl
      have inRange₀ : file < s₀.inodesNum := by
        rw [← inodesNum_eq removedT.superblock]
        exact namedT.1
      have opened := paid.open_ namedT zeroT notOpen
      have deeper : s₀.inodesNum < (insert file active).card + fuel := by
        rw [Finset.card_insert_of_notMem notOpen]
        omega
      have asBefore := faithful file inRange₀ (paid.not_guard namedT zeroT)
      obtain ⟨u, entries, ledgerU⟩ := removeEntries_ok (ih deeper) (removeFile_removed fuel) asBefore removedT opened
        typeT.symm firstT
      obtain ⟨chainU, removedU⟩ := removeEntries_removed (removeFile_removed fuel) removedT.pool entries
      have boundedU := (ledgerU.opened file (Finset.mem_insert_self _ _)).1
      refine ⟨_, ?_, ledgerU.close notOpen named.2.2 (chainU file)⟩
      simp only [entries, ok_bind, deallocDatablocks_chain removedU.pool boundedU]
      rfl
    · rw [if_pos last]
      exact ⟨_, rfl, paid⟩

end

end VirtualDisc
end SoiStud.FileSystem
