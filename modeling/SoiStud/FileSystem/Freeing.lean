import SoiStud.FileSystem.Balance

/-! What an `unlink` gives back: the inodes it empties and the blocks it frees. -/

set_option autoImplicit false

namespace SoiStud.FileSystem
namespace VirtualDisc

open Library

variable {s s' t : VirtualDisc} {chain chain' : Nat → List Nat} {dir file i : Nat} {path filename : CString}
  {place : Nat × Nat} {e : DirectoryElement}

/-! ## No inode in use is left without references -/

def Settled (s s' : VirtualDisc) : Prop :=
  ∀ i, (s'.nodeTab i).type ≠ .empty → (s'.nodeTab i).referencesNum = 0 →
    (s.nodeTab i).type ≠ .empty ∧ (s.nodeTab i).referencesNum = 0

theorem Settled.refl (s : VirtualDisc) : Settled s s := fun _ live zero => ⟨live, zero⟩

theorem Settled.trans (s t u : VirtualDisc) (earlier : Settled s t) (later : Settled t u) : Settled s u := by
  intro i live zero
  obtain ⟨liveT, zeroT⟩ := later i live zero
  exact earlier i liveT zeroT

/-- Where a count goes down to zero the inode is emptied, once the calls for its
entries have settled. -/
theorem removeFile_settled (fuel : Nat) : Within Settled (removeFile fuel) := by
  induction fuel with
  | zero =>
    intro s file s' returned
    cases returned
  | succ fuel ih =>
    intro s file s' returned i live zero
    obtain ⟨node, read, returned⟩ := bind_eq_ok.mp returned
    obtain ⟨inRange, rfl⟩ := node_ok_iff.mp read
    dsimp only at returned
    split at returned
    next left =>
      cases returned
      rw [withReferences_type] at live
      by_cases same : i = file
      · subst same
        simp only [withReferences_nodeTab, Function.update_self] at zero
        exact absurd zero left
      · simp only [withReferences_nodeTab, Function.update_of_ne same] at zero
        exact ⟨live, zero⟩
    next =>
      obtain ⟨u, entries, returned⟩ := bind_eq_ok.mp returned
      obtain ⟨v, freed, returned⟩ := bind_eq_ok.mp returned
      obtain ⟨ids, _, released⟩ := bind_eq_ok.mp freed
      cases released
      cases returned
      -- the inode removed is empty in the end, so this is another one
      have other : i ≠ file := by
        rintro rfl
        simp at live
      simp only [withNode_nodeTab, Function.update_of_ne other, released_nodeTab] at live zero
      obtain ⟨liveT, zeroT⟩ := removeEntries_within .refl .trans ih entries i live zero
      rw [withReferences_type] at liveT
      simp only [withReferences_nodeTab, Function.update_of_ne other] at zeroT
      exact ⟨liveT, zeroT⟩

/-! ## Names before and after -/

theorem naming_pos_iff : 0 < s.naming chain i ↔ s.Named chain i := by
  unfold naming
  rw [Finset.sum_pos_iff]
  constructor
  · rintro ⟨d, bounded, positive⟩
    obtain ⟨e, listed, names⟩ := List.countP_pos_iff.mp positive
    exact ⟨d, Finset.mem_range.mp bounded, e, listed, by simpa using names⟩
  · rintro ⟨d, bounded, e, listed, names⟩
    exact ⟨d, Finset.mem_range.mpr bounded, List.countP_pos_iff.mpr ⟨e, listed, by simpa using names⟩⟩

def TurnedEmpty (s s' : VirtualDisc) (i : Nat) : Prop :=
  (s.nodeTab i).type ≠ .empty ∧ (s'.nodeTab i).type = .empty

theorem removeFile_unnamed (pool : s.PoolOf chain) (named : s.Named chain file)
    (removing : removeFile (s.inodesNum + 1) s file = .ok t) (unnamed : ¬ s.Named chain i) :
    t.nodeTab i = s.nodeTab i :=
  removeFile_staysIn (P := s.Named chain) pool (fun d bounded _ e listed => ⟨d, bounded, e, listed, rfl⟩) _ s chain
    file t (.refl pool) named removing i unnamed

theorem turnedEmpty_iff (directories : s.DirectoryConsistent chain) (directories' : s'.DirectoryConsistent chain')
    (pool : s.PoolOf chain) (named : s.Named chain file) (removing : removeFile (s.inodesNum + 1) s file = .ok t)
    (superblock : s'.superblock = s.superblock) (nodes : s'.nodeTab = t.nodeTab) (inRange : i < s.inodesNum) :
    s.TurnedEmpty s' i ↔ 0 < s.naming chain i ∧ s'.naming chain' i = 0 := by
  have size := inodesNum_eq superblock
  rw [naming_pos_iff]
  constructor
  · rintro ⟨live, empty⟩
    refine ⟨?_, directories'.naming_empty empty⟩
    by_contra unnamed
    rw [nodes, removeFile_unnamed pool named removing unnamed] at empty
    exact live empty
  · rintro ⟨before, none_⟩
    obtain ⟨_, live, notRoot⟩ := directories.nameable_of_named before
    refine ⟨live, ?_⟩
    by_contra live'
    -- an inode that stayed would have no references, and had some before
    have count := directories'.counted i (by rwa [size]) notRoot live'
    rw [none_] at count
    have zero : (t.nodeTab i).referencesNum = 0 := by
      rw [← nodes]
      exact UInt8.toNat_inj.mp count
    rw [nodes] at live'
    obtain ⟨_, zeroBefore⟩ := removeFile_settled _ s file t removing i live' zero
    have positive := naming_pos_iff.mpr before
    rw [← directories.counted i inRange notRoot live, zeroBefore, UInt8.toNat_zero] at positive
    exact Nat.lt_irrefl 0 positive

/-! ## The blocks -/

/-- The blocks freed are those of the inodes emptied. -/
theorem freed_iff (blocks : s.BlockConsistent chain) (removed : Removed s chain t chain') {b : Nat}
    (bounded : b < s.datablocksNum) : s.dataMap b = true ∧ t.dataMap b = false ↔
      ∃ i < s.inodesNum, s.TurnedEmpty t i ∧ b ∈ chain i := by
  have size := inodesNum_eq removed.superblock
  have boundedT : b < t.datablocksNum := by rwa [datablocksNum, removed.superblock]
  rw [blocks.pool.marked_iff b bounded, ← Bool.not_eq_true, removed.pool.marked_iff b boundedT, size]
  constructor
  · rintro ⟨⟨i, owner, held⟩, free⟩
    refine ⟨i, owner, ⟨?_, ?_⟩, held⟩
    · intro empty
      rw [blocks.chain_eq_nil owner empty] at held
      cases held
    · by_contra live
      exact free ⟨i, owner, (removed.spared owner live).2 ▸ held⟩
  · rintro ⟨i, owner, ⟨live, empty⟩, held⟩
    refine ⟨⟨i, owner, held⟩, ?_⟩
    rintro ⟨j, owner', held'⟩
    rcases removed.fates j owner' with ⟨node, same⟩ | ⟨_, _, none_⟩
    · rw [same] at held'
      -- the block has one owner, and that one is empty
      by_cases mine : j = i
      · subst mine
        rw [node] at empty
        exact live empty
      · exact blocks.pool.disjoint j owner' i owner mine held' held
    · rw [none_] at held'
      cases held'

/-! ## The whole call -/

/-- The disc once a name has been taken out of a directory: one entry less there,
the inodes that have lost their last name emptied, their blocks free, and the
counts of the others the number of their names. No entry counts the root directory. -/
structure TakenOut (s : VirtualDisc) (dir : Nat) (filename : CString) (s' : VirtualDisc) : Prop where
  entry : ∃ elem, elem.is filename = true ∧ (s.entries s.chainOf dir).Perm (elem :: s'.entries s'.chainOf dir)
  others : ∀ d < s.inodesNum, d ≠ dir → (s'.nodeTab d).type ≠ .empty →
    s'.entries s'.chainOf d = s.entries s.chainOf d
  emptied : ∀ i < s.inodesNum, s.TurnedEmpty s' i ↔ 0 < s.naming s.chainOf i ∧ s'.naming s'.chainOf i = 0
  counted : ∀ i < s.inodesNum, i ≠ 0 → (s'.nodeTab i).type ≠ .empty →
    (s'.nodeTab i).referencesNum.toNat = s'.naming s'.chainOf i
  root : s'.nodeTab 0 = s.nodeTab 0
  freed : ∀ b < s.datablocksNum, s.dataMap b = true ∧ s'.dataMap b = false ↔
    ∃ i < s.inodesNum, s.TurnedEmpty s' i ∧ b ∈ s.chainOf i

theorem unlinkFrom_takenOut (blocks : s.BlockConsistent s.chainOf) (directories : s.DirectoryConsistent s.chainOf)
    (found : s.Found s.chainOf dir) (placed : s.placeOn filename (s.chainOf dir) = some place) :
    ∃ s', s.unlinkFrom dir filename (s.elemAt place).inodeId = .ok s' ∧ s.TakenOut dir filename s' := by
  obtain ⟨s', chain', returned, unlinked, directories'⟩ := unlinkFrom_ok blocks directories found placed rfl
  obtain ⟨t, chainT, removing, removed, _, rfl⟩ := unlinkFrom_returned blocks.pool found.inRange placed returned
  have pool' := unlinked.blocks.pool
  have size := inodesNum_eq unlinked.superblock
  have entries (d : Nat) (bounded : d < s.inodesNum) := pool'.entries_chainOf (d := d) (by rwa [size])
  have listed : s.elemAt place ∈ s.entries s.chainOf dir := by
    rw [entries_of_directory found.directory]
    exact elemAt_mem_usedElems placed
  have named : s.Named s.chainOf (s.elemAt place).inodeId := ⟨dir, found.inRange, _, listed, rfl⟩
  -- the counts of what is left are those of its own chains
  have directoriesC := (Consistent.chainOf ⟨chain', unlinked.blocks, directories'⟩).2
  refine ⟨t.clear place, returned, ?_⟩
  constructor
  · refine ⟨s.elemAt place, (placeOn_eq_some placed).2.2, ?_⟩
    rw [entries dir found.inRange]
    exact unlinked.removed
  · intro d bounded other live
    rw [entries d bounded]
    exact unlinked.others d bounded other live
  · intro i bounded
    exact turnedEmpty_iff directories directoriesC blocks.pool named removing unlinked.superblock rfl bounded
  · intro i bounded
    exact directoriesC.counted i (by rwa [size])
  · have rootKept : t.nodeTab 0 = s.nodeTab 0 := removeFile_unnamed blocks.pool named removing fun rootNamed =>
      (directories.nameable_of_named rootNamed).2.2 rfl
    exact rootKept
  · intro b bounded
    exact freed_iff blocks removed bounded

/-- In any directory that the root directory leads to, every name can be taken out. -/
theorem unlink_takes_out (consistent : s.Consistent) (fromRoot : s.FromRoot s.chainOf dir)
    (listed : e ∈ s.entries s.chainOf dir) (named : e.is filename = true) :
    ∃ file s', s.lookup dir filename = some file ∧ s.unlinkFrom dir filename file = .ok s' ∧
      s.TakenOut dir filename s' ∧
      ∀ path, s.target path = some dir → ∃ out, s.unlink path filename = .ok (out, s') := by
  obtain ⟨blocks, directories⟩ := consistent.chainOf
  have navigable := directories.navigable blocks
  have found := fromRoot.found navigable
  rw [entries_of_directory found.directory] at listed
  obtain ⟨place, placed⟩ := placeOn_of_is listed named
  have looked : s.lookup dir filename = some (s.elemAt place).inodeId := by
    rw [lookup, findInDir_eq navigable.pool found.inRange, if_pos found.directory, placed]
    rfl
  obtain ⟨s', returned, takenOut⟩ := unlinkFrom_takenOut blocks directories found placed
  refine ⟨_, s', looked, returned, takenOut, fun path reaches => ?_⟩
  have effect : s.effect (.unlink path filename) = .unlink dir filename (s.elemAt place).inodeId := by
    simp only [VirtualDisc.effect, locate, reaches, Option.bind_some, looked, Option.map_some]
  apply (exec_prefixed navigable (.unlink path filename)).ok_iff.mpr
  exact ⟨[], by rw [effect, perform, returned]; rfl⟩

def nestedDisc : VirtualDisc :=
  (smallDisc.after (.makeDir dirName)).after (.copyFileToDisc fileName dirName [1, 2, 3])

theorem nestedDisc_consistent : nestedDisc.Consistent := by
  have made : (smallDisc.after (.makeDir dirName)).Consistent :=
    after_consistent (blank_consistent (by decide +kernel)) _ (by decide +kernel) (by decide +kernel)
      (by decide +kernel) (by decide +kernel)
  exact after_consistent made _ (by decide +kernel) (by decide +kernel) (by decide +kernel) (by decide +kernel)

theorem unlink_takes_out_nested : ∃ file s', nestedDisc.lookup 0 dirName = some file ∧
    nestedDisc.unlinkFrom 0 dirName file = .ok s' ∧ nestedDisc.TakenOut 0 dirName s' ∧
    ∀ path, nestedDisc.target path = some 0 → ∃ out, nestedDisc.unlink path dirName = .ok (out, s') := by
  have listed : readElem (nestedDisc.data 0) 0 ∈ nestedDisc.entries nestedDisc.chainOf 0 := by
    have block : nestedDisc.chainOf 0 = [0] := by decide +kernel
    have directory : (nestedDisc.nodeTab 0).type = .directory := by decide +kernel
    rw [entries_of_directory directory, block]
    refine List.mem_flatMap.mpr ⟨0, List.mem_singleton_self 0, ?_⟩
    exact List.mem_filter.mpr ⟨List.mem_map_of_mem (by decide), by decide +kernel⟩
  exact unlink_takes_out nestedDisc_consistent .root listed (by decide +kernel)

end VirtualDisc
end SoiStud.FileSystem
