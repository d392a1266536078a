import SoiStud.FileSystem.Changes
import SoiStud.FileSystem.References

/-! What `unlink` leaves, and that it returns on a consistent disc. -/

set_option autoImplicit false

namespace SoiStud.FileSystem
namespace VirtualDisc

open Library

variable {s t s' : VirtualDisc} {chain chain' : Nat → List Nat} {dir file i : Nat} {filename : CString}
  {place : Nat × Nat}

def clear (s : VirtualDisc) (place : Nat × Nat) : VirtualDisc :=
  s.withData place.1 (writeElem (s.data place.1) place.2 { s.elemAt place with used := 0, inodeId := 2 ^ 16 - 1 })

/-- An element of `dir` is gone, and inodes may have been emptied; the others
are left alone up to their reference counts. -/
structure Unlinked (s : VirtualDisc) (chain : Nat → List Nat) (dir : Nat) (elem : DirectoryElement)
    (s' : VirtualDisc) (chain' : Nat → List Nat) : Prop where
  superblock : s'.superblock = s.superblock
  blocks : s'.BlockConsistent chain'
  directory : (s'.nodeTab dir).type = .directory
  types : ∀ i < s.inodesNum, (s'.nodeTab i).type ≠ .empty → (s'.nodeTab i).type = (s.nodeTab i).type
  removed : (s.entries chain dir).Perm (elem :: s'.entries chain' dir)
  others : ∀ k < s.inodesNum, k ≠ dir → (s'.nodeTab k).type ≠ .empty → s'.entries chain' k = s.entries chain k
  kept : ∀ i < s.inodesNum, i ≠ dir → (s'.nodeTab i).type ≠ .empty → Kept s chain s' chain' i

/-- The element that is looked for a second time is the one found first: a
removal writes no block. -/
theorem findElemInDir_removed (removed : Removed s chain t chain') (inRange : dir < s.inodesNum)
    (directory : (t.nodeTab dir).type = .directory) (placed : s.placeOn filename (chain dir) = some place) :
    t.findElemInDir dir filename = .ok (some place) := by
  have size := inodesNum_eq removed.superblock
  have kept := removed.kept inRange (by simp [directory])
  rw [findElemInDir_eq removed.pool (by rwa [size]), if_pos directory, kept.blocks,
    placeOn_congr fun b _ => congrFun removed.data b, placed]

theorem unlinkFrom_eq (removing : removeFile (s.inodesNum + 1) s file = .ok t) (removed : Removed s chain t chain')
    (inRange : dir < s.inodesNum) (directory : (t.nodeTab dir).type = .directory)
    (placed : s.placeOn filename (chain dir) = some place) :
    s.unlinkFrom dir filename file = .ok (t.clear place) := by
  simp only [unlinkFrom, removing, ok_bind, findElemInDir_removed removed inRange directory placed]
  rfl

theorem elemAt_removed (removed : Removed s chain t chain') (place : Nat × Nat) : t.elemAt place = s.elemAt place := by
  rw [elemAt, elemAt, removed.data]

theorem clear_unlinked (blocks : s.BlockConsistent chain) (removed : Removed s chain t chain')
    (inRange : dir < s.inodesNum) (directory : (t.nodeTab dir).type = .directory)
    (placed : s.placeOn filename (chain dir) = some place) :
    s.Unlinked chain dir (s.elemAt place) (t.clear place) chain' := by
  obtain ⟨member, slot, named⟩ := placeOn_eq_some placed
  have size := inodesNum_eq removed.superblock
  have inRangeT : dir < t.inodesNum := by rwa [size]
  have live : (t.nodeTab dir).type ≠ .empty := by simp [directory]
  have sameDir := removed.kept inRange live
  have memberT : place.1 ∈ chain' dir := by rwa [sameDir.blocks]
  have blocksT := blocks.removed removed
  constructor
  · exact removed.superblock
  · exact blocksT.withData
  · exact directory
  · intro i bounded liveI
    exact (removed.kept bounded liveI).type
  · rw [← sameDir.entries, entries_of_directory directory, entries_of_directory (s := t.clear place) directory,
      ← elemAt_removed removed place]
    -- the blocks before and after the one that is written keep their elements
    obtain ⟨before, after, parts⟩ := List.append_of_mem memberT
    have unique := (removed.pool.linked dir inRangeT).nodup
    rw [parts] at unique ⊢
    have apart := List.nodup_append.mp unique
    have beforeKept : (t.clear place).usedElems before = t.usedElems before := usedElems_congr fun b inBefore => by
      have other : b ≠ place.1 := fun same => apart.2.2 b inBefore place.1 (by simp) same
      simp [clear, other]
    have afterKept : (t.clear place).usedElems after = t.usedElems after := usedElems_congr fun b inAfter => by
      have other : b ≠ place.1 := fun same => (List.nodup_cons.mp apart.2.1).1 (same ▸ inAfter)
      simp [clear, other]
    have used : (readElem (t.data place.1) place.2).used ≠ 0 := by
      have usedHere := DirectoryElement.used_of_is named
      rwa [← elemAt_removed removed place] at usedHere
    have cleared := blockElems_clear (t.data place.1) (i := place.2)
      (e := { t.elemAt place with used := 0, inodeId := 2 ^ 16 - 1 }) slot (by simp) rfl used
    rw [← List.singleton_append, usedElems_append, usedElems_append, usedElems_append, usedElems_append, beforeKept,
      afterKept, usedElems_singleton, usedElems_singleton]
    simp only [clear, withData_data, Function.update_self]
    refine ((cleared.append_right _).append_left _).trans ?_
    rw [List.cons_append]
    exact List.perm_middle
  · intro k bounded other liveK
    exact ((kept_withData removed.pool inRangeT memberT (by rwa [size]) other).entries).trans
      (removed.kept bounded liveK).entries
  · intro i bounded other liveI
    exact (removed.kept bounded liveI).trans (kept_withData removed.pool inRangeT memberT (by rwa [size]) other)

theorem unlinkFrom_returned (pool : s.PoolOf chain) (inRange : dir < s.inodesNum)
    (placed : s.placeOn filename (chain dir) = some place)
    (returned : s.unlinkFrom dir filename file = .ok s') :
    ∃ t chain', removeFile (s.inodesNum + 1) s file = .ok t ∧ Removed s chain t chain' ∧
      (t.nodeTab dir).type = .directory ∧ s' = t.clear place := by
  obtain ⟨t, removing, again⟩ := bind_eq_ok.mp returned
  obtain ⟨chain', removed⟩ := removeFile_removed _ s chain file t pool removing
  have size := inodesNum_eq removed.superblock
  -- had the directory been emptied, there would be no element to clear
  by_cases directory : (t.nodeTab dir).type = .directory
  · rw [unlinkFrom_eq removing removed inRange directory placed] at returned
    cases returned
    exact ⟨t, chain', removing, removed, directory, rfl⟩
  · rw [findElemInDir_eq removed.pool (by rwa [size]), if_neg directory] at again
    cases again

theorem unlinkFrom_unlinked (blocks : s.BlockConsistent chain) (inRange : dir < s.inodesNum)
    (placed : s.placeOn filename (chain dir) = some place)
    (returned : s.unlinkFrom dir filename file = .ok s') :
    ∃ t chain', removeFile (s.inodesNum + 1) s file = .ok t ∧ s'.nodeTab = t.nodeTab ∧
      s.Unlinked chain dir (s.elemAt place) s' chain' := by
  obtain ⟨t, chain', removing, removed, directory, rfl⟩ := unlinkFrom_returned blocks.pool inRange placed returned
  exact ⟨t, chain', removing, rfl, clear_unlinked blocks removed inRange directory placed⟩

/-! ## On a consistent disc -/

/-- The inodes named from `d` once the element naming `file` in `dir` is not counted. -/
def namesWithout (s : VirtualDisc) (chain : Nat → List Nat) (dir file d : Nat) : List Nat :=
  let ids := (s.usedElems (chain d)).map fun e => e.inodeId
  if d = dir then ids.erase file else ids

inductive Guarded (s : VirtualDisc) (chain : Nat → List Nat) (dir file : Nat) : Nat → Prop where
  | root : Guarded s chain dir file 0
  | entry {d i : Nat} : d < s.inodesNum → Guarded s chain dir file d → i ∈ s.namesWithout chain dir file d →
      i < s.inodesNum → (s.nodeTab i).type = .directory → Guarded s chain dir file i

theorem Guarded.directory (navigable : s.Navigable chain) (guarded : s.Guarded chain dir file i) :
    i < s.inodesNum ∧ (s.nodeTab i).type = .directory := by
  cases guarded with
  | root => exact ⟨navigable.inodes, navigable.root⟩
  | entry _ _ _ inRange directory => exact ⟨inRange, directory⟩

theorem FromRoot.guarded (fromRoot : s.FromRoot chain i) :
    s.Guarded chain dir file i ∨ s.Guarded chain dir file dir := by
  induction fromRoot with
  | root => exact .inl .root
  | @entry d e bounded _ listed inRange directory ih =>
    rcases ih with guarded | there
    · by_cases here : d = dir
      · exact .inr (here ▸ guarded)
      · refine .inl (.entry bounded guarded ?_ inRange directory)
        rw [namesWithout, if_neg here]
        have isDirectory : (s.nodeTab d).type = .directory := by
          by_contra other
          rw [entries_of_ne other] at listed
          cases listed
        rw [entries_of_directory isDirectory] at listed
        exact List.mem_map_of_mem listed
    · exact .inr there

theorem countP_inodeId (l : List DirectoryElement) (i : Nat) :
    l.countP (fun e => e.inodeId = i) = (l.map fun e => e.inodeId).count i := by
  rw [List.count, List.countP_map]
  rfl

theorem mem_held_namesWithout {d : Nat} (listed : i ∈ s.held (s.namesWithout chain dir file) d) :
    ∃ e ∈ s.entries chain d, e.inodeId = i := by
  unfold held at listed
  split at listed
  next directory =>
    rw [entries_of_directory directory, ← List.mem_map]
    unfold namesWithout at listed
    split at listed
    next => exact List.mem_of_mem_erase listed
    next => exact listed
  next => cases listed

theorem naming_namesWithout (inRange : dir < s.inodesNum) (directory : (s.nodeTab dir).type = .directory)
    (listed : ∃ e ∈ s.entries chain dir, e.inodeId = file) (i : Nat) :
    s.naming chain i = [file].count i + s.outstanding (s.namesWithout chain dir file) ∅ i := by
  have member : dir ∈ Finset.range s.inodesNum := Finset.mem_range.mpr inRange
  have others : ∀ d ∈ (Finset.range s.inodesNum).erase dir, (s.entries chain d).countP (fun e => e.inodeId = i) =
      (s.held (s.namesWithout chain dir file) d).count i := by
    intro d outside
    have other : d ≠ dir := Finset.ne_of_mem_erase outside
    unfold held namesWithout
    rw [countP_inodeId, if_neg other]
    split
    next isDirectory => rw [entries_of_directory isDirectory]
    next isOther => rw [entries_of_ne isOther, List.map_nil]
  have here : (s.entries chain dir).countP (fun e => e.inodeId = i) =
      [file].count i + (s.held (s.namesWithout chain dir file) dir).count i := by
    rw [entries_of_directory directory, ← List.mem_map] at listed
    unfold held namesWithout
    rw [countP_inodeId, entries_of_directory directory, if_pos directory, if_pos rfl,
      (List.perm_cons_erase listed).count_eq, ← List.singleton_append, List.count_append]
  unfold naming outstanding
  rw [Finset.sdiff_empty, ← Finset.add_sum_erase _ _ member, ← Finset.add_sum_erase _ _ member,
    Finset.sum_congr rfl others, here]
  omega

theorem namesWithout_ledger (blocks : s.BlockConsistent chain) (directories : s.DirectoryConsistent chain)
    (found : s.Found chain dir) (listed : ∃ e ∈ s.entries chain dir, e.inodeId = file) :
    s.Ledger (s.namesWithout chain dir file) (s.Guarded chain dir file) ∅ [file] := by
  have navigable : s.Navigable chain := directories.navigable blocks
  constructor
  · intro a member
    cases member
  · intro i member
    obtain ⟨e, inDir, rfl⟩ := listed
    rw [List.mem_singleton.mp member]
    exact directories.named dir found.inRange e inDir
  · intro d bounded _ i member
    obtain ⟨e, inD, rfl⟩ := mem_held_namesWithout member
    exact directories.named d bounded e inD
  · intro i bounded notRoot live
    rw [directories.counted i bounded notRoot live]
    exact naming_namesWithout found.inRange found.directory listed i
  · intro p guards
    obtain ⟨bounded, directory⟩ := guards.directory navigable
    refine ⟨bounded, Finset.notMem_empty p, directory, ?_⟩
    cases guards with
    | root => exact .inl rfl
    | entry _ guarded member _ _ => exact .inr ⟨_, guarded, member⟩

theorem Ledger.directories {names : Nat → List Nat} {guard : Nat → Prop} (ledger : t.Ledger names guard ∅ [])
    (root : guard 0) (superblock : s'.superblock = t.superblock) (nodes : s'.nodeTab = t.nodeTab)
    (held : ∀ d < t.inodesNum, (t.held names d).Perm ((s'.entries chain' d).map fun e => e.inodeId)) :
    s'.DirectoryConsistent chain' := by
  have size := inodesNum_eq superblock
  obtain ⟨inodes, _, directory, _⟩ := ledger.guarded 0 root
  constructor
  · rwa [size]
  · rwa [nodes]
  · intro d bounded e member
    rw [size] at bounded
    unfold Nameable
    rw [size, nodes]
    apply ledger.named d bounded (Finset.notMem_empty d)
    rw [(held d bounded).mem_iff]
    exact List.mem_map_of_mem member
  · intro i bounded notRoot live
    rw [size] at bounded
    rw [nodes] at live ⊢
    rw [ledger.counted i bounded notRoot live, List.count_nil, Nat.zero_add]
    unfold outstanding naming
    rw [Finset.sdiff_empty, size]
    apply Finset.sum_congr rfl
    intro d member
    rw [countP_inodeId, (held d (Finset.mem_range.mp member)).count_eq]

theorem held_clear (removed : Removed s chain t chain')
    (unlinked : s.Unlinked chain dir (s.elemAt place) (t.clear place) chain')
    (named : (s.elemAt place).inodeId = file) {d : Nat} (bounded : d < s.inodesNum) :
    (t.held (s.namesWithout chain dir file) d).Perm
      (((t.clear place).entries chain' d).map fun e => e.inodeId) := by
  by_cases isDirectory : (t.nodeTab d).type = .directory
  · have live : (t.nodeTab d).type ≠ .empty := by simp [isDirectory]
    have isDirectoryS : (s.nodeTab d).type = .directory := by
      rw [← (removed.kept bounded live).type, isDirectory]
    unfold held namesWithout
    rw [if_pos isDirectory]
    by_cases here : d = dir
    · subst here
      have ids := unlinked.removed.map fun e => e.inodeId
      rw [entries_of_directory isDirectoryS, List.map_cons, named] at ids
      rw [if_pos rfl]
      exact (ids.erase file).trans (by rw [List.erase_cons_head])
    · have same := unlinked.others d bounded here live
      rw [entries_of_directory isDirectoryS] at same
      rw [if_neg here, same]
  · have others : ((t.clear place).nodeTab d).type ≠ .directory := isDirectory
    rw [held, if_neg isDirectory, entries_of_ne others, List.map_nil]

/-- `unlink` returns, and the disc it leaves is consistent again. -/
theorem unlinkFrom_ok (blocks : s.BlockConsistent chain) (directories : s.DirectoryConsistent chain)
    (found : s.Found chain dir) (placed : s.placeOn filename (chain dir) = some place)
    (named : (s.elemAt place).inodeId = file) : ∃ s' chain', s.unlinkFrom dir filename file = .ok s' ∧
      s.Unlinked chain dir (s.elemAt place) s' chain' ∧ s'.DirectoryConsistent chain' := by
  have listed : ∃ e ∈ s.entries chain dir, e.inodeId = file := by
    rw [entries_of_directory found.directory]
    exact ⟨_, elemAt_mem_usedElems placed, named⟩
  have guarded : s.Guarded chain dir file dir := found.fromRoot.guarded.elim id id
  -- the removal pays the one call owed; `dir` is guarded, so its names are not needed
  have deep : s.inodesNum < (∅ : Finset Nat).card + (s.inodesNum + 1) := by simp
  have faithful : ∀ d < s.inodesNum, ¬ s.Guarded chain dir file d → s.namesWithout chain dir file d =
      (s.usedElems (chain d)).map fun e => e.inodeId := by
    intro d _ unguarded
    have other : d ≠ dir := by
      rintro rfl
      exact unguarded guarded
    simp only [namesWithout, if_neg other]
  obtain ⟨t, removing, ledger⟩ := removeFile_ok faithful (s.inodesNum + 1) deep s chain [] file
    (.refl blocks.pool) (namesWithout_ledger blocks directories found listed)
  obtain ⟨chain', removed⟩ := removeFile_removed _ s chain file t blocks.pool removing
  obtain ⟨_, _, directory, _⟩ := ledger.guarded dir guarded
  have size := inodesNum_eq removed.superblock
  have unlinked := clear_unlinked blocks removed found.inRange directory placed
  refine ⟨t.clear place, chain', unlinkFrom_eq removing removed found.inRange directory placed, unlinked, ?_⟩
  exact ledger.directories .root rfl rfl fun d bounded => held_clear removed unlinked named (by rwa [← size])

end VirtualDisc
end SoiStud.FileSystem
