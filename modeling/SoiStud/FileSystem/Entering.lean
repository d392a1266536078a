import SoiStud.FileSystem.Changes

/-! The commands that enter a name into a directory: the disc they return. -/

set_option autoImplicit false

namespace SoiStud.FileSystem
namespace VirtualDisc

open Library

variable {s s' : VirtualDisc} {chain chain' : Nat → List Nat} {dir file i j : Nat} {filename : CString}
  {elem : DirectoryElement} {extra : List DirectoryElement}

/-- A directory has the element for inode `j` and `extra` besides its entries;
of the other inodes only the blocks of the directory have changed. -/
structure Entered (s : VirtualDisc) (chain : Nat → List Nat) (dir j : Nat) (elem : DirectoryElement)
    (extra : List DirectoryElement) (s' : VirtualDisc) (chain' : Nat → List Nat) : Prop where
  superblock : s'.superblock = s.superblock
  blocks : s'.BlockConsistent chain'
  types : ∀ i, i ≠ j → (s'.nodeTab i).type = (s.nodeTab i).type
  references : ∀ i, i ≠ j → (s'.nodeTab i).referencesNum = (s.nodeTab i).referencesNum
  inserted : (s'.entries chain' dir).Perm (s.entries chain dir ++ elem :: extra)
  others : ∀ k < s.inodesNum, k ≠ dir → s'.entries chain' k = s.entries chain k
  kept : ∀ i < s.inodesNum, i ≠ dir → (s.nodeTab i).type ≠ .empty → Kept s chain s' chain' i

structure Touched (s : VirtualDisc) (chain : Nat → List Nat) (j : Nat) (t : VirtualDisc) : Prop where
  superblock : t.superblock = s.superblock
  blocks : t.BlockConsistent chain
  types : ∀ i, i ≠ j → (t.nodeTab i).type = (s.nodeTab i).type
  references : ∀ i, i ≠ j → (t.nodeTab i).referencesNum = (s.nodeTab i).referencesNum
  entries : ∀ k, t.entries chain k = s.entries chain k
  kept : ∀ i, (s.nodeTab i).type ≠ .empty → Kept s chain t chain i

theorem touched_withReferences (blocks : s.BlockConsistent chain) (j : Nat) (n : UInt8) :
    s.Touched chain j (s.withReferences j n) where
  superblock := rfl
  blocks := blocks.withReferences
  types i _ := withReferences_type s j n i
  references i other := by simp [other]
  entries k := (kept_withReferences k).entries
  kept i _ := kept_withReferences i

theorem touched_allocate {type : InodeType} {size : Nat} (blocks : s.BlockConsistent chain) (bounded : j < s.inodesNum)
    (empty : (s.nodeTab j).type = .empty) (sized : type = .file → size = 0) :
    s.Touched chain j (s.allocate j type size) where
  superblock := rfl
  blocks := blocks.allocate bounded empty sized
  types i other := (kept_allocate chain other).type
  references i other := by simp [allocate, other]
  entries := entries_allocate type size blocks bounded empty
  kept i live := kept_allocate chain fun same => live (same ▸ empty)

theorem Touched.entered {t : VirtualDisc} {taken : List Nat} (touched : s.Touched chain j t)
    (inRange : dir < s.inodesNum) (directory : (t.nodeTab dir).type = .directory)
    (inserted : t.Inserted chain dir elem taken extra s') :
    s.Entered chain dir j elem extra s' (Function.update chain dir (chain dir ++ taken)) := by
  have size := inodesNum_eq touched.superblock
  have inRangeT : dir < t.inodesNum := by rwa [size]
  have kept (i : Nat) (bounded : i < s.inodesNum) (other : i ≠ dir) :
      Kept t chain s' (Function.update chain dir (chain dir ++ taken)) i :=
    inserted.kept touched.blocks.pool inRangeT (by rwa [size]) other
  constructor
  · exact inserted.superblock.trans touched.superblock
  · exact touched.blocks.inserted inserted directory
  · intro i other
    exact (inserted.type i).trans (touched.types i other)
  · intro i other
    exact (inserted.references i).trans (touched.references i other)
  · have gained := inserted.entries directory
    rwa [touched.entries] at gained
  · intro k bounded other
    exact (kept k bounded other).entries.trans (touched.entries k)
  · intro i bounded other live
    exact (touched.kept i live).trans (kept i bounded other)

theorem Entered.resized {t : VirtualDisc} {chainT : Nat → List Nat} {blocks : List Nat} {size : Nat}
    (entered : s.Entered chain dir j elem extra t chainT) (inRange : dir < s.inodesNum)
    (empty : (s.nodeTab j).type = .empty) (isFile : (t.nodeTab j).type = .file)
    (resized : t.Resized chainT j blocks size s') (sized : blocks.length = blocksFor size) :
    s.Entered chain dir j elem extra s' (Function.update chainT j blocks) := by
  have same := inodesNum_eq entered.superblock
  constructor
  · exact resized.superblock.trans entered.superblock
  · exact entered.blocks.resized resized isFile sized
  · intro i other
    exact (resized.type i).trans (entered.types i other)
  · intro i other
    exact (resized.references i).trans (entered.references i other)
  · rw [resized.entries isFile (by rwa [same])]
    exact entered.inserted
  · intro k bounded other
    exact (resized.entries isFile (by rwa [same])).trans (entered.others k bounded other)
  · intro i bounded other live
    have distinct : i ≠ j := fun same => live (same ▸ empty)
    exact (entered.kept i bounded other live).trans (resized.kept (by rwa [same]) distinct)

/-! ## link -/

theorem linkInto_entered (blocks : s.BlockConsistent chain) (inRange : dir < s.inodesNum)
    (directory : (s.nodeTab dir).type = .directory) (bounded : file < s.inodesNum) {out : List Output}
    (returned : s.linkInto dir filename file = .ok (out, s')) :
    ∃ chain' extra, s.Entered chain dir file (newElem filename file) extra s' chain' ∧
      (s'.nodeTab file).type = (s.nodeTab file).type ∧
      (s'.nodeTab file).referencesNum = (s.nodeTab file).referencesNum + 1 ∧
      (extra = [] ↔ s.AddsOnly (chain dir)) := by
  rw [linkInto, node_eq_ok file bounded, ok_bind] at returned
  have touched := touched_withReferences blocks file ((s.nodeTab file).referencesNum + 1)
  have type := withReferences_type s file ((s.nodeTab file).referencesNum + 1)
  rcases addElemToDir_spec touched.blocks.pool inRange filename file with
    ⟨t, taken, extra, added, inserted, _, adds⟩ | ⟨failed, _⟩
  · rw [added] at returned
    cases returned
    refine ⟨_, extra, touched.entered inRange ((type dir).trans directory) inserted, ?_, ?_, adds⟩
    · exact (inserted.type file).trans (type file)
    · rw [inserted.references]
      simp
  · exact absurd returned (failed _)

theorem linkInto_ok (filename : CString) (blocks : s.BlockConsistent chain) (inRange : dir < s.inodesNum)
    (bounded : file < s.inodesNum) (enough : s.dirNeed (chain dir) ≤ s.freeBlocks.length)
    (adds : s.AddsOnly (chain dir)) : ∃ s', s.linkInto dir filename file = .ok ([], s') := by
  rw [linkInto, node_eq_ok file bounded, ok_bind]
  have counted : (s.withReferences file ((s.nodeTab file).referencesNum + 1)).BlockConsistent chain :=
    blocks.withReferences
  rcases addElemToDir_spec counted.pool inRange filename file with
    ⟨t, taken, extra, added, _⟩ | ⟨_, short⟩
  · exact ⟨t, added⟩
  · have takes : (s.withReferences file ((s.nodeTab file).referencesNum + 1)).entryNeed (chain dir) =
        s.dirNeed (chain dir) := entryNeed_of_addsOnly adds
    rw [takes] at short
    exact absurd short (Nat.not_lt.mpr enough)

/-! ## copy_file_to_disc -/

theorem findFreeNode_spec (free : s.freeNodes ≠ []) :
    s.findFreeNode < s.inodesNum ∧ (s.nodeTab s.findFreeNode).type = .empty :=
  mem_freeNodes.mp (findFreeNode_mem free)

theorem touched_allocated (blocks : s.BlockConsistent chain) (free : s.freeNodes ≠ []) :
    s.Touched chain s.findFreeNode s.allocated :=
  touched_allocate blocks (findFreeNode_spec free).1 (findFreeNode_spec free).2 fun _ => rfl

theorem copyInto_entered (blocks : s.BlockConsistent chain) (inRange : dir < s.inodesNum)
    (directory : (s.nodeTab dir).type = .directory) (free : s.freeNodes ≠ []) {content : List UInt8}
    {out : List Output} (returned : s.copyInto dir filename (some content) = .ok (out, s')) :
    ∃ chain' extra, s.Entered chain dir s.findFreeNode (newElem filename s.findFreeNode) extra s' chain' ∧
      (s'.nodeTab s.findFreeNode).type = .file ∧ (s'.nodeTab s.findFreeNode).referencesNum = 1 ∧
      (extra = [] ↔ s.AddsOnly (chain dir)) := by
  obtain ⟨bounded, empty⟩ := findFreeNode_spec free
  have touched := touched_allocated blocks free
  have apart : s.findFreeNode ≠ dir := fun same => by
    rw [same, directory] at empty
    cases empty
  have fileA : (s.allocated.nodeTab s.findFreeNode).type = .file := by simp [VirtualDisc.allocated]
  rcases addElemToDir_spec touched.blocks.pool inRange filename s.findFreeNode with
    ⟨t, taken, extra, added, inserted, _, adds⟩ | ⟨failed, _⟩
  · -- the copy has returned, so there were blocks for the writer
    have enough := blocksRead_of_copyInto free added returned
    obtain ⟨s'', copied, written⟩ := copyInto_spec content free added enough
    rw [copied] at returned
    cases returned
    have entered := touched.entered inRange ((touched.types dir apart.symm).trans directory) inserted
    have sizeT := inodesNum_eq entered.superblock
    have noneT : Function.update chain dir (chain dir ++ taken) s.findFreeNode = [] := by
      rw [Function.update_of_ne apart]
      exact blocks.chain_eq_nil bounded empty
    have fileT : (t.nodeTab s.findFreeNode).type = .file := (inserted.type _).trans fileA
    have resized := written.resized entered.blocks.pool (by rwa [sizeT]) noneT fun b member =>
      List.mem_of_mem_take member
    have emptySize : (t.nodeTab s.findFreeNode).size = 0 := by
      rw [inserted.nodes]
      simp [VirtualDisc.allocated]
    rw [emptySize, Nat.zero_add] at resized
    have sized : (t.freeBlocks.take (blocksFor content.length)).length = blocksFor content.length := by
      rw [List.length_take, Nat.min_eq_left ((blocksFor_le_blocksRead _).trans enough)]
    refine ⟨_, extra, entered.resized inRange empty fileT resized sized, ?_, ?_, adds⟩
    · rw [resized.type, fileT]
    · rw [resized.references, inserted.references]
      simp [VirtualDisc.allocated]
  · rw [copyInto, if_neg fun none_ => free (findFreeNode_eq_none32_iff.mp none_)] at returned
    obtain ⟨result, added, _⟩ := bind_eq_ok.mp returned
    exact absurd added (failed result)

theorem copyInto_ok (filename : CString) (blocks : s.BlockConsistent chain) (inRange : dir < s.inodesNum)
    (free : s.freeNodes ≠ []) {content : List UInt8}
    (enough : s.dirNeed (chain dir) + blocksRead content.length ≤ s.freeBlocks.length)
    (adds : s.AddsOnly (chain dir)) : ∃ s', s.copyInto dir filename (some content) = .ok ([], s') := by
  have allocated := (touched_allocated blocks free).blocks
  have takes : s.allocated.entryNeed (chain dir) = s.dirNeed (chain dir) := entryNeed_of_addsOnly adds
  have frees : s.allocated.freeBlocks = s.freeBlocks := rfl
  rcases addElemToDir_spec allocated.pool inRange filename s.findFreeNode with
    ⟨t, taken, extra, added, inserted, length, _⟩ | ⟨_, short⟩
  · have parts := congrArg List.length inserted.free
    rw [List.length_append, length, takes, frees] at parts
    obtain ⟨s', copied, _⟩ := copyInto_spec content free added (by omega)
    exact ⟨s', copied⟩
  · rw [takes, frees] at short
    omega

end VirtualDisc
end SoiStud.FileSystem
