import SoiStud.FileSystem.Consistency

/-! The disc that `create` writes and `open` reads back. -/

set_option autoImplicit false

namespace SoiStud.FileSystem

open Library

/-- `sizeof(superblock)`, `sizeof(inode)` and `sizeof(datablock)`; a `bool` is one byte. -/
def superblockSize : UInt64 := 64
def inodeSize : UInt64 := 24
def datablockSize : UInt64 := 8200

/-- The superblock that `create` computes, in the widths of its variables. -/
def createSuperblock (fileName : CString) (size : UInt64) : Superblock :=
  let inodes : UInt32 := (size / UInt64.ofNat maxFilesProportion / inodeSize).toUInt32
  let tables : UInt64 := size - superblockSize - inodes.toUInt64 * inodeSize
  let possibleDatablocksNum : UInt32 := (tables / datablockSize).toUInt32
  let datablocksNum : UInt32 := ((tables - possibleDatablocksNum.toUInt64) / datablockSize).toUInt32
  let dataMapOffset : UInt64 := superblockSize + inodes.toUInt64 * inodeSize
  { discSize := size.toNat
    nodesOffset := superblockSize.toNat
    dataMapOffset := dataMapOffset.toNat
    datablocksOffset := (dataMapOffset + datablocksNum.toUInt64).toNat
    datablocksNum := datablocksNum.toNat
    freeDatablocksNum := datablocksNum.toNat
    inodesNum := inodes.toNat
    freeInodesNum := (inodes - 1).toNat
    name := (List.range filenameLen).map fun j => fileName.bytes.getD j 0
    datablocksNum_lt := datablocksNum.toNat_lt
    inodesNum_lt := inodes.toNat_lt }

namespace VirtualDisc

/-- A disc with nothing on it: the root directory has no blocks, the other
inodes are empty, and no block is marked. -/
def blank (superblock : Superblock) : VirtualDisc where
  superblock := superblock
  nodeTab i := if i = 0 then ⟨0, nil64, .directory, 1⟩ else ⟨0, nil64, .empty, 0⟩
  dataMap _ := false
  datablockTab _ := ⟨nil64, fun _ => 0⟩

def create (fileName : CString) (size : UInt64) : VirtualDisc := blank (createSuperblock fileName size)

def smallDisc : VirtualDisc := create ⟨[100], by decide⟩ 30000

variable {superblock : Superblock}

theorem blank_first (i : Nat) : (blank superblock).first i = nil64 := by
  by_cases root : i = 0 <;> simp [blank, first, root]

theorem blank_pool : (blank superblock).PoolOf fun _ => [] := by
  constructor
  · intro i _
    rw [blank_first]
    exact .stop
  · intro i _ b member
    cases member
  · intro i _ j _ _
    exact List.disjoint_nil_left _
  · intro b _
    simp [blank]
  · intro b _ _
    rfl

theorem blank_entries (d : Nat) : (blank superblock).entries (fun _ => []) d = [] :=
  entries_of_chain_nil rfl

theorem blank_type {i : Nat} (other : i ≠ 0) : ((blank superblock).nodeTab i).type = .empty := by
  simp [blank, other]

theorem blank_blockConsistent : (blank superblock).BlockConsistent fun _ => [] where
  pool := blank_pool
  empty i _ _ := blank_first i
  sized i _ file := by
    by_cases root : i = 0
    · subst root
      cases file
    · rw [blank_type root] at file
      cases file

theorem blank_directoryConsistent (inodes : 0 < superblock.inodesNum) :
    (blank superblock).DirectoryConsistent fun _ => [] where
  inodes := inodes
  root := rfl
  named d _ e listed := by
    rw [blank_entries] at listed
    cases listed
  counted i _ other live := absurd (blank_type other) live

theorem blank_consistent (inodes : 0 < superblock.inodesNum) : (blank superblock).Consistent :=
  ⟨_, blank_blockConsistent, blank_directoryConsistent inodes⟩

end VirtualDisc
end SoiStud.FileSystem
