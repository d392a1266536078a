import SoiStud.FileSystem.Commands

/-! What each single change does to the consistency of a disc and to what the
other inodes hold. -/

set_option autoImplicit false

namespace SoiStud.FileSystem
namespace VirtualDisc

open Library

variable {s s' : VirtualDisc} {chain : Nat → List Nat} {dir file i : Nat}

/-! ## An inode is taken -/

def allocate (s : VirtualDisc) (i : Nat) (type : InodeType) (size : Nat) : VirtualDisc :=
  s.withNode i { s.nodeTab i with referencesNum := 1, type := type, size := size }

section
variable {type : InodeType} {size : Nat}

theorem allocate_first (s : VirtualDisc) (i : Nat) (type : InodeType) (size : Nat) :
    (s.allocate i type size).first = s.first := by
  simp [allocate, first]

theorem PoolOf.allocate (pool : s.PoolOf chain) : (s.allocate i type size).PoolOf chain :=
  pool.frame rfl (allocate_first s i type size) rfl rfl

theorem BlockConsistent.chain_eq_nil (blocks : s.BlockConsistent chain) (inRange : i < s.inodesNum)
    (empty : (s.nodeTab i).type = .empty) : chain i = [] :=
  (blocks.pool.chain_eq_nil_iff inRange).mpr (blocks.empty i inRange empty)

theorem BlockConsistent.allocate (blocks : s.BlockConsistent chain) (inRange : i < s.inodesNum)
    (empty : (s.nodeTab i).type = .empty) (sized : type = .file → size = 0) :
    (s.allocate i type size).BlockConsistent chain := by
  constructor
  · exact blocks.pool.allocate
  · intro j bounded typeJ
    rw [allocate_first]
    by_cases same : j = i
    · subst same
      exact blocks.empty j inRange empty
    · apply blocks.empty j bounded
      simpa [VirtualDisc.allocate, same] using typeJ
  · intro j bounded typeJ
    by_cases same : j = i
    · subst same
      have isFile : type = .file := by simpa [VirtualDisc.allocate] using typeJ
      rw [blocks.chain_eq_nil inRange empty]
      simp [VirtualDisc.allocate, sized isFile, blocksFor_zero]
    · have before := blocks.sized j bounded
      simp only [VirtualDisc.allocate, withNode_nodeTab, Function.update_of_ne same] at typeJ ⊢
      exact before typeJ

theorem kept_allocate (chain : Nat → List Nat) (other : file ≠ i) :
    Kept s chain (s.allocate i type size) chain file := by
  constructor
  · simp [VirtualDisc.allocate, other]
  · simp [VirtualDisc.allocate, other]
  · rfl
  · intro b _
    rfl

theorem entries_allocate (type : InodeType) (size : Nat) (blocks : s.BlockConsistent chain) (inRange : i < s.inodesNum)
    (empty : (s.nodeTab i).type = .empty) (d : Nat) :
    (s.allocate i type size).entries chain d = s.entries chain d := by
  by_cases same : d = i
  · subst same
    have none_ := blocks.chain_eq_nil inRange empty
    rw [entries_of_chain_nil none_, entries_of_chain_nil none_]
  · exact (kept_allocate chain same).entries

end

/-! ## An element is inserted -/

section
variable {elem : DirectoryElement} {taken : List Nat} {extra : List DirectoryElement}

theorem Inserted.type (inserted : s.Inserted chain dir elem taken extra s') (j : Nat) :
    (s'.nodeTab j).type = (s.nodeTab j).type := by
  rw [inserted.nodes j]

theorem Inserted.references (inserted : s.Inserted chain dir elem taken extra s') (j : Nat) :
    (s'.nodeTab j).referencesNum = (s.nodeTab j).referencesNum := by
  rw [inserted.nodes j]

theorem Inserted.taken_free (inserted : s.Inserted chain dir elem taken extra s') {b : Nat} (member : b ∈ taken) :
    b ∈ s.freeBlocks := by
  rw [inserted.free]
  exact List.mem_append_left _ member

theorem Inserted.kept (inserted : s.Inserted chain dir elem taken extra s') (pool : s.PoolOf chain)
    (inRange : dir < s.inodesNum) (bounded : i < s.inodesNum) (other : i ≠ dir) :
    Kept s chain s' (Function.update chain dir (chain dir ++ taken)) i := by
  constructor
  · exact inserted.type i
  · rw [inserted.nodes i]
  · exact Function.update_of_ne other _ _
  · intro b member
    apply inserted.data
    rw [List.mem_append, not_or]
    exact ⟨fun mine => pool.disjoint i bounded dir inRange other member mine,
      fun free => pool.free_not_mem (inserted.taken_free free) bounded member⟩

theorem Inserted.entries (inserted : s.Inserted chain dir elem taken extra s')
    (directory : (s.nodeTab dir).type = .directory) :
    (s'.entries (Function.update chain dir (chain dir ++ taken)) dir).Perm
      (s.entries chain dir ++ elem :: extra) := by
  rw [entries_of_directory directory, entries_of_directory ((inserted.type dir).trans directory),
    Function.update_self]
  exact inserted.elems

theorem BlockConsistent.inserted (blocks : s.BlockConsistent chain)
    (inserted : s.Inserted chain dir elem taken extra s') (directory : (s.nodeTab dir).type = .directory) :
    s'.BlockConsistent (Function.update chain dir (chain dir ++ taken)) := by
  have size := inodesNum_eq inserted.superblock
  constructor
  · exact inserted.pool
  · intro j bounded typeJ
    rw [size] at bounded
    rw [inserted.type] at typeJ
    have other : j ≠ dir := fun same => by
      rw [same, directory] at typeJ
      cases typeJ
    rw [inserted.firsts j other]
    exact blocks.empty j bounded typeJ
  · intro j bounded typeJ
    rw [size] at bounded
    rw [inserted.type] at typeJ
    have other : j ≠ dir := fun same => by
      rw [same, directory] at typeJ
      cases typeJ
    rw [Function.update_of_ne other, inserted.nodes j]
    exact blocks.sized j bounded typeJ

end

/-! ## A reference is counted -/

section
variable {n : UInt8}

theorem BlockConsistent.withReferences (blocks : s.BlockConsistent chain) :
    (s.withReferences file n).BlockConsistent chain := by
  constructor
  · exact blocks.pool.frame rfl (withReferences_first s file n) rfl rfl
  · intro j bounded typeJ
    rw [withReferences_first]
    rw [withReferences_type] at typeJ
    exact blocks.empty j bounded typeJ
  · intro j bounded typeJ
    rw [withReferences_type] at typeJ
    have size : ((s.withReferences file n).nodeTab j).size = (s.nodeTab j).size := by
      by_cases same : j = file
      · subst same; simp
      · simp [same]
    rw [size]
    exact blocks.sized j bounded typeJ

theorem kept_withReferences (i : Nat) : Kept s chain (s.withReferences file n) chain i := by
  constructor
  · exact withReferences_type s file n i
  · by_cases same : i = file
    · subst same; simp
    · simp [same]
  · rfl
  · intro b _
    rfl

end

/-! ## A file is resized -/

section
variable {blocks : List Nat} {size : Nat}

theorem Resized.type (resized : s.Resized chain file blocks size s') (j : Nat) :
    (s'.nodeTab j).type = (s.nodeTab j).type := by
  by_cases same : j = file
  · subst same
    rw [resized.node]
  · rw [resized.others j same]

theorem Resized.references (resized : s.Resized chain file blocks size s') (j : Nat) :
    (s'.nodeTab j).referencesNum = (s.nodeTab j).referencesNum := by
  by_cases same : j = file
  · subst same
    rw [resized.node]
  · rw [resized.others j same]

theorem Resized.entries (resized : s.Resized chain file blocks size s') (isFile : (s.nodeTab file).type = .file)
    {d : Nat} (bounded : d < s.inodesNum) :
    s'.entries (Function.update chain file blocks) d = s.entries chain d := by
  by_cases same : d = file
  · subst same
    rw [entries_of_ne (by simp [resized.type, isFile]), entries_of_ne (by simp [isFile])]
  · exact (resized.kept bounded same).entries

theorem BlockConsistent.resized (consistent : s.BlockConsistent chain)
    (resized : s.Resized chain file blocks size s') (isFile : (s.nodeTab file).type = .file)
    (sized : blocks.length = blocksFor size) : s'.BlockConsistent (Function.update chain file blocks) := by
  have nodes := inodesNum_eq resized.superblock
  constructor
  · exact resized.pool
  · intro j bounded typeJ
    rw [nodes] at bounded
    rw [resized.type] at typeJ
    have other : j ≠ file := fun same => by
      rw [same, isFile] at typeJ
      cases typeJ
    unfold first
    rw [resized.others j other]
    exact consistent.empty j bounded typeJ
  · intro j bounded typeJ
    rw [nodes] at bounded
    rw [resized.type] at typeJ
    by_cases same : j = file
    · subst same
      rw [Function.update_self, resized.node]
      exact sized
    · rw [Function.update_of_ne same, resized.others j same]
      exact consistent.sized j bounded typeJ

theorem Written.resized {t : VirtualDisc} {content : List UInt8} {start : Nat} (pool : t.PoolOf chain)
    (inRange : file < t.inodesNum) (none_ : chain file = []) (free : ∀ b ∈ blocks, b ∈ t.freeBlocks)
    (written : (t.withFirst file start).Written file [] blocks content s') :
    t.Resized chain file blocks ((t.nodeTab file).size + content.length) s' := by
  have unmarked : ∀ b ∈ blocks, b < t.datablocksNum ∧ t.dataMap b = false := fun b member =>
    mem_unmarked.mp (free b member)
  constructor
  · exact written.superblock
  · -- the other inodes and their blocks are as they were
    have firsts : ∀ j, j ≠ file → s'.first j = t.first j := by
      intro j other
      unfold first
      rw [written.others j other]
      simp [other]
    have links : ∀ c, c ∉ chain file ++ blocks → s'.next c = t.next c := by
      intro c outside
      rw [written.links c (by simpa [none_] using outside)]
      rfl
    have linked : Chain s'.next nil64 (s'.first file) (chain file ++ blocks) := by
      simpa [none_] using written.linked
    have grown := pool.grow inRange unmarked linked firsts links fun b _ => written.marks b
    rw [none_, List.nil_append] at grown
    unfold PoolOf inodesNum datablocksNum at *
    rw [written.superblock]
    exact grown
  · intro j other
    rw [written.others j other]
    simp [other]
  · rw [written.node]
    simp
  · intro j bounded _ b member
    rw [written.data b fun mine => pool.free_not_mem (free b mine) bounded member]
    rfl

end

/-! ## Inodes are removed, and an element is cleared -/

section
variable {chain' : Nat → List Nat}

theorem BlockConsistent.removed (blocks : s.BlockConsistent chain) (removed : Removed s chain s' chain') :
    s'.BlockConsistent chain' := by
  have size := inodesNum_eq removed.superblock
  constructor
  · exact removed.pool
  · intro j bounded typeJ
    rw [size] at bounded
    rcases removed.fates j bounded with ⟨node, _⟩ | ⟨_, nil, _⟩
    · unfold first
      rw [node] at typeJ ⊢
      exact blocks.empty j bounded typeJ
    · exact nil
  · intro j bounded typeJ
    rw [size] at bounded
    have live : (s'.nodeTab j).type ≠ .empty := by simp [typeJ]
    obtain ⟨node, same⟩ := removed.spared bounded live
    rw [same]
    rw [node] at typeJ ⊢
    exact blocks.sized j bounded typeJ

variable {b : Nat} {data : Nat → UInt8}

theorem BlockConsistent.withData (blocks : s.BlockConsistent chain) : (s.withData b data).BlockConsistent chain := by
  constructor
  · exact blocks.pool.frame rfl rfl (withData_next s b data) rfl
  · exact blocks.empty
  · exact blocks.sized

theorem kept_withData (pool : s.PoolOf chain) (inRange : dir < s.inodesNum) (member : b ∈ chain dir)
    (bounded : i < s.inodesNum) (other : i ≠ dir) : Kept s chain (s.withData b data) chain i := by
  constructor
  · rfl
  · rfl
  · rfl
  · intro c mine
    have elsewhere : c ≠ b := fun same => pool.disjoint i bounded dir inRange other mine (same ▸ member)
    simp [elsewhere]

end

end VirtualDisc
end SoiStud.FileSystem
