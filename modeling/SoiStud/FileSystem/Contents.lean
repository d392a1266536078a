import SoiStud.FileSystem.Outcomes

/-! What the two size commands do to the content of a file.

`decrease_file_size` counts blocks from the size, `increase_file_size` walks to
the last block. On a file that has as many blocks as its size needs the two
agree, and one undoes the other.
-/

set_option autoImplicit false

namespace SoiStud.FileSystem
namespace VirtualDisc

open Library

variable {s s' : VirtualDisc} {chain : Nat → List Nat} {dir file : Nat} {l : List Nat} {pathToDir filename : CString}
  {out : List Output} {sizeAmount : UInt32}

/-- A regular file on blocks of the table, as many as its size needs. -/
structure FileOn (s : VirtualDisc) (file : Nat) (blocks : List Nat) : Prop where
  inRange : file < s.inodesNum
  isFile : (s.nodeTab file).type = .file
  linked : Chain s.next nil64 (s.first file) blocks
  bounded : ∀ b ∈ blocks, b < s.datablocksNum
  sized : blocks.length = blocksFor (s.nodeTab file).size

theorem FileOn.chainOf (regular : s.FileOn file l) : s.chainOf file = l :=
  chainOf_eq_of_linked regular.linked regular.bounded

theorem FileOn.length_content (regular : s.FileOn file l) : (s.content file).length = (s.nodeTab file).size := by
  rw [content, regular.chainOf]
  apply length_contentOn
  rw [regular.sized]
  exact le_blocksFor _

theorem locating_of_found {found : List Output → Nat → Nat → Outcome}
    (reaches : s.findDirInode pathToDir = .ok (out, some dir)) (names : s.findInDir dir filename = .ok (some file)) :
    s.locating pathToDir filename found = found out dir file := by
  rw [locating, reaches]
  simp only [ok_bind, names]

theorem Consistent.fileOn (consistent : s.Consistent) (inRange : file < s.inodesNum)
    (isFile : (s.nodeTab file).type = .file) : s.FileOn file (s.chainOf file) where
  inRange := inRange
  isFile := isFile
  linked := consistent.chainOf.1.pool.linked file inRange
  bounded := consistent.chainOf.1.pool.bounded file inRange
  sized := consistent.chainOf.1.sized file inRange isFile

def storedName : CString := ⟨[102], by decide⟩

def storedDisc (content : List UInt8) : VirtualDisc :=
  smallDisc.after (.copyFileToDisc storedName rootPath content)

theorem storedDisc_consistent : (storedDisc [1, 2, 3]).Consistent :=
  after_consistent (blank_consistent (by decide +kernel)) _ (by decide +kernel) (by decide +kernel)
    (by decide +kernel) (by decide +kernel)

theorem storedDisc_regular : (storedDisc [1, 2, 3]).FileOn 1 ((storedDisc [1, 2, 3]).chainOf 1) :=
  storedDisc_consistent.fileOn (by decide +kernel) (by decide +kernel)

theorem storedDisc_reaches : (storedDisc [1, 2, 3]).findDirInode rootPath = .ok ([], some 0) := by decide +kernel

theorem storedDisc_names : (storedDisc [1, 2, 3]).findInDir 0 storedName = .ok (some 1) := by decide +kernel

theorem storedDisc_empty_consistent : (storedDisc []).Consistent :=
  after_consistent (blank_consistent (by decide +kernel)) _ (by decide +kernel) (by decide +kernel)
    (by decide +kernel) (by decide +kernel)

/-! ## decrease_file_size -/

/-- The file has `size` bytes and the blocks for them; the blocks behind are given
back, and nothing else is different. -/
structure Shortened (s : VirtualDisc) (file size : Nat) (s' : VirtualDisc) : Prop where
  superblock : s'.superblock = s.superblock
  others : ∀ i, i ≠ file → s'.nodeTab i = s.nodeTab i
  node : s'.nodeTab file = { s.nodeTab file with size := size, firstDataBlock := s'.first file }
  content : s'.content file = (s.content file).take size
  chain : Chain s'.next nil64 (s'.first file) ((s.chainOf file).take (blocksFor size))
  freed : ∀ b ∈ (s.chainOf file).drop (blocksFor size), s'.dataMap b = false ∧ s'.next b = nil64
  marks : ∀ b, b ∉ (s.chainOf file).drop (blocksFor size) → s'.dataMap b = s.dataMap b
  links : ∀ b, b ∉ (s.chainOf file).drop (blocksFor size) →
    ((s.chainOf file).take (blocksFor size)).getLast? ≠ some b → s'.next b = s.next b
  data : s'.data = s.data

theorem FileOn.shrunk (regular : s.FileOn file l) {size : Nat} (fewer : size ≤ (s.nodeTab file).size) :
    s.Shortened file size (s.shrunk file size (l.take (blocksFor size)) (l.drop (blocksFor size))) := by
  have linked := regular.linked
  rw [← List.take_append_drop (blocksFor size) l] at linked
  have kept := shrunk_linked size linked
  -- the chain that is left is the one that the inode is read along
  have shorter := chainOf_eq_of_linked kept fun b member => by
    rw [datablocksNum, shrunk_superblock]
    exact regular.bounded b (List.mem_of_mem_take member)
  constructor
  case superblock => exact shrunk_superblock
  case others =>
    intro i other
    exact shrunk_others other
  case node => exact shrunk_node
  case content =>
    rw [content, shorter, shrunk_node, content, regular.chainOf, take_contentOn s l fewer]
    exact contentOn_congr (fun b _ => by rw [shrunk_data]) size
  case chain => rwa [regular.chainOf]
  case freed =>
    intro b away
    rw [regular.chainOf] at away
    rw [shrunk_dataMap, shrunk_next, if_pos (.inl away)]
    simp [away]
  case marks =>
    intro b kept
    rw [regular.chainOf] at kept
    simp [shrunk_dataMap, kept]
  case links =>
    intro b kept notLast
    rw [regular.chainOf] at kept notLast
    rw [shrunk_next, if_neg (not_or.mpr ⟨kept, notLast⟩)]
  case data => exact shrunk_data

theorem decreaseFileSize_of_found (regular : s.FileOn file l) (reaches : s.findDirInode pathToDir = .ok (out, some dir))
    (names : s.findInDir dir filename = .ok (some file)) : s.decreaseFileSize pathToDir filename sizeAmount =
      if sizeAmount.toNat > (s.nodeTab file).size then .ok (out ++ [.cerr "Too much size to decrease"], s)
      else .ok (out, s.shrunk file ((s.nodeTab file).size - sizeAmount.toNat)
        (l.take (blocksFor ((s.nodeTab file).size - sizeAmount.toNat)))
        (l.drop (blocksFor ((s.nodeTab file).size - sizeAmount.toNat)))) := by
  have fewer : blocksFor ((s.nodeTab file).size - sizeAmount.toNat) ≤ l.length := by
    rw [regular.sized]
    exact Nat.div_le_div_right (by omega)
  rw [decreaseFileSize_eq, locating_of_found reaches names]
  simp only [node_eq_ok _ regular.inRange, ok_bind, regular.isFile, ne_eq, not_true_eq_false, if_false,
    decrease_eq regular.inRange regular.linked regular.bounded rfl fewer]

/-- Of a file with the blocks that its size needs the command keeps the blocks
that the new size needs; by more than the size nothing is taken off. -/
theorem decreaseFileSize_shortened (regular : s.FileOn file l)
    (reaches : s.findDirInode pathToDir = .ok (out, some dir)) (names : s.findInDir dir filename = .ok (some file))
    (sizeAmount : UInt32) :
    (sizeAmount.toNat ≤ (s.nodeTab file).size → ∃ s',
      s.decreaseFileSize pathToDir filename sizeAmount = .ok (out, s') ∧
        s.Shortened file ((s.nodeTab file).size - sizeAmount.toNat) s') ∧
    ((s.nodeTab file).size < sizeAmount.toNat → s.decreaseFileSize pathToDir filename sizeAmount =
      .ok (out ++ [.cerr "Too much size to decrease"], s)) := by
  rw [decreaseFileSize_of_found regular reaches names]
  constructor
  · intro fits
    rw [if_neg (Nat.not_lt.mpr fits)]
    exact ⟨_, rfl, regular.shrunk (Nat.sub_le _ _)⟩
  · intro tooMuch
    rw [if_pos tooMuch]

theorem decreaseFileSize_shortened_three :
    (1 ≤ 3 → ∃ s', (storedDisc [1, 2, 3]).decreaseFileSize rootPath storedName 1 = .ok ([], s') ∧
      (storedDisc [1, 2, 3]).Shortened 1 2 s') ∧
    (3 < 1 → (storedDisc [1, 2, 3]).decreaseFileSize rootPath storedName 1 =
      .ok ([.cerr "Too much size to decrease"], storedDisc [1, 2, 3])) := by
  have size : ((storedDisc [1, 2, 3]).nodeTab 1).size = 3 := by decide +kernel
  have shortened := decreaseFileSize_shortened storedDisc_regular storedDisc_reaches storedDisc_names 1
  rwa [size] at shortened

/-! ## increase_file_size -/

/-- The file has `amount` zero bytes behind what it had, and the blocks for them;
those it has taken were free and are no other file's or directory's. -/
structure Lengthened (s : VirtualDisc) (file amount : Nat) (s' : VirtualDisc) : Prop where
  size : (s'.nodeTab file).size = (s.nodeTab file).size + amount
  content : s'.content file = s.content file ++ List.replicate amount 0
  taken : ∃ taken, Chain s'.next nil64 (s'.first file) (s.chainOf file ++ taken) ∧
    (s.chainOf file ++ taken).length = blocksFor ((s.nodeTab file).size + amount) ∧ ∀ b ∈ taken,
    b < s.datablocksNum ∧ s.dataMap b = false ∧ s'.dataMap b = true ∧
      ∀ i < s.inodesNum, i ≠ file → ∃ others, Chain s'.next nil64 (s'.first i) others ∧ b ∉ others

theorem FileOn.increase (regular : s.FileOn file (chain file)) (pool : s.PoolOf chain) {amount : Nat}
    (nonEmpty : 0 < (s.nodeTab file).size)
    (enough : blocksFor ((s.nodeTab file).size + amount) - blocksFor (s.nodeTab file).size ≤ s.freeBlocks.length) :
    ∃ s' taken, s.increase file amount = .ok ([], s') ∧
      s.Resized chain file (chain file ++ taken) ((s.nodeTab file).size + amount) s' ∧
      (chain file ++ taken).length = blocksFor ((s.nodeTab file).size + amount) ∧ s.Lengthened file amount s' := by
  have inRange := regular.inRange
  obtain ⟨s', taken, increased, blocks, resized, bytes⟩ :=
    increase_spec pool inRange regular.sized nonEmpty enough
  have size : (s'.nodeTab file).size = (s.nodeTab file).size + amount := by rw [resized.node]
  have inodes := inodesNum_eq resized.superblock
  have chainAfter : s'.chainOf file = chain file ++ taken := by
    rw [resized.pool.chainOf_eq (by rwa [inodes]), Function.update_self]
  have length : (chain file ++ taken).length = blocksFor ((s.nodeTab file).size + amount) := by
    have more : blocksFor (s.nodeTab file).size ≤ blocksFor ((s.nodeTab file).size + amount) :=
      Nat.div_le_div_right (by omega)
    rw [List.length_append, blocks, List.length_take, Nat.min_eq_left enough, regular.sized]
    omega
  refine ⟨s', taken, increased, resized, length, size, ?_, taken, ?_, ?_, ?_⟩
  · rw [content, content, chainAfter, size, bytes, regular.chainOf]
  · have linked := resized.pool.linked file (by rwa [inodes])
    rwa [Function.update_self, ← regular.chainOf] at linked
  · rw [regular.chainOf, length]
  · -- a block that was free was on no chain, and is on this one now
    intro b member
    have free : b ∈ s.freeBlocks := List.mem_of_mem_take (blocks ▸ member)
    obtain ⟨bounded, unmarked⟩ := mem_unmarked.mp free
    refine ⟨bounded, unmarked, ?_, ?_⟩
    · apply resized.pool.marked_of_mem (by rwa [inodes])
      rw [Function.update_self]
      exact List.mem_append_right _ member
    · intro i bounded other
      have linked := resized.pool.linked i (by rwa [inodes])
      rw [Function.update_of_ne other] at linked
      exact ⟨_, linked, pool.not_mem_of_unmarked bounded unmarked⟩

theorem increaseFileSize_of_found (regular : s.FileOn file l) (reaches : s.findDirInode pathToDir = .ok (out, some dir))
    (names : s.findInDir dir filename = .ok (some file)) : s.increaseFileSize pathToDir filename sizeAmount =
      (s.increase file sizeAmount.toNat >>= fun r => .ok (out ++ r.1, r.2)) := by
  rw [increaseFileSize_eq, locating_of_found reaches names]
  simp only [node_eq_ok _ regular.inRange, ok_bind, regular.isFile, ne_eq, not_true_eq_false, if_false]

/-- With the free blocks for it the command does what it is for exactly on the
files that are not empty: an empty one has no last block to go on from. -/
theorem increaseFileSize_lengthened_iff (pool : s.PoolOf chain) (regular : s.FileOn file (chain file))
    (reaches : s.findDirInode pathToDir = .ok (out, some dir)) (names : s.findInDir dir filename = .ok (some file))
    (enough : blocksFor ((s.nodeTab file).size + sizeAmount.toNat) - blocksFor (s.nodeTab file).size ≤
      s.freeBlocks.length) :
    (∃ s', s.increaseFileSize pathToDir filename sizeAmount = .ok (out, s') ∧
      s.Lengthened file sizeAmount.toNat s') ↔ 0 < (s.nodeTab file).size := by
  rw [increaseFileSize_of_found regular reaches names]
  constructor
  · rintro ⟨s', returned, _⟩
    by_contra empty
    have none_ : chain file = [] := by
      rw [← List.length_eq_zero_iff, regular.sized, blocksFor_eq_zero_iff]
      exact Nat.eq_zero_of_not_pos empty
    obtain ⟨r, increased, _⟩ := bind_eq_ok.mp returned
    exact increase_empty pool regular.inRange none_ r increased
  · intro nonEmpty
    obtain ⟨s', taken, increased, _, _, lengthened⟩ := regular.increase pool nonEmpty enough
    refine ⟨s', ?_, lengthened⟩
    rw [increased]
    simp

theorem increaseFileSize_lengthened_iff_three :
    (∃ s', (storedDisc [1, 2, 3]).increaseFileSize rootPath storedName 2 = .ok ([], s') ∧
      (storedDisc [1, 2, 3]).Lengthened 1 2 s') ↔ 0 < ((storedDisc [1, 2, 3]).nodeTab 1).size :=
  increaseFileSize_lengthened_iff storedDisc_consistent.chainOf.1.pool storedDisc_regular storedDisc_reaches
    storedDisc_names (by decide +kernel)

/-- A byte more for an empty file, on a disc with two free blocks. -/
theorem increaseFileSize_lost : ∃ (s : VirtualDisc) (file : Nat) (pathToDir filename : CString) (sizeAmount : UInt32),
    s.Consistent ∧ (s.nodeTab file).type = .file ∧ s.locate pathToDir filename = some (0, file) ∧
    blocksFor ((s.nodeTab file).size + sizeAmount.toNat) - blocksFor (s.nodeTab file).size ≤ s.freeBlocks.length ∧
    ¬ ∃ out s', s.increaseFileSize pathToDir filename sizeAmount = .ok (out, s') ∧
      s.Lengthened file sizeAmount.toNat s' := by
  refine ⟨storedDisc [], 1, rootPath, storedName, 1, storedDisc_empty_consistent, by decide +kernel, by decide +kernel,
    by decide +kernel, ?_⟩
  rintro ⟨out, s', returned, _⟩
  have ends : ((storedDisc []).increaseFileSize rootPath storedName 1).isOk = false := by decide +kernel
  rw [returned] at ends
  cases ends

/-! ## One after the other -/

/-- The tables of inodes, marks and links, what the directories hold and what the files hold. -/
structure Restored (s s' : VirtualDisc) : Prop where
  superblock : s'.superblock = s.superblock
  nodes : s'.nodeTab = s.nodeTab
  marks : ∀ b < s.datablocksNum, s'.dataMap b = s.dataMap b
  links : ∀ b < s.datablocksNum, s'.next b = s.next b
  slots : ∀ d < s.inodesNum, (s.nodeTab d).type = .directory → ∀ b ∈ s.chainOf d, s'.data b = s.data b
  entries : ∀ d < s.inodesNum, s'.entries s'.chainOf d = s.entries s.chainOf d
  contents : ∀ i < s.inodesNum, (s.nodeTab i).type = .file → s'.content i = s.content i

/-- A file that comes back to its blocks and its size leaves the disc as it was. -/
theorem Resized.restored (pool : s.PoolOf chain) (inRange : file < s.inodesNum)
    (isFile : (s.nodeTab file).type = .file)
    (resized : s.Resized chain file (chain file) (s.nodeTab file).size s') (content : s'.content file = s.content file) :
    s.Restored s' := by
  have inodes := inodesNum_eq resized.superblock
  have pool' : s'.PoolOf chain := by simpa using resized.pool
  -- the chains are those of before, and they determine first blocks, marks and links
  obtain ⟨firsts, marks, links⟩ := pool.determined (by
    unfold PoolOf inodesNum datablocksNum at pool'
    rwa [resized.superblock] at pool')
  constructor
  case superblock => exact resized.superblock
  case nodes =>
    funext i
    by_cases same : i = file
    · subst same
      rw [resized.node, firsts i inRange]
      rfl
    · exact resized.others i same
  case marks => exact marks
  case links => exact links
  case slots =>
    intro d bounded directory b member
    have other : d ≠ file := fun same => by
      rw [same, isFile] at directory
      cases directory
    rw [pool.chainOf_eq bounded] at member
    exact resized.data d bounded other b member
  case entries =>
    intro d bounded
    have kept := resized.entries isFile bounded
    rw [Function.update_eq_self] at kept
    rw [pool'.entries_chainOf (by rwa [inodes]), pool.entries_chainOf bounded, kept]
  case contents =>
    intro i bounded _
    by_cases same : i = file
    · rw [same, content]
    · have kept := resized.kept bounded same
      rw [Function.update_eq_self] at kept
      exact kept.content pool pool' bounded (by rwa [inodes])

theorem Resized.fileOn {blocks : List Nat} {size : Nat} (resized : s.Resized chain file blocks size s')
    (inRange : file < s.inodesNum) (isFile : (s.nodeTab file).type = .file) (sized : blocks.length = blocksFor size) :
    s'.FileOn file blocks where
  inRange := by rwa [inodesNum_eq resized.superblock]
  isFile := by rw [resized.type, isFile]
  linked := by
    have linked := resized.pool.linked file (by rwa [inodesNum_eq resized.superblock])
    rwa [Function.update_self] at linked
  bounded := by
    have bounded := resized.pool.bounded file (by rwa [inodesNum_eq resized.superblock])
    rwa [Function.update_self] at bounded
  sized := by rw [sized, resized.node]

/-- No directory is resized, so paths and names lead where they led. -/
theorem Resized.searches {blocks : List Nat} {size : Nat} (resized : s.Resized chain file blocks size s')
    (pool : s.PoolOf chain) (isFile : (s.nodeTab file).type = .file) :
    (∀ path, s'.findDirInode path = s.findDirInode path) ∧ ∀ d name, s'.findInDir d name = s.findInDir d name := by
  have inodes := inodesNum_eq resized.superblock
  have kept : ∀ d < s.inodesNum, (s.nodeTab d).type = .directory →
      Kept s chain s' (Function.update chain file blocks) d := fun d bounded directory =>
    resized.kept bounded fun same => by
      rw [same, isFile] at directory
      cases directory
  constructor
  · intro path
    rw [findDirInode, findDirInodeFrom_congr pool resized.pool inodes resized.type kept, findDirInode]
  · intro d name
    exact findInDir_congr pool resized.pool inodes resized.type kept d name

/-- Increasing a file that is not empty and decreasing it by as much leaves the disc as it was. -/
theorem increase_decrease_restored (pool : s.PoolOf chain) (regular : s.FileOn file (chain file))
    (nonEmpty : 0 < (s.nodeTab file).size) (reaches : s.findDirInode pathToDir = .ok (out, some dir))
    (names : s.findInDir dir filename = .ok (some file))
    (enough : blocksFor ((s.nodeTab file).size + sizeAmount.toNat) - blocksFor (s.nodeTab file).size ≤
      s.freeBlocks.length) :
    ∃ t s', s.increaseFileSize pathToDir filename sizeAmount = .ok (out, t) ∧
      t.decreaseFileSize pathToDir filename sizeAmount = .ok (out, s') ∧ s.Restored s' := by
  obtain ⟨t, taken, increased, resized, length, lengthened⟩ := regular.increase pool nonEmpty enough
  have inRangeT : file < t.inodesNum := by
    rw [inodesNum_eq resized.superblock]
    exact regular.inRange
  have regularT := resized.fileOn regular.inRange regular.isFile length
  obtain ⟨paths, searches⟩ := resized.searches pool regular.isFile
  have reachesT : t.findDirInode pathToDir = .ok (out, some dir) := by rw [paths, reaches]
  have namesT : t.findInDir dir filename = .ok (some file) := by rw [searches, names]
  have back : (t.nodeTab file).size - sizeAmount.toNat = (s.nodeTab file).size := by
    rw [lengthened.size]
    omega
  -- what the one takes the other cuts off
  have front : (chain file ++ taken).take (blocksFor (s.nodeTab file).size) = chain file :=
    List.take_left' regular.sized
  have behind : (chain file ++ taken).drop (blocksFor (s.nodeTab file).size) = taken :=
    List.drop_left' regular.sized
  have longer : (s.nodeTab file).size ≤ (t.nodeTab file).size := by
    rw [lengthened.size]
    omega
  have shortened := regularT.shrunk longer
  rw [front, behind] at shortened
  have cut : t.Resized _ file (chain file) (s.nodeTab file).size _ :=
    shrunk_resized resized.pool inRangeT (by rw [Function.update_self])
  refine ⟨t, _, ?_, ?_, (resized.trans cut).restored pool regular.inRange regular.isFile ?_⟩
  · rw [increaseFileSize_of_found regular reaches names, increased]
    simp
  · rw [decreaseFileSize_of_found regularT reachesT namesT, if_neg (by rw [lengthened.size]; omega), back, front, behind]
  · rw [shortened.content, lengthened.content]
    exact List.take_left' regular.length_content

theorem increase_decrease_restored_three :
    ∃ t s', (storedDisc [1, 2, 3]).increaseFileSize rootPath storedName 2 = .ok ([], t) ∧
      t.decreaseFileSize rootPath storedName 2 = .ok ([], s') ∧ (storedDisc [1, 2, 3]).Restored s' :=
  increase_decrease_restored storedDisc_consistent.chainOf.1.pool storedDisc_regular (by decide +kernel)
    storedDisc_reaches storedDisc_names (by decide +kernel)

end VirtualDisc
end SoiStud.FileSystem
