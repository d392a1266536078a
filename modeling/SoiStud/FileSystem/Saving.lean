import SoiStud.FileSystem.Formatting
import SoiStud.FileSystem.Observation
import SoiStud.FileSystem.Sums

/-! The disc saved over its host file, and opened again.

What is in the tables comes back the same, and beyond the tables nothing is
looked at: the disc that is opened holds the same tree and admits the same
commands.
-/

set_option autoImplicit false

namespace SoiStud.FileSystem

open Library

/-! ## save -/

structure UpdatedFile where
  written : List UInt8
  rest : List UInt8
  room : Nat

def overwrite (part : List UInt8) (file : UpdatedFile) : Except Fault UpdatedFile :=
  if part.length ≤ file.rest.length + file.room then
    .ok ⟨file.written ++ part, file.rest.drop part.length, file.room - (part.length - file.rest.length)⟩
  else .error (.exit "Error while saving to file")

namespace VirtualDisc

def nodeBytes (s : VirtualDisc) : List UInt8 := ((List.range s.inodesNum).map s.nodeTab).flatMap encodeInode

def mapBytes (s : VirtualDisc) : List UInt8 := (List.range s.datablocksNum).map fun b => if s.dataMap b then 1 else 0

def blockBytesOf (s : VirtualDisc) : List UInt8 :=
  ((List.range s.datablocksNum).map s.datablockTab).flatMap encodeDatablock

/-- All that `save` writes. -/
def image (s : VirtualDisc) : List UInt8 :=
  encodeSuperblock s.superblock ++ (s.nodeBytes ++ (s.mapBytes ++ s.blockBytesOf))

/-- `save`: what the host file holds afterwards. -/
def save (s : VirtualDisc) (host : List UInt8) (room : Nat) : Except Fault (List UInt8) := do
  let file ← overwrite (encodeSuperblock s.superblock) ⟨[], host, room⟩
  let file ← overwrite s.nodeBytes file
  let file ← overwrite s.mapBytes file
  let file ← overwrite s.blockBytesOf file
  .ok (file.written ++ file.rest)

end VirtualDisc

variable {s s' t : VirtualDisc} {chain : Nat → List Nat} {dir file i b : Nat} {out : List Output}
  {host : List UInt8} {room : Nat}

theorem overwrite_append (a b : List UInt8) (file : UpdatedFile) :
    (overwrite a file >>= overwrite b) = overwrite (a ++ b) file := by
  unfold overwrite
  by_cases fits : a.length ≤ file.rest.length + file.room
  · simp only [if_pos fits, ok_bind, List.length_append, List.append_assoc, List.length_drop, List.drop_drop]
    by_cases both : b.length ≤ file.rest.length - a.length + (file.room - (a.length - file.rest.length))
    · rw [if_pos both, if_pos (by omega)]
      congr 2
      omega
    · rw [if_neg both, if_neg (by omega)]
  · rw [if_neg fits, if_neg (by rw [List.length_append]; omega)]
    rfl

namespace VirtualDisc

/-- The image is written over the file; only what does not fit into it takes room. -/
theorem save_eq (s : VirtualDisc) (host : List UInt8) (room : Nat) : s.save host room =
    if s.image.length ≤ host.length + room then .ok (s.image ++ host.drop s.image.length)
    else .error (.exit "Error while saving to file") := by
  have whole : (overwrite s.image ⟨[], host, room⟩ >>= fun file => .ok (file.written ++ file.rest)) =
      if s.image.length ≤ host.length + room then .ok (s.image ++ host.drop s.image.length)
      else .error (.exit "Error while saving to file") := by
    unfold overwrite
    split <;> rfl
  rw [← whole, image, save]
  simp only [← overwrite_append, bind_assoc]

theorem save_of_length (same : host.length = s.image.length) : s.save host room = .ok s.image := by
  rw [save_eq, if_pos (by omega), List.drop_of_length_le (by omega), List.append_nil]

theorem length_image (fits : s.superblock.Fits) : s.image.length =
    superblockSize.toNat + (inodeSize.toNat * s.inodesNum + (s.datablocksNum + datablockSize.toNat * s.datablocksNum)) := by
  have nodes : s.nodeBytes.length = inodeSize.toNat * s.inodesNum := by
    rw [nodeBytes, length_flatMap_of_sized length_encodeInode, List.length_map, List.length_range]
  have blocks : s.blockBytesOf.length = datablockSize.toNat * s.datablocksNum := by
    rw [blockBytesOf, length_flatMap_of_sized length_encodeDatablock, List.length_map, List.length_range]
  rw [image, List.length_append, List.length_append, List.length_append, length_encodeSuperblock fits, nodes, blocks,
    mapBytes, List.length_map, List.length_range]

/-! ## What is opened again -/

structure Agrees (s s' : VirtualDisc) : Prop where
  superblock : s'.superblock = s.superblock
  nodes : ∀ i < s.inodesNum, s'.nodeTab i = s.nodeTab i
  marks : ∀ b < s.datablocksNum, s'.dataMap b = s.dataMap b
  links : ∀ b < s.datablocksNum, s'.next b = s.next b
  data : ∀ b < s.datablocksNum, ∀ k < blockSize, s'.data b k = s.data b k

structure Storable (s : VirtualDisc) : Prop where
  superblock : s.superblock.Fits
  sizes : ∀ i < s.inodesNum, (s.nodeTab i).size < 2 ^ 64
  firsts : ∀ i < s.inodesNum, s.first i < 2 ^ 64
  links : ∀ b < s.datablocksNum, s.next b < 2 ^ 64

/-- What is saved is opened as it was; beyond the tables there is nothing. -/
theorem Storable.openImage (storable : s.Storable) : ∃ s', openImage s.image = .ok s' ∧ s.Agrees s' ∧
    ∀ i, ¬ i < s.inodesNum → s'.nodeTab i = ⟨0, 0, .empty, 0⟩ := by
  have nodesSized : s.nodeBytes.length = inodeSize.toNat * s.superblock.inodesNum := by
    rw [nodeBytes, length_flatMap_of_sized length_encodeInode, List.length_map, List.length_range]
  have marksSized : s.mapBytes.length = s.superblock.datablocksNum := by
    rw [mapBytes, List.length_map, List.length_range]
  have blocksSized : s.blockBytesOf.length = datablockSize.toNat * s.superblock.datablocksNum := by
    rw [blockBytesOf, length_flatMap_of_sized length_encodeDatablock, List.length_map, List.length_range]
  refine ⟨_, openImage_parts storable.superblock nodesSized marksSized blocksSized, ?_, ?_⟩
  · have block (b : Nat) (bounded : b < s.datablocksNum) :
        record datablockSize.toNat b s.blockBytesOf = encodeDatablock (s.datablockTab b) := by
      have inTable : b < ((List.range s.datablocksNum).map s.datablockTab).length := by
        rwa [List.length_map, List.length_range]
      rw [blockBytesOf, record_flatMap length_encodeDatablock inTable, List.getElem_map, List.getElem_range]
    constructor
    · rfl
    · intro i bounded
      have inTable : i < ((List.range s.inodesNum).map s.nodeTab).length := by
        rwa [List.length_map, List.length_range]
      simp only [nodeBytes, record_flatMap length_encodeInode inTable, List.getElem_map, List.getElem_range]
      exact decodeInode_encodeInode (storable.sizes i bounded) (storable.firsts i bounded)
    · intro b bounded
      have byte : s.mapBytes.getD b 0 = if s.dataMap b then 1 else 0 := by
        rw [mapBytes, List.getD_eq_getElem?_getD, List.getElem?_map, List.getElem?_range bounded]
        rfl
      simp only [byte]
      cases s.dataMap b <;> rfl
    · intro b bounded
      simp only [next, block b bounded]
      exact (decodeDatablock_encodeDatablock _ (storable.links b bounded)).1
    · intro b bounded k within
      simp only [data, block b bounded]
      exact (decodeDatablock_encodeDatablock _ (storable.links b bounded)).2 k within
  · intro i beyond
    -- no bytes are left for an inode behind the table
    have nothing : record inodeSize.toNat i s.nodeBytes = [] := by
      rw [record, List.drop_of_length_le, List.take_nil]
      rw [nodesSized]
      exact Nat.mul_le_mul_left _ (Nat.le_of_not_lt beyond)
    simp only [nothing]
    rfl

theorem blockBytes_congr {data data' : Nat → UInt8} (same : ∀ k < blockSize, data' k = data k) :
    blockBytes data' = blockBytes data := by
  unfold blockBytes
  apply List.map_congr_left
  intro k within
  exact same k (List.mem_range.mp within)

theorem readElem_within {data data' : Nat → UInt8} (same : ∀ k < blockSize, data' k = data k)
    (slot : i < dirElemsPerBlock) : readElem data' i = readElem data i := by
  have size : elemSize * i + 19 < blockSize := by
    simp only [elemSize, blockSize, dirElemsPerBlock] at slot ⊢
    omega
  have first := same (elemSize * i) (by omega)
  have second := same (elemSize * i + 1) (by omega)
  have used := same (elemSize * i + 2) (by omega)
  have pad := same (elemSize * i + 19) size
  have name : ∀ j : Fin filenameLen, data' (elemSize * i + 3 + j) = data (elemSize * i + 3 + j) := by
    intro j
    have inName : (j : Nat) < 16 := j.isLt
    exact same _ (by omega)
  simp only [readElem, first, second, used, pad, name]

namespace Agrees

theorem inodesNum (agrees : s.Agrees s') : s'.inodesNum = s.inodesNum := inodesNum_eq agrees.superblock

theorem datablocksNum (agrees : s.Agrees s') : s'.datablocksNum = s.datablocksNum :=
  congrArg Superblock.datablocksNum agrees.superblock

theorem first (agrees : s.Agrees s') (bounded : i < s.inodesNum) : s'.first i = s.first i :=
  congrArg Inode.firstDataBlock (agrees.nodes i bounded)

theorem blockElems (agrees : s.Agrees s') (bounded : b < s.datablocksNum) :
    blockElems (s'.data b) = blockElems (s.data b) := by
  unfold FileSystem.blockElems
  congr 1
  apply List.map_congr_left
  intro i slot
  exact readElem_within (agrees.data b bounded) (List.mem_range.mp slot)

theorem usedElems (agrees : s.Agrees s') {blocks : List Nat} (bounded : ∀ b ∈ blocks, b < s.datablocksNum) :
    s'.usedElems blocks = s.usedElems blocks := by
  apply List.flatMap_congr
  intro b member
  exact agrees.blockElems (bounded b member)

theorem pool (agrees : s.Agrees s') (pool : s.PoolOf chain) : s'.PoolOf chain := by
  unfold PoolOf
  rw [agrees.inodesNum, agrees.datablocksNum]
  constructor
  · intro i bounded
    rw [agrees.first bounded]
    exact (pool.linked i bounded).congr fun b member => agrees.links b (pool.bounded i bounded b member)
  · exact pool.bounded
  · exact pool.disjoint
  · intro b bounded
    rw [agrees.marks b bounded]
    exact pool.marked_iff b bounded
  · intro b bounded free
    rw [agrees.marks b bounded] at free
    rw [agrees.links b bounded]
    exact pool.loose b bounded free

theorem entries (agrees : s.Agrees s') (pool : s.PoolOf chain) (bounded : i < s.inodesNum) :
    s'.entries chain i = s.entries chain i := by
  unfold VirtualDisc.entries
  rw [agrees.nodes i bounded, agrees.usedElems (pool.bounded i bounded)]

theorem naming (agrees : s.Agrees s') (pool : s.PoolOf chain) (i : Nat) : s'.naming chain i = s.naming chain i := by
  unfold VirtualDisc.naming
  rw [agrees.inodesNum]
  apply Finset.sum_congr rfl
  intro d member
  rw [agrees.entries pool (Finset.mem_range.mp member)]

theorem blocks (agrees : s.Agrees s') (blocks : s.BlockConsistent chain) : s'.BlockConsistent chain := by
  constructor
  · exact agrees.pool blocks.pool
  · intro i bounded empty
    rw [agrees.inodesNum] at bounded
    rw [agrees.nodes i bounded] at empty
    rw [agrees.first bounded]
    exact blocks.empty i bounded empty
  · intro i bounded isFile
    rw [agrees.inodesNum] at bounded
    rw [agrees.nodes i bounded] at isFile ⊢
    exact blocks.sized i bounded isFile

theorem directories (agrees : s.Agrees s') (pool : s.PoolOf chain) (directories : s.DirectoryConsistent chain) :
    s'.DirectoryConsistent chain := by
  constructor
  · rw [agrees.inodesNum]
    exact directories.inodes
  · rw [agrees.nodes 0 directories.inodes]
    exact directories.root
  · intro d bounded e listed
    rw [agrees.inodesNum] at bounded
    rw [agrees.entries pool bounded] at listed
    obtain ⟨inRange, live, notRoot⟩ := directories.named d bounded e listed
    refine ⟨by rwa [agrees.inodesNum], ?_, notRoot⟩
    rwa [agrees.nodes _ inRange]
  · intro i bounded notRoot live
    rw [agrees.inodesNum] at bounded
    rw [agrees.nodes i bounded] at live ⊢
    rw [agrees.naming pool]
    exact directories.counted i bounded notRoot live

theorem distinct (agrees : s.Agrees s') (pool : s.PoolOf chain) (distinct : s.Distinct chain) :
    s'.Distinct chain := by
  constructor
  · intro d bounded
    rw [agrees.inodesNum] at bounded
    rw [agrees.entries pool bounded]
    exact distinct.used d bounded
  · intro d bounded
    rw [agrees.inodesNum] at bounded
    rw [agrees.entries pool bounded]
    exact distinct.nodup d bounded

theorem proper (agrees : s.Agrees s') (proper : s.Proper) : s'.Proper := by
  obtain ⟨chain, blocks, directories, distinct, referenced⟩ := proper
  refine ⟨chain, agrees.blocks blocks, agrees.directories blocks.pool directories,
    agrees.distinct blocks.pool distinct, ?_⟩
  intro i bounded notRoot live
  rw [agrees.inodesNum] at bounded
  rw [agrees.nodes i bounded] at live ⊢
  exact referenced i bounded notRoot live

theorem content (agrees : s.Agrees s') (pool : s.PoolOf chain) (bounded : i < s.inodesNum) :
    s'.content i = s.content i := by
  have pool' := agrees.pool pool
  have bounded' : i < s'.inodesNum := by rwa [agrees.inodesNum]
  rw [content_of_linked (pool.linked i bounded) (pool.bounded i bounded),
    content_of_linked (pool'.linked i bounded') (pool'.bounded i bounded'), agrees.nodes i bounded]
  have bytes : ((chain i).flatMap fun b => blockBytes (s'.data b)) = (chain i).flatMap fun b => blockBytes (s.data b) := by
    apply List.flatMap_congr
    intro b member
    exact blockBytes_congr (agrees.data b (pool.bounded i bounded b member))
  rw [contentOn, contentOn, bytes]

theorem tree (agrees : s.Agrees s') (proper : s.Proper) : s'.tree = s.tree := by
  obtain ⟨chain, blocks, _, distinct, _⟩ := proper
  funext i
  unfold VirtualDisc.tree
  rw [agrees.inodesNum]
  split
  next bounded =>
    unfold item
    rw [agrees.nodes i bounded, agrees.content blocks.pool bounded,
      distinct.lookup_congr (agrees.distinct blocks.pool distinct) blocks.pool (agrees.pool blocks.pool)
        agrees.inodesNum bounded (agrees.entries blocks.pool bounded)]
  next => rfl

theorem image (agrees : s.Agrees s') : s'.image = s.image := by
  have nodes : s'.nodeBytes = s.nodeBytes := by
    unfold nodeBytes
    rw [agrees.inodesNum]
    congr 1
    apply List.map_congr_left
    intro i member
    exact agrees.nodes i (List.mem_range.mp member)
  have marks : s'.mapBytes = s.mapBytes := by
    unfold mapBytes
    rw [agrees.datablocksNum]
    apply List.map_congr_left
    intro b member
    rw [agrees.marks b (List.mem_range.mp member)]
  have blocks : s'.blockBytesOf = s.blockBytesOf := by
    unfold blockBytesOf
    rw [agrees.datablocksNum, List.flatMap_map, List.flatMap_map]
    apply List.flatMap_congr
    intro b member
    have bounded := List.mem_range.mp member
    have links : (s'.datablockTab b).next = (s.datablockTab b).next := agrees.links b bounded
    have bytes := blockBytes_congr (agrees.data b bounded)
    unfold blockBytes at bytes
    rw [encodeDatablock, encodeDatablock, links]
    exact congrArg (toBytes 8 (s.datablockTab b).next ++ ·) bytes
  rw [VirtualDisc.image, VirtualDisc.image, agrees.superblock, nodes, marks, blocks]

/-! What can be entered into a disc can be entered into it when it is opened again. -/

theorem elems (agrees : s.Agrees s') (bounded : b < s.datablocksNum) (slots : List Nat)
    (within : ∀ i ∈ slots, i < dirElemsPerBlock) : slots.map (readElem (s'.data b)) = slots.map (readElem (s.data b)) :=
  List.map_congr_left fun i slot => readElem_within (agrees.data b bounded) (within i slot)

theorem otherElems (agrees : s.Agrees s') (bounded : b < s.datablocksNum) (i : Nat) :
    otherElems (s'.data b) i = otherElems (s.data b) i := by
  unfold FileSystem.otherElems
  rw [agrees.elems bounded _ fun i slot => List.mem_range.mp (List.mem_of_mem_erase slot)]

theorem roomy (agrees : s.Agrees s') {blocks : List Nat} (bounded : ∀ b ∈ blocks, b < s.datablocksNum) :
    s'.roomy blocks = s.roomy blocks := by
  apply List.filter_congr
  intro b member
  have same : freeSlot (s'.data b) = freeSlot (s.data b) := by
    apply List.find?_congr
    intro i slot
    rw [readElem_within (agrees.data b (bounded b member)) (List.mem_range.mp slot)]
  rw [same]

theorem freeBlocks (agrees : s.Agrees s') : s'.freeBlocks = s.freeBlocks := by
  unfold VirtualDisc.freeBlocks unmarked
  rw [agrees.datablocksNum]
  apply List.filter_congr
  intro b member
  rw [agrees.marks b (List.mem_range.mp member)]

theorem freeNodes (agrees : s.Agrees s') : s'.freeNodes = s.freeNodes := by
  unfold VirtualDisc.freeNodes
  rw [agrees.inodesNum]
  apply List.filter_congr
  intro i member
  rw [agrees.nodes i (List.mem_range.mp member)]

theorem findFreeNode (agrees : s.Agrees s') : s'.findFreeNode = s.findFreeNode := by
  rw [findFreeNode_eq, findFreeNode_eq, agrees.freeNodes]

theorem dirNeed (agrees : s.Agrees s') {blocks : List Nat} (bounded : ∀ b ∈ blocks, b < s.datablocksNum) :
    s'.dirNeed blocks = s.dirNeed blocks := by
  rw [VirtualDisc.dirNeed, VirtualDisc.dirNeed, agrees.roomy bounded]

theorem addsOnly (agrees : s.Agrees s') {blocks : List Nat} (bounded : ∀ b ∈ blocks, b < s.datablocksNum)
    (adds : s.AddsOnly blocks) : s'.AddsOnly blocks := by
  unfold AddsOnly
  rw [agrees.roomy bounded, agrees.dirNeed bounded, agrees.freeBlocks]
  refine ⟨adds.1, fun b member => ?_⟩
  have inRange := (mem_unmarked.mp (List.mem_of_mem_take member)).1
  rw [agrees.blockElems inRange, agrees.otherElems inRange]
  exact adds.2 b member

theorem makesOnly (agrees : s.Agrees s') {blocks : List Nat} (bounded : ∀ b ∈ blocks, b < s.datablocksNum) {n : Nat}
    (makes : s.MakesOnly blocks n) : s'.MakesOnly blocks n := by
  unfold MakesOnly
  rw [agrees.roomy bounded, agrees.dirNeed bounded, agrees.freeBlocks]
  refine ⟨makes.1, fun b member => ?_⟩
  rw [agrees.otherElems (mem_unmarked.mp (List.mem_of_mem_take member)).1]
  exact makes.2 b member

end Agrees

theorem Agrees.plain {effect : Effect} (agrees : s.Agrees s') (blocks : s.BlockConsistent chain)
    (distinct : s.Distinct chain) (valid : s.Valid chain effect) (navigable : s.Navigable chain)
    (enough : s.Enough effect) (new : s.EntersNew effect) (once : s.EntersOnce effect) (fits : s.CountFits effect) :
    s'.Enough effect ∧ s'.EntersNew effect ∧ s'.EntersOnce effect ∧ s'.CountFits effect := by
  have pool' := agrees.pool blocks.pool
  -- both discs have the same chains, and find the same names
  have same (dir : Nat) (inRange : dir < s.inodesNum) : s'.chainOf dir = s.chainOf dir := by
    rw [pool'.chainOf_eq (by rwa [agrees.inodesNum]), blocks.pool.chainOf_eq inRange]
  have bounded (dir : Nat) (inRange : dir < s.inodesNum) : ∀ b ∈ s.chainOf dir, b < s.datablocksNum := by
    rw [blocks.pool.chainOf_eq inRange]
    exact blocks.pool.bounded dir inRange
  have looked (dir : Nat) (inRange : dir < s.inodesNum) : s'.lookup dir = s.lookup dir :=
    distinct.lookup_congr (agrees.distinct blocks.pool distinct) blocks.pool pool' agrees.inodesNum inRange
      (agrees.entries blocks.pool inRange)
  cases effect with
  | nothing | unlink | decrease => exact ⟨⟨Nat.zero_le _, Nat.zero_le _⟩, trivial, trivial, trivial⟩
  | makeDir dir names =>
    have inRange := valid.1.inRange
    refine ⟨?_, ?_, ?_, trivial⟩
    · rw [Enough, blocksNeeded, same dir inRange, agrees.dirNeed (bounded dir inRange), agrees.freeBlocks, agrees.freeNodes]
      exact enough
    · rw [EntersNew, same dir inRange, looked dir inRange, agrees.freeNodes]
      exact new.imp_right fun fresh => ⟨fresh.1, agrees.makesOnly (bounded dir inRange) fresh.2.1, fresh.2.2⟩
    · rw [EntersOnce, same dir inRange, agrees.freeNodes]
      exact ⟨agrees.makesOnly (bounded dir inRange) once.1, once.2⟩
  | copy dir filename content =>
    have inRange := valid.1.inRange
    refine ⟨?_, ?_, ?_, trivial⟩
    · rw [Enough, blocksNeeded, same dir inRange, agrees.dirNeed (bounded dir inRange), agrees.freeBlocks, agrees.freeNodes]
      exact enough
    · rw [EntersNew, same dir inRange, looked dir inRange, agrees.freeNodes, agrees.findFreeNode]
      exact new.imp_right fun fresh => ⟨fresh.1, agrees.addsOnly (bounded dir inRange) fresh.2.1, fresh.2.2⟩
    · rw [EntersOnce, same dir inRange, agrees.findFreeNode]
      exact ⟨agrees.addsOnly (bounded dir inRange) once.1, once.2⟩
  | link dir filename file =>
    have inRange := valid.1.inRange
    have fileInRange := navigable.inRange_of_named valid.2
    refine ⟨?_, ?_, ?_, ?_⟩
    · rw [Enough, blocksNeeded, same dir inRange, agrees.dirNeed (bounded dir inRange), agrees.freeBlocks, agrees.freeNodes]
      exact enough
    · rw [EntersNew, same dir inRange, looked dir inRange]
      exact ⟨new.1, agrees.addsOnly (bounded dir inRange) new.2⟩
    · rw [EntersOnce, same dir inRange]
      exact agrees.addsOnly (bounded dir inRange) once
    · rw [CountFits, agrees.nodes file fileInRange]
      exact fits
  | increase file sizeAmount =>
    have fileInRange := navigable.inRange_of_named valid.1
    refine ⟨?_, trivial, trivial, trivial⟩
    rw [Enough, blocksNeeded, agrees.nodes file fileInRange, agrees.freeBlocks, agrees.freeNodes]
    exact enough

theorem index_small {n : Nat} (small : n = nil64 ∨ n < s.datablocksNum) : n < 2 ^ 64 := by
  have blocks : s.datablocksNum < 2 ^ 32 := s.superblock.datablocksNum_lt
  rcases small with rfl | bounded
  · decide
  · omega

/-- On a proper disc every number fits. -/
theorem Proper.storable (proper : s.Proper) (weightless : s.Weightless) (fits : s.superblock.Fits) : s.Storable := by
  obtain ⟨chain, blocks, _⟩ := proper
  have blocksFit : s.datablocksNum < 2 ^ 32 := s.superblock.datablocksNum_lt
  constructor
  · exact fits
  · intro i bounded
    -- a file has as many blocks as its size needs, and there are fewer than 2^32; a directory has size 0
    by_cases isFile : (s.nodeTab i).type = .file
    · have few := blocks.pool.length_le bounded
      rw [blocks.sized i bounded isFile] at few
      have most := le_blocksFor (s.nodeTab i).size
      have total : blocksFor (s.nodeTab i).size * blockSize ≤ s.datablocksNum * blockSize := Nat.mul_le_mul_right _ few
      have unit : blockSize = 8192 := rfl
      rw [unit] at most total
      omega
    · rw [weightless i isFile]
      decide
  · intro i bounded
    apply index_small
    have linked := blocks.pool.linked i bounded
    cases list : chain i with
    | nil => exact .inl (linked.list_eq_nil_iff.mp list)
    | cons b rest =>
      rw [list] at linked
      obtain rfl := linked.head_eq
      exact .inr (blocks.pool.bounded i bounded _ (by simp [list]))
  · intro b bounded
    apply index_small
    cases marked : s.dataMap b with
    | false => exact .inl (blocks.pool.loose b bounded marked)
    | true =>
      obtain ⟨i, owner, member⟩ := (blocks.pool.marked_iff b bounded).mp marked
      exact ((blocks.pool.linked i owner).next_mem member).imp_right (blocks.pool.bounded i owner _)

/-! ## A new disc -/

theorem create_image {fileName : CString} {size : UInt64} (some_ : (inodesOf size).toNat ≠ 0) :
    (create fileName size).image = imageOf fileName size := by
  have length := length_nodesOf some_
  have nodes : (List.range (create fileName size).inodesNum).map (create fileName size).nodeTab = nodesOf size := by
    apply List.ext_getElem
    · rw [List.length_map, List.length_range, length]
      rfl
    · intro i _ listed
      rw [List.getElem_map, List.getElem_range, getElem_nodesOf fileName listed]
  have marks : (create fileName size).mapBytes = List.replicate (createSuperblock fileName size).datablocksNum 0 :=
    List.map_const' .. |>.trans (by rw [List.length_range]; rfl)
  have blocks : (List.range (create fileName size).datablocksNum).map (create fileName size).datablockTab =
      List.replicate (createSuperblock fileName size).datablocksNum freeDatablock :=
    List.map_const' .. |>.trans (by rw [List.length_range]; rfl)
  rw [image, nodeBytes, blockBytesOf, nodes, marks, blocks, imageOf_eq]
  rfl

theorem create_weightless (fileName : CString) (size : UInt64) : (create fileName size).Weightless := by
  intro i _
  by_cases root : i = 0 <;> simp [create, blank, root]

end VirtualDisc

end SoiStud.FileSystem
