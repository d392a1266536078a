import SoiStud.FileSystem.Image

/-! What `create` writes for a requested size, and what `open` makes of it. -/

set_option autoImplicit false

namespace SoiStud.FileSystem

open Library

structure HostFile where
  bytes : List UInt8
  room : Nat

def fwrite (item : List UInt8) (file : HostFile) : Except Fault HostFile :=
  if item.length ≤ file.room then .ok ⟨file.bytes ++ item, file.room - item.length⟩
  else .error (.exit "Error while saving to file")

/-- The loops that write one item again and again. -/
def fwriteTimes (item : List UInt8) : Nat → HostFile → Except Fault HostFile
  | 0, file => .ok file
  | n + 1, file => do
    let file ← fwrite item file
    fwriteTimes item n file

def freadItems (width count : Nat) (rest : List UInt8) : Except Fault (List UInt8 × List UInt8) :=
  if width * count ≤ rest.length then .ok (rest.take (width * count), rest.drop (width * count))
  else .error (.exit "Error while reading file")

/-- `inodes` in `create`, in the width of the variable. -/
def inodesOf (size : UInt64) : UInt32 := (size / UInt64.ofNat maxFilesProportion / inodeSize).toUInt32

def rootInode : Inode := ⟨0, nil64, .directory, 1⟩
def freeInode : Inode := ⟨0, nil64, .empty, 0⟩
def freeDatablock : Datablock := ⟨nil64, fun _ => 0⟩

/-- `create`: the image it writes, where the host file can be opened and takes it. -/
def createImage (opens : Bool) (room : Nat) (fileName : CString) (size : UInt64) : Except Fault (List UInt8) :=
  if !opens then .error (.exit "Cannot open file")
  else do
    let superblock := createSuperblock fileName size
    let file ← fwrite (encodeSuperblock superblock) ⟨[], room⟩
    let file ← fwrite (encodeInode rootInode) file
    -- unsigned: without inodes this is the largest number there is
    let file ← fwriteTimes (encodeInode freeInode) (inodesOf size - 1).toNat file
    let file ← fwriteTimes [0] superblock.datablocksNum file
    let file ← fwriteTimes (encodeDatablock freeDatablock) superblock.datablocksNum file
    .ok file.bytes

def openImage (image : List UInt8) : Except Fault VirtualDisc := do
  let (header, rest) ← freadItems superblockSize.toNat 1 image
  let superblock := decodeSuperblock header
  let (nodes, rest) ← freadItems inodeSize.toNat superblock.inodesNum rest
  let (marks, rest) ← freadItems 1 superblock.datablocksNum rest
  let (blocks, _) ← freadItems datablockSize.toNat superblock.datablocksNum rest
  .ok { superblock := superblock
        nodeTab := fun i => decodeInode (record inodeSize.toNat i nodes)
        dataMap := fun b => marks.getD b 0 ≠ 0
        datablockTab := fun b => decodeDatablock (record datablockSize.toNat b blocks) }

variable {fileName : CString} {size : UInt64} {image : List UInt8} {superblock : Superblock} {disc : VirtualDisc}

/-! ## Writing -/

theorem fwrite_append (a b : List UInt8) (file : HostFile) : (fwrite a file >>= fwrite b) = fwrite (a ++ b) file := by
  unfold fwrite
  by_cases fits : a.length ≤ file.room
  · simp only [if_pos fits, ok_bind, List.length_append, List.append_assoc, Nat.sub_sub]
    by_cases both : b.length ≤ file.room - a.length
    · rw [if_pos both, if_pos (by omega)]
    · rw [if_neg both, if_neg (by omega)]
  · rw [if_neg fits, if_neg (by rw [List.length_append]; omega)]
    rfl

theorem fwriteTimes_eq (item : List UInt8) (n : Nat) (file : HostFile) :
    fwriteTimes item n file = fwrite (List.replicate n item).flatten file := by
  induction n generalizing file with
  | zero => simp [fwriteTimes, fwrite]
  | succ n ih =>
    rw [List.replicate_succ, List.flatten_cons, ← fwrite_append, fwriteTimes]
    congr 1
    funext file
    exact ih file

def imageOf (fileName : CString) (size : UInt64) : List UInt8 :=
  encodeSuperblock (createSuperblock fileName size) ++ (encodeInode rootInode ++
    ((List.replicate (inodesOf size - 1).toNat (encodeInode freeInode)).flatten ++
      ((List.replicate (createSuperblock fileName size).datablocksNum [0]).flatten ++
        (List.replicate (createSuperblock fileName size).datablocksNum (encodeDatablock freeDatablock)).flatten)))

theorem createImage_eq (opens : Bool) (room : Nat) (fileName : CString) (size : UInt64) :
    createImage opens room fileName size = if !opens then .error (.exit "Cannot open file")
      else if (imageOf fileName size).length ≤ room then .ok (imageOf fileName size)
      else .error (.exit "Error while saving to file") := by
  have whole : (fwrite (imageOf fileName size) ⟨[], room⟩ >>= fun file => .ok file.bytes) =
      if (imageOf fileName size).length ≤ room then .ok (imageOf fileName size)
      else .error (.exit "Error while saving to file") := by
    unfold fwrite
    split <;> rfl
  rw [← whole, imageOf]
  simp only [createImage, fwriteTimes_eq, ← fwrite_append, bind_assoc]

/-! ## Reading -/

theorem freadItems_append {part : List UInt8} {width count : Nat} (sized : part.length = width * count)
    (rest : List UInt8) :
    freadItems width count (part ++ rest) = .ok (part, rest) := by
  rw [freadItems, if_pos (by rw [List.length_append]; omega), ← sized, List.take_left, List.drop_left]

theorem openImage_parts (fits : superblock.Fits) {nodes marks blocks : List UInt8}
    (nodesSized : nodes.length = inodeSize.toNat * superblock.inodesNum)
    (marksSized : marks.length = superblock.datablocksNum)
    (blocksSized : blocks.length = datablockSize.toNat * superblock.datablocksNum) :
    openImage (encodeSuperblock superblock ++ (nodes ++ (marks ++ blocks))) = .ok
      { superblock := superblock
        nodeTab := fun i => decodeInode (record inodeSize.toNat i nodes)
        dataMap := fun b => marks.getD b 0 ≠ 0
        datablockTab := fun b => decodeDatablock (record datablockSize.toNat b blocks) } := by
  have headerSized : (encodeSuperblock superblock).length = superblockSize.toNat * 1 := by
    rw [length_encodeSuperblock fits, Nat.mul_one]
  have marksSized' : marks.length = 1 * superblock.datablocksNum := by rw [marksSized, Nat.one_mul]
  have ends : freadItems datablockSize.toNat superblock.datablocksNum blocks = .ok (blocks, []) := by
    have read := freadItems_append blocksSized []
    rwa [List.append_nil] at read
  simp only [openImage, freadItems_append headerSized, ok_bind, decodeSuperblock_encodeSuperblock fits,
    freadItems_append nodesSized, freadItems_append marksSized', ends]

theorem superblock_of_openImage (fits : superblock.Fits) {rest : List UInt8}
    (opened : openImage (encodeSuperblock superblock ++ rest) = .ok disc) : disc.superblock = superblock := by
  have headerSized : (encodeSuperblock superblock).length = superblockSize.toNat * 1 := by
    rw [length_encodeSuperblock fits, Nat.mul_one]
  rw [openImage, freadItems_append headerSized, ok_bind] at opened
  simp only [decodeSuperblock_encodeSuperblock fits] at opened
  obtain ⟨_, _, opened⟩ := bind_eq_ok.mp opened
  obtain ⟨_, _, opened⟩ := bind_eq_ok.mp opened
  obtain ⟨_, _, opened⟩ := bind_eq_ok.mp opened
  cases opened
  rfl

/-! ## The superblock that is computed -/

theorem createSuperblock_fits (fileName : CString) (size : UInt64) : (createSuperblock fileName size).Fits where
  discSize := size.toNat_lt
  nodesOffset := superblockSize.toNat_lt
  dataMapOffset := UInt64.toNat_lt _
  datablocksOffset := UInt64.toNat_lt _
  freeDatablocksNum := UInt32.toNat_lt _
  freeInodesNum := UInt32.toNat_lt _
  name := by simp [createSuperblock]

theorem inodesOf_toNat (size : UInt64) : (inodesOf size).toNat = size.toNat / 8 / 24 % 2 ^ 32 := by
  simp only [inodesOf, UInt64.toNat_toUInt32, UInt64.toNat_div]
  rfl

theorem createSuperblock_inodesNum (fileName : CString) (size : UInt64) :
    (createSuperblock fileName size).inodesNum = size.toNat / 8 / 24 % 2 ^ 32 := inodesOf_toNat size

/-- The count of blocks left for `n` bytes, first without and then with room for the map:
cut to 32 bits both times, it still leaves room for the map. -/
theorem blocks_fit (n : Nat) :
    8201 * ((n - n / 8200 % 2 ^ 32) / 8200 % 2 ^ 32) ≤ n := by
  -- whole multiples of `8200 * 2 ^ 32` bytes drop out of both counts
  have small : n % (8200 * 2 ^ 32) / 8200 < 2 ^ 32 := by omega
  have possible : n / 8200 % 2 ^ 32 = n % (8200 * 2 ^ 32) / 8200 := by omega
  rw [possible]
  have counted : (n - n % (8200 * 2 ^ 32) / 8200) / 8200 % 2 ^ 32 =
      (n % (8200 * 2 ^ 32) - n % (8200 * 2 ^ 32) / 8200) / 8200 := by omega
  rw [counted]
  omega

theorem tables_toNat {inodes : UInt32} (within : 64 + 24 * inodes.toNat ≤ size.toNat) :
    (size - superblockSize - inodes.toUInt64 * inodeSize).toNat = size.toNat - 64 - 24 * inodes.toNat := by
  have bound := size.toNat_lt
  have inodesFit := inodes.toNat_lt
  have table : (inodes.toUInt64 * inodeSize).toNat = 24 * inodes.toNat := by
    rw [UInt64.toNat_mul, UInt32.toNat_toUInt64]
    simp only [inodeSize, UInt64.reduceToNat]
    omega
  rw [UInt64.toNat_sub, UInt64.toNat_sub, table]
  simp only [superblockSize, UInt64.reduceToNat]
  omega

theorem createSuperblock_datablocksNum (within : 64 + 24 * (inodesOf size).toNat ≤ size.toNat) :
    (createSuperblock fileName size).datablocksNum =
      (size.toNat - 64 - 24 * (inodesOf size).toNat -
        (size.toNat - 64 - 24 * (inodesOf size).toNat) / 8200 % 2 ^ 32) / 8200 % 2 ^ 32 := by
  have tables := tables_toNat within
  generalize remaining : size.toNat - 64 - 24 * (inodesOf size).toNat = n at tables ⊢
  have bound : n < 2 ^ 64 := by
    rw [← tables]
    exact UInt64.toNat_lt _
  change (UInt64.toUInt32 (((size - superblockSize - (inodesOf size).toUInt64 * inodeSize) -
    ((size - superblockSize - (inodesOf size).toUInt64 * inodeSize) / datablockSize).toUInt32.toUInt64) /
      datablockSize)).toNat = _
  rw [UInt64.toNat_toUInt32, UInt64.toNat_div, UInt64.toNat_sub, UInt32.toNat_toUInt64, UInt64.toNat_toUInt32,
    UInt64.toNat_div, tables]
  simp only [datablockSize, UInt64.reduceToNat]
  have fewer : n / 8200 % 2 ^ 32 ≤ n := (Nat.mod_le _ _).trans (Nat.div_le_self _ _)
  generalize n / 8200 % 2 ^ 32 = possible at fewer
  have subtracted : (2 ^ 64 - possible + n) % 2 ^ 64 = n - possible := by omega
  rw [subtracted]

theorem createSuperblock_layout (fileName : CString) (some_ : size.toNat / 8 / 24 % 2 ^ 32 ≠ 0) :
    let superblock := createSuperblock fileName size
    superblock.nodesOffset = 64 ∧ superblock.dataMapOffset = 64 + 24 * superblock.inodesNum ∧
      superblock.datablocksOffset = superblock.dataMapOffset + superblock.datablocksNum ∧
      superblock.datablocksOffset + 8200 * superblock.datablocksNum ≤ size.toNat := by
  intro superblock
  have inodes : superblock.inodesNum = (inodesOf size).toNat := rfl
  have counted := inodesOf_toNat size
  have bound := size.toNat_lt
  have inodesFits := superblock.inodesNum_lt
  have blocksFits := superblock.datablocksNum_lt
  have within : 64 + 24 * (inodesOf size).toNat ≤ size.toNat := by omega
  have blocks : superblock.datablocksNum = _ := createSuperblock_datablocksNum within
  have dataMapOffset : superblock.dataMapOffset = 64 + 24 * superblock.inodesNum := by
    change (superblockSize + (inodesOf size).toUInt64 * inodeSize).toNat = _
    rw [UInt64.toNat_add, UInt64.toNat_mul, UInt32.toNat_toUInt64, inodes]
    simp only [superblockSize, inodeSize, UInt64.reduceToNat]
    omega
  have datablocksOffset : superblock.datablocksOffset = superblock.dataMapOffset + superblock.datablocksNum := by
    change (superblockSize + (inodesOf size).toUInt64 * inodeSize + UInt32.toUInt64 _).toNat = _
    rw [UInt64.toNat_add, UInt32.toNat_toUInt64]
    change (superblock.dataMapOffset + superblock.datablocksNum) % 2 ^ 64 = _
    omega
  have fit := blocks_fit (size.toNat - 64 - 24 * (inodesOf size).toNat)
  rw [← blocks] at fit
  exact ⟨rfl, dataMapOffset, datablocksOffset, by omega⟩

/-! ## The empty disc -/

/-- An image of at most the size: the superblock, the inodes, a map byte and a
block for each block that there is, each part where the superblock has it. What
`open` makes of it is the empty disc. -/
structure Formats (size : UInt64) (image : List UInt8) (disc : VirtualDisc) : Prop where
  opened : openImage image = .ok disc
  parts : ∃ (nodes : List Inode) (marks : List UInt8) (blocks : List Datablock),
    image = encodeSuperblock disc.superblock ++ (nodes.flatMap encodeInode ++
      (marks ++ blocks.flatMap encodeDatablock)) ∧
    nodes.length = disc.inodesNum ∧ marks.length = disc.datablocksNum ∧ blocks.length = disc.datablocksNum ∧
    disc.superblock.nodesOffset = (encodeSuperblock disc.superblock).length ∧
    disc.superblock.dataMapOffset = disc.superblock.nodesOffset + (nodes.flatMap encodeInode).length ∧
    disc.superblock.datablocksOffset = disc.superblock.dataMapOffset + marks.length
  within : image.length ≤ size.toNat
  inodes : 1 ≤ disc.inodesNum
  root : (disc.nodeTab 0).type = .directory ∧ disc.first 0 = nil64
  empty : ∀ i < disc.inodesNum, i ≠ 0 → (disc.nodeTab i).type = .empty
  free : ∀ b < disc.datablocksNum, disc.dataMap b = false ∧ disc.next b = nil64

/-- Whatever the host does, `create` refuses or writes an empty disc. -/
def CreatesEmptyDisc (fileName : CString) (size : UInt64) : Prop :=
  ∀ opens room, (∃ message, createImage opens room fileName size = .error (.exit message)) ∨
    ∃ image disc, createImage opens room fileName size = .ok image ∧ Formats size image disc

theorem createImage_refuses_or_writes (opens : Bool) (room : Nat) (fileName : CString) (size : UInt64) :
    (∃ message, createImage opens room fileName size = .error (.exit message)) ∨
      createImage opens room fileName size = .ok (imageOf fileName size) := by
  rw [createImage_eq]
  cases opens with
  | false => exact .inl ⟨_, rfl⟩
  | true =>
    by_cases fits : (imageOf fileName size).length ≤ room
    · exact .inr (by simp [fits])
    · exact .inl ⟨"Error while saving to file", by simp [fits]⟩

/-- Without an inode the superblock says so, and no disc of it has a root directory. -/
theorem not_createsEmptyDisc (none_ : size.toNat / 8 / 24 % 2 ^ 32 = 0) : ¬ CreatesEmptyDisc fileName size := by
  intro creates
  have written : createImage true (imageOf fileName size).length fileName size = .ok (imageOf fileName size) := by
    rw [createImage_eq]
    simp
  rcases creates true (imageOf fileName size).length with ⟨message, refused⟩ | ⟨image, disc, same, formats⟩
  · rw [written] at refused
    cases refused
  · rw [written] at same
    cases same
    have superblock := superblock_of_openImage (createSuperblock_fits fileName size) formats.opened
    have inodes := formats.inodes
    rw [VirtualDisc.inodesNum, superblock, createSuperblock_inodesNum, none_] at inodes
    exact Nat.not_succ_le_zero 0 inodes

def nodesOf (size : UInt64) : List Inode := rootInode :: List.replicate (inodesOf size - 1).toNat freeInode

theorem length_nodesOf (some_ : (inodesOf size).toNat ≠ 0) : (nodesOf size).length = (inodesOf size).toNat := by
  have positive : (1 : UInt32) ≤ inodesOf size := by
    rw [UInt32.le_iff_toNat_le]
    exact Nat.one_le_iff_ne_zero.mpr some_
  have fewer : (inodesOf size - 1).toNat = (inodesOf size).toNat - 1 := UInt32.toNat_sub_of_le _ _ positive
  rw [nodesOf, List.length_cons, List.length_replicate, fewer]
  omega

theorem imageOf_eq (fileName : CString) (size : UInt64) : imageOf fileName size =
    encodeSuperblock (createSuperblock fileName size) ++ ((nodesOf size).flatMap encodeInode ++
      (List.replicate (createSuperblock fileName size).datablocksNum 0 ++
        (List.replicate (createSuperblock fileName size).datablocksNum freeDatablock).flatMap encodeDatablock)) := by
  rw [imageOf, nodesOf, List.flatMap_cons, List.flatMap_replicate, List.flatMap_replicate, List.append_assoc]
  congr 4
  exact List.flatten_replicate_singleton

theorem getElem_nodesOf (fileName : CString) {i : Nat} (bounded : i < (nodesOf size).length) :
    (nodesOf size)[i] = (VirtualDisc.create fileName size).nodeTab i := by
  cases i with
  | zero => rfl
  | succ i => simp [nodesOf, VirtualDisc.create, VirtualDisc.blank, freeInode]

theorem createdInode_small (fileName : CString) (size : UInt64) (i : Nat) :
    ((VirtualDisc.create fileName size).nodeTab i).size < 2 ^ 64 ∧
      ((VirtualDisc.create fileName size).nodeTab i).firstDataBlock < 2 ^ 64 := by
  unfold VirtualDisc.create VirtualDisc.blank
  dsimp only
  split <;> decide

/-- The disc that `open` makes of an image with an inode agrees with the model of a new disc. -/
theorem openImage_imageOf (fileName : CString) (some_ : (inodesOf size).toNat ≠ 0) :
    ∃ disc, openImage (imageOf fileName size) = .ok disc ∧ disc.superblock = createSuperblock fileName size ∧
      (∀ i < disc.inodesNum, disc.nodeTab i = (VirtualDisc.create fileName size).nodeTab i) ∧
      ∀ b < disc.datablocksNum, disc.dataMap b = (VirtualDisc.create fileName size).dataMap b ∧
        disc.next b = (VirtualDisc.create fileName size).next b ∧
        ∀ k < blockSize, disc.data b k = (VirtualDisc.create fileName size).data b k := by
  have nodes := length_nodesOf some_
  have nodesSized : ((nodesOf size).flatMap encodeInode).length =
      inodeSize.toNat * (createSuperblock fileName size).inodesNum := by
    rw [length_flatMap_of_sized length_encodeInode, nodes]
    rfl
  have blocksSized : ((List.replicate (createSuperblock fileName size).datablocksNum freeDatablock).flatMap
      encodeDatablock).length = datablockSize.toNat * (createSuperblock fileName size).datablocksNum := by
    rw [length_flatMap_of_sized length_encodeDatablock, List.length_replicate]
  have opened := openImage_parts (createSuperblock_fits fileName size) nodesSized
    (List.length_replicate (a := 0)) blocksSized
  rw [← imageOf_eq] at opened
  refine ⟨_, opened, rfl, fun i bounded => ?_, fun b bounded => ?_⟩
  · have inTable : i < (nodesOf size).length := by rwa [nodes]
    obtain ⟨sizeSmall, firstSmall⟩ := createdInode_small fileName size i
    rw [← getElem_nodesOf fileName inTable] at sizeSmall firstSmall ⊢
    dsimp only
    rw [record_flatMap length_encodeInode inTable, decodeInode_encodeInode sizeSmall firstSmall]
  · -- the map is all zero, and each block is as it was written
    have inTable : b < (List.replicate (createSuperblock fileName size).datablocksNum freeDatablock).length := by
      rwa [List.length_replicate]
    obtain ⟨next, data⟩ := decodeDatablock_encodeDatablock freeDatablock (by decide)
    have read := record_flatMap length_encodeDatablock inTable
    rw [List.getElem_replicate] at read
    refine ⟨?_, ?_, fun k within => ?_⟩
    · have zero : (List.replicate (createSuperblock fileName size).datablocksNum (0 : UInt8)).getD b 0 = 0 := by
        rw [List.getD_eq_getElem?_getD, List.getElem?_replicate]
        split <;> rfl
      simp only [zero]
      rfl
    · simp only [VirtualDisc.next, read, next]
      rfl
    · simp only [VirtualDisc.data, read, data k within]
      rfl

theorem imageOf_formats (fileName : CString) (some_ : size.toNat / 8 / 24 % 2 ^ 32 ≠ 0) :
    ∃ disc, Formats size (imageOf fileName size) disc := by
  have inodes : (inodesOf size).toNat ≠ 0 := by rwa [inodesOf_toNat]
  obtain ⟨disc, opened, superblock, sameNodes, sameBlocks⟩ := openImage_imageOf fileName inodes
  obtain ⟨nodesOffset, dataMapOffset, datablocksOffset, within⟩ := createSuperblock_layout fileName some_
  have fits := createSuperblock_fits fileName size
  have header := length_encodeSuperblock fits
  have nodes : ((nodesOf size).flatMap encodeInode).length = 24 * (createSuperblock fileName size).inodesNum := by
    rw [length_flatMap_of_sized length_encodeInode, length_nodesOf inodes]
    rfl
  have blocks : ((List.replicate (createSuperblock fileName size).datablocksNum freeDatablock).flatMap
      encodeDatablock).length = 8200 * (createSuperblock fileName size).datablocksNum := by
    rw [length_flatMap_of_sized length_encodeDatablock, List.length_replicate]
    rfl
  have headerSize : superblockSize.toNat = 64 := rfl
  -- the three tables lie one behind the other, where the superblock says
  refine ⟨disc, opened, ?_, ?_, ?_, ?_, ?_, ?_⟩
  · refine ⟨nodesOf size, List.replicate (createSuperblock fileName size).datablocksNum 0,
      List.replicate (createSuperblock fileName size).datablocksNum freeDatablock, ?_⟩
    unfold VirtualDisc.inodesNum VirtualDisc.datablocksNum
    rw [superblock, header, nodes]
    refine ⟨imageOf_eq fileName size, length_nodesOf inodes, List.length_replicate, List.length_replicate, nodesOffset,
      ?_, ?_⟩
    · rw [nodesOffset, dataMapOffset]
    · rw [List.length_replicate, datablocksOffset]
  · rw [imageOf_eq, List.length_append, List.length_append, List.length_append, header, nodes, blocks,
      List.length_replicate]
    omega
  · rw [VirtualDisc.inodesNum, superblock, createSuperblock_inodesNum]
    omega
  · have root := sameNodes 0 (by rw [VirtualDisc.inodesNum, superblock, createSuperblock_inodesNum]; omega)
    unfold VirtualDisc.first
    rw [root]
    exact ⟨rfl, rfl⟩
  · intro i bounded other
    rw [sameNodes i bounded]
    exact VirtualDisc.blank_type other
  · intro b bounded
    obtain ⟨mark, next, _⟩ := sameBlocks b bounded
    exact ⟨mark, next⟩

/-- A size makes an empty disc exactly if it has room for an inode, counted in 32 bits. -/
theorem createsEmptyDisc_iff (fileName : CString) (size : UInt64) :
    CreatesEmptyDisc fileName size ↔ size.toNat / 8 / 24 % 2 ^ 32 ≠ 0 := by
  constructor
  · intro creates none_
    exact not_createsEmptyDisc none_ creates
  · intro some_ opens room
    rcases createImage_refuses_or_writes opens room fileName size with refused | written
    · exact .inl refused
    · obtain ⟨disc, formats⟩ := imageOf_formats fileName some_
      exact .inr ⟨_, disc, written, formats⟩

/-- For a size of 100 bytes `create` writes the largest number of inodes and counts none. -/
theorem createsEmptyDisc_fails : ¬ CreatesEmptyDisc ⟨[100], by decide⟩ 100 :=
  not_createsEmptyDisc (by decide)

end SoiStud.FileSystem
