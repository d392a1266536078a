import SoiStud.FileSystem.Creation
import SoiStud.Library.Encoding

/-! The disc as the bytes of a host file: what `create` writes and `open` reads.

The parts follow each other without offsets being looked at. The structures are
laid out as in the 64-bit ABI; the padding of an inode is written as zeros and
not read.
-/

set_option autoImplicit false

namespace SoiStud.FileSystem

open Library

def InodeType.toByte : InodeType → UInt8
  | .empty => 0
  | .file => 1
  | .directory => 2

def InodeType.ofByte (byte : UInt8) : InodeType :=
  if byte = 1 then .file else if byte = 2 then .directory else .empty

def encodeInode (node : Inode) : List UInt8 :=
  toBytes 8 node.size ++ (toBytes 8 node.firstDataBlock ++ (node.type.toByte :: node.referencesNum ::
    List.replicate 6 0))

def decodeInode (bytes : List UInt8) : Inode where
  size := ofBytes (bytes.take 8)
  firstDataBlock := ofBytes ((bytes.drop 8).take 8)
  type := .ofByte (bytes.getD 16 0)
  referencesNum := bytes.getD 17 0

def encodeDatablock (block : Datablock) : List UInt8 :=
  toBytes 8 block.next ++ (List.range blockSize).map block.data

def decodeDatablock (bytes : List UInt8) : Datablock where
  next := ofBytes (bytes.take 8)
  data k := (bytes.drop 8).getD k 0

def encodeSuperblock (superblock : Superblock) : List UInt8 :=
  toBytes 8 superblock.discSize ++ (toBytes 8 superblock.nodesOffset ++ (toBytes 8 superblock.dataMapOffset ++
    (toBytes 8 superblock.datablocksOffset ++ (toBytes 4 superblock.datablocksNum ++
      (toBytes 4 superblock.freeDatablocksNum ++ (toBytes 4 superblock.inodesNum ++
        (toBytes 4 superblock.freeInodesNum ++ superblock.name.take filenameLen)))))))

def field (bytes : List UInt8) (offset width : Nat) : Nat := ofBytes ((bytes.drop offset).take width)

theorem field_lt (bytes : List UInt8) (offset width : Nat) : field bytes offset width < 256 ^ width := by
  have bound := ofBytes_lt ((bytes.drop offset).take width)
  have short : ((bytes.drop offset).take width).length ≤ width := List.length_take_le _ _
  exact bound.trans_le (Nat.pow_le_pow_right (by decide) short)

def decodeSuperblock (bytes : List UInt8) : Superblock where
  discSize := field bytes 0 8
  nodesOffset := field bytes 8 8
  dataMapOffset := field bytes 16 8
  datablocksOffset := field bytes 24 8
  datablocksNum := field bytes 32 4
  freeDatablocksNum := field bytes 36 4
  inodesNum := field bytes 40 4
  freeInodesNum := field bytes 44 4
  name := (bytes.drop 48).take filenameLen
  datablocksNum_lt := field_lt bytes 32 4
  inodesNum_lt := field_lt bytes 40 4

/-! ## What is read back is what was written -/

theorem ofByte_toByte (type : InodeType) : InodeType.ofByte type.toByte = type := by
  cases type <;> decide

@[simp] theorem length_encodeInode (node : Inode) : (encodeInode node).length = inodeSize.toNat := by
  simp [encodeInode]
  rfl

@[simp] theorem length_encodeDatablock (block : Datablock) :
    (encodeDatablock block).length = datablockSize.toNat := by
  simp [encodeDatablock]
  rfl

theorem decodeInode_encodeInode {node : Inode} (size : node.size < 2 ^ 64) (first : node.firstDataBlock < 2 ^ 64) :
    decodeInode (encodeInode node) = node := by
  have sizeFits : node.size < 256 ^ 8 := size
  have firstFits : node.firstDataBlock < 256 ^ 8 := first
  rw [decodeInode, encodeInode, List.take_left' (length_toBytes 8 node.size), ofBytes_toBytes sizeFits,
    List.drop_left' (length_toBytes 8 node.size), List.take_left' (length_toBytes 8 node.firstDataBlock),
    ofBytes_toBytes firstFits]
  simp [ofByte_toByte]

theorem decodeDatablock_encodeDatablock (block : Datablock) (next : block.next < 2 ^ 64) :
    (decodeDatablock (encodeDatablock block)).next = block.next ∧
      ∀ k < blockSize, (decodeDatablock (encodeDatablock block)).data k = block.data k := by
  have fits : block.next < 256 ^ 8 := next
  constructor
  · simp only [decodeDatablock, encodeDatablock]
    rw [List.take_left' (length_toBytes 8 block.next), ofBytes_toBytes fits]
  · intro k bounded
    simp only [decodeDatablock, encodeDatablock]
    rw [List.drop_left' (length_toBytes 8 block.next)]
    simp [bounded]

theorem field_skip {part rest : List UInt8} {n : Nat} (sized : part.length = n) (offset width : Nat) :
    field (part ++ rest) (n + offset) width = field rest offset width := by
  rw [field, field, ← List.drop_drop, List.drop_left' sized]

theorem field_here {width n : Nat} {rest : List UInt8} (fits : n < 256 ^ width) :
    field (toBytes width n ++ rest) 0 width = n := by
  rw [field, List.drop_zero, List.take_left' (length_toBytes width n), ofBytes_toBytes fits]

structure Superblock.Fits (superblock : Superblock) : Prop where
  discSize : superblock.discSize < 2 ^ 64
  nodesOffset : superblock.nodesOffset < 2 ^ 64
  dataMapOffset : superblock.dataMapOffset < 2 ^ 64
  datablocksOffset : superblock.datablocksOffset < 2 ^ 64
  freeDatablocksNum : superblock.freeDatablocksNum < 2 ^ 32
  freeInodesNum : superblock.freeInodesNum < 2 ^ 32
  name : superblock.name.length = filenameLen

theorem length_encodeSuperblock {superblock : Superblock} (fits : superblock.Fits) :
    (encodeSuperblock superblock).length = superblockSize.toNat := by
  simp [encodeSuperblock, fits.name]
  rfl

theorem decodeSuperblock_encodeSuperblock {superblock : Superblock} (fits : superblock.Fits) :
    decodeSuperblock (encodeSuperblock superblock) = superblock := by
  have skip8 (n offset width : Nat) (rest : List UInt8) :
      field (toBytes 8 n ++ rest) (8 + offset) width = field rest offset width := field_skip (length_toBytes 8 n) _ _
  have skip4 (n offset width : Nat) (rest : List UInt8) :
      field (toBytes 4 n ++ rest) (4 + offset) width = field rest offset width := field_skip (length_toBytes 4 n) _ _
  have wide {n : Nat} (small : n < 2 ^ 64) (rest : List UInt8) : field (toBytes 8 n ++ rest) 0 8 = n := field_here small
  have narrow {n : Nat} (small : n < 2 ^ 32) (rest : List UInt8) : field (toBytes 4 n ++ rest) 0 4 = n :=
    field_here small
  have gone (width n k : Nat) (beyond : width ≤ k) : (toBytes width n).drop k = [] :=
    List.drop_of_length_le (by rwa [length_toBytes])
  have name : superblock.name.take filenameLen = superblock.name := List.take_of_length_le fits.name.le
  apply Superblock.ext
  all_goals simp only [decodeSuperblock, encodeSuperblock]
  · exact wide fits.discSize _
  · rw [show 8 = 8 + 0 from rfl, skip8]
    exact wide fits.nodesOffset _
  · rw [show 16 = 8 + (8 + 0) from rfl, skip8, skip8]
    exact wide fits.dataMapOffset _
  · rw [show 24 = 8 + (8 + (8 + 0)) from rfl, skip8, skip8, skip8]
    exact wide fits.datablocksOffset _
  · rw [show 32 = 8 + (8 + (8 + (8 + 0))) from rfl, skip8, skip8, skip8, skip8]
    exact narrow superblock.datablocksNum_lt _
  · rw [show 36 = 8 + (8 + (8 + (8 + (4 + 0)))) from rfl, skip8, skip8, skip8, skip8, skip4]
    exact narrow fits.freeDatablocksNum _
  · rw [show 40 = 8 + (8 + (8 + (8 + (4 + (4 + 0))))) from rfl, skip8, skip8, skip8, skip8, skip4, skip4]
    exact narrow superblock.inodesNum_lt _
  · rw [show 44 = 8 + (8 + (8 + (8 + (4 + (4 + (4 + 0)))))) from rfl, skip8, skip8, skip8, skip8, skip4, skip4, skip4]
    exact narrow fits.freeInodesNum _
  · simp [List.drop_append, gone, name]

end SoiStud.FileSystem
