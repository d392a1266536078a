import SoiStud.FileSystem.Lookup

/-! The operations of the disc that change it. -/

set_option autoImplicit false

namespace SoiStud.FileSystem

def freeSlot (data : Nat → UInt8) : Option Nat :=
  (List.range dirElemsPerBlock).find? fun i => (readElem data i).used = 0

/-- `chunk` stored at `offset`, as by `fread` into or `memset` over part of a block. -/
def store (data : Nat → UInt8) (offset : Nat) (chunk : List UInt8) : Nat → UInt8 :=
  fun k => if offset ≤ k ∧ k < offset + chunk.length then chunk.getD (k - offset) 0 else data k

/-- A host file opened for reading, as `fread` and `feof` see it. -/
structure Host where
  rest : List UInt8
  eof : Bool

/-- `fread` of `n` bytes: short only at the end of the file, which it then notes. -/
def Host.fread (host : Host) (n : Nat) : List UInt8 × Host :=
  (host.rest.take n, ⟨host.rest.drop n, host.eof || decide (host.rest.length < n)⟩)

namespace VirtualDisc

/-! ## Directories -/

/-- The `while` loop over the blocks of a directory that `add_elem_to_dir` and
`make_dir` share: every block with an unused slot gets the element. Yields the
disc, `last_data_block` and `success`. -/
def scanDir (elem : DirectoryElement) :
    Nat → VirtualDisc → Nat → Nat → Bool → Except Fault (VirtualDisc × Nat × Bool)
  | 0, _, _, _, _ => .error .diverges
  | fuel + 1, s, idx, last, success =>
    if idx = nil64 then .ok (s, last, success)
    else do
      let block ← s.block idx
      -- the test is for block 0, not for the end of the chain
      let last := if block.next ≠ 0 then idx else last
      match freeSlot block.data with
      | some i =>
        -- `break` leaves the search of this block only: the blocks after it get the element too
        let s ← s.setData idx (writeElem block.data i elem)
        scanDir elem fuel s block.next last true
      | none => scanDir elem fuel s block.next last success

/-- What both do when no block had an unused slot; yields the error text of a
failed allocation. -/
def appendElem (s : VirtualDisc) (last : Nat) (elem : DirectoryElement) :
    Except Fault (Option String × VirtualDisc) := do
  -- linked before the test; a search that finds nothing yields `none32`, which is not `nil64`
  let s ← s.setNext last s.findFreeDatablock
  let newBlockId := s.next last
  if newBlockId = nil64 then .ok (some "No free datablocks found.", s)
  else
    let block ← s.block newBlockId
    let s ← s.setData newBlockId (writeElem block.data 0 elem)
    let s ← s.setMark newBlockId true
    .ok (none, s)

/-- The part of `add_elem_to_dir` and `make_dir` for a directory that has blocks. -/
def insertElem (s : VirtualDisc) (dir : Nat) (elem : DirectoryElement) :
    Except Fault (Option String × VirtualDisc) := do
  let (s, last, success) ← scanDir elem (s.datablocksNum + 1) s (s.first dir) (s.first dir) false
  if success then .ok (none, s) else s.appendElem last elem

/-- `add_elem_to_dir`: a directory without blocks first gets one, and is then
searched like any other. -/
def addElemToDir (s : VirtualDisc) (dir : Nat) (name : CString) (nodeId : Nat) : Outcome := do
  let node ← s.node dir
  if node.firstDataBlock = nil64 then
    let s := s.withFirst dir s.findFreeDatablock
    if s.first dir = nil64 then .ok ([.cerr "No free datablocks"], s)
    else
      let s ← s.setMark (s.first dir) true
      let (failed, s) ← s.insertElem dir (newElem name nodeId)
      .ok (failed.toList.map .cerr, s)
  else
    let (failed, s) ← s.insertElem dir (newElem name nodeId)
    .ok (failed.toList.map .cerr, s)

/-- The insertion written out in `make_dir`: a directory without blocks gets one
with the element in its first slot. -/
def insertDir (s : VirtualDisc) (dir : Nat) (elem : DirectoryElement) :
    Except Fault (Option String × VirtualDisc) := do
  if s.first dir = nil64 then
    let s := s.withFirst dir s.findFreeDatablock
    let newBlockId := s.first dir
    if newBlockId = nil64 then .ok (some "No free datablocks found.", s)
    else
      let block ← s.block newBlockId
      let s ← s.setData newBlockId (writeElem block.data 0 elem)
      let s ← s.setMark newBlockId true
      .ok (none, s)
  else s.insertElem dir elem

/-- The loop of `make_dir` over the components still to be followed or made. -/
def makeDirFrom : List CString → VirtualDisc → Nat → Outcome
  | [], s, _ => .ok ([], s)
  | currDir :: rest, s, currPath => do
    match ← s.findInDir currPath currDir with
    | some next =>
      let node ← s.node next
      if node.type = .directory then
        let (out, s) ← makeDirFrom rest s next
        .ok (warnInvalid currDir ++ out, s)
      else .ok (warnInvalid currDir ++ [.cerr "Not a directory"], s)
    | none =>
      let dirNode := s.findFreeNode
      if dirNode = none32 then .ok (warnInvalid currDir ++ [.cerr "No free nodes found."], s)
      else
        -- the size and the first block stay what they were
        let s := s.withNode dirNode
          { s.nodeTab dirNode with referencesNum := 1, type := .directory }
        let (failed, s) ← s.insertDir currPath (newElem currDir dirNode)
        match failed with
        | some text => .ok (warnInvalid currDir ++ [.cerr text], s)
        | none =>
          let (out, s) ← makeDirFrom rest s dirNode
          .ok (warnInvalid currDir ++ out, s)

def makeDir (s : VirtualDisc) (path : CString) : Outcome := makeDirFrom (components path) s 0

/-! ## Chains -/

/-- The indices `dealloc_datablocks` collects. -/
def blockIds (s : VirtualDisc) : Nat → Nat → Except Fault (List Nat)
  | 0, _ => .error .diverges
  | fuel + 1, id =>
    if id = nil64 then .ok []
    else do
      let block ← s.block id
      let ids ← s.blockIds fuel block.next
      .ok (id :: ids)

/-- One block given back: no successor and not marked. -/
def release (s : VirtualDisc) (id : Nat) : VirtualDisc := (s.withNext id nil64).withMark id false

def deallocDatablocks (s : VirtualDisc) (firstDbId : Nat) : Except Fault VirtualDisc := do
  let ids ← s.blockIds (s.datablocksNum + 1) firstDbId
  .ok (ids.foldl release s)

/-- The loop of `remove_datablock_from_inode`. -/
def unhookFrom (s : VirtualDisc) (idx : Nat) : Nat → Nat → Except Fault VirtualDisc
  | 0, _ => .error .diverges
  | fuel + 1, curr =>
    if curr = nil64 then .ok s
    else do
      let block ← s.block curr
      if block.next = idx then s.setNext curr nil64 else s.unhookFrom idx fuel block.next

def removeDatablockFromInode (s : VirtualDisc) (node idx : Nat) : Except Fault VirtualDisc :=
  if s.first node = idx then .ok (s.withFirst node nil64)
  else s.unhookFrom idx (s.datablocksNum + 1) (s.first node)

/-! ## File contents -/

def addSize (s : VirtualDisc) (i n : Nat) : VirtualDisc := s.withSize i ((s.nodeTab i).size + n)

/-- The inner loop of `copy_file_to_disc`: `fread` into block `curr` until the
block is full or the file has ended. Every read goes to the start of the block.
Yields whether reading failed, the disc, the file and `read_amount_this_block`. -/
def fillBlock (file curr : Nat) :
    Nat → VirtualDisc → Host → Nat → Except Fault (Bool × VirtualDisc × Host × Nat)
  | 0, _, _, _ => .error .diverges
  | fuel + 1, s, host, amount =>
    if amount < blockSize then do
      -- `fread` is given the block before it finds that the file has ended
      let block ← s.block curr
      let chunk := (host.fread (blockSize - amount)).1
      let host := (host.fread (blockSize - amount)).2
      if chunk = [] then .ok (!host.eof, s, host, amount)
      else
        let s ← s.setData curr (store block.data 0 chunk)
        fillBlock file curr fuel (s.addSize file chunk.length) host (amount + chunk.length)
    else .ok (false, s, host, amount)

/-- The outer loop of `copy_file_to_disc`. -/
def writeLoop (file : Nat) : Nat → VirtualDisc → Host → Nat → Outcome
  | 0, _, _, _ => .error .diverges
  | fuel + 1, s, host, curr => do
    let (failed, s, host, amount) ← fillBlock file curr (blockSize + 1) s host 0
    if failed then .ok ([.cerr "Error while reading file"], s)
    else if amount = 0 then
      -- nothing was left to read: the block taken in advance is unhooked again
      let s ← s.removeDatablockFromInode file curr
      .ok ([], s)
    else if host.eof then
      let s ← s.setMark curr true
      let s ← s.setNext curr nil64
      .ok ([], s)
    else
      let s ← s.setMark curr true
      let s ← s.setNext curr s.findFreeDatablock
      if s.next curr = nil64 then .ok ([.cerr "No free datablocks"], s)
      else writeLoop file fuel s host (s.next curr)

/-- `copy_file_to_disc` into the directory it has found, where no element has the
name. `content` is what the host file holds, `none` if it cannot be opened: the
code tests another pointer, and the first `fread` gets a null one. -/
def copyInto (s : VirtualDisc) (dir : Nat) (filename : CString) (content : Option (List UInt8)) : Outcome :=
  let fileInode := s.findFreeNode
  if fileInode = none32 then .ok ([.cerr "No free nodes found."], s)
  else do
    let s := s.withNode fileInode
      { s.nodeTab fileInode with referencesNum := 1, type := .file, size := 0 }
    -- without an element for the file its content is copied all the same
    let (added, s) ← s.addElemToDir dir filename fileInode
    let s := s.withFirst fileInode s.findFreeDatablock
    if s.first fileInode = nil64 then .ok (added ++ [.cerr "No free datablocks"], s)
    else
      match content with
      | none => .error .nullPointer
      | some content =>
        let (written, s) ← writeLoop fileInode (content.length + 1) s ⟨content, false⟩ (s.first fileInode)
        .ok (added ++ written, s)

def copyFileToDisc (s : VirtualDisc) (filename path : CString) (content : Option (List UInt8)) : Outcome := do
  let (out, dir) ← s.findDirInode path
  match dir with
  | none => .ok (out ++ [.cerr "Not a valid path"], s)
  | some dir =>
    match ← s.findInDir dir filename with
    | some _ => .ok (out ++ [.cerr "File already exists"], s)
    | none =>
      let (copied, s) ← s.copyInto dir filename content
      .ok (out ++ copied, s)

/-- The output loop of `copy_file_from_disc` and the bytes it writes: `fwrite` of
one item of no bytes reports no item written. -/
def outputLoop (s : VirtualDisc) : Nat → Nat → Nat → Except Fault (List UInt8)
  | 0, _, _ => .error .diverges
  | fuel + 1, idx, sizeToRead =>
    if idx = nil64 then .ok []
    else do
      let block ← s.block idx
      let n := if sizeToRead < blockSize then sizeToRead else blockSize
      if n = 0 then .error (.exit "Error while saving to file")
      else
        let rest ← s.outputLoop fuel block.next (sizeToRead - n)
        .ok ((List.range n).map block.data ++ rest)

/-- Prints, and writes to the host file `name_on_pd` where it can be opened. -/
def copyFileFromDisc (s : VirtualDisc) (pathToDir filename : CString) (opens : Bool) :
    Except Fault (List Output × Option (List UInt8)) := do
  let (out, dir) ← s.findDirInode pathToDir
  match dir with
  | none => .ok (out ++ [.cerr "Invalid path to directory"], none)
  | some dir =>
    match ← s.findInDir dir filename with
    | none => .ok (out ++ [.cerr "Invalid filename"], none)
    | some file =>
      let node ← s.node file
      if !opens && node.firstDataBlock ≠ nil64 then .error .nullPointer
      else
        let bytes ← s.outputLoop (s.datablocksNum + 1) node.firstDataBlock node.size
        .ok (out, some bytes)

/-! ## Links -/

/-- `link` of inode `file` into the directory it has found. -/
def linkInto (s : VirtualDisc) (linkDir : Nat) (linkFilename : CString) (file : Nat) : Outcome := do
  -- a one-byte count: after 255 it goes on at 0
  let node ← s.node file
  (s.withReferences file (node.referencesNum + 1)).addElemToDir linkDir linkFilename file

def link (s : VirtualDisc) (pathToDir filename pathToLinkDir linkFilename : CString) : Outcome := do
  let (out, dir) ← s.findDirInode pathToDir
  match dir with
  | none => .ok (out ++ [.cerr "Invalid path"], s)
  | some dir =>
    match ← s.findInDir dir filename with
    | none => .ok (out ++ [.cerr "Invalid filename"], s)
    | some file =>
      let (more, linkDir) ← s.findDirInode pathToLinkDir
      match linkDir with
      | none => .ok (out ++ more ++ [.cerr "Invalid path"], s)
      | some linkDir =>
        let (added, s) ← s.linkInto linkDir linkFilename file
        .ok (out ++ more ++ added, s)

/-- The inner loop of `remove_file` over the slots of block `idx`. -/
def removeSlots (remove : VirtualDisc → Nat → Except Fault VirtualDisc) (idx : Nat) :
    List Nat → VirtualDisc → Except Fault VirtualDisc
  | [], s => .ok s
  | i :: rest, s => do
    let elem := s.elemAt (idx, i)
    if elem.used ≠ 0 then
      -- the element itself is left as it is
      let s ← remove s elem.inodeId
      removeSlots remove idx rest s
    else removeSlots remove idx rest s

/-- The outer loop of `remove_file` over the blocks of a directory. -/
def removeBlocks (remove : VirtualDisc → Nat → Except Fault VirtualDisc) :
    Nat → Nat → VirtualDisc → Except Fault VirtualDisc
  | 0, _, _ => .error .diverges
  | fuel + 1, idx, s =>
    if idx = nil64 then .ok s
    else do
      let _ ← s.block idx
      let s ← removeSlots remove idx (List.range dirElemsPerBlock) s
      removeBlocks remove fuel (s.next idx) s

/-- The part of `remove_file` that is for directories only. -/
def removeEntries (remove : VirtualDisc → Nat → Except Fault VirtualDisc) (file : Inode) (s : VirtualDisc) :
    Except Fault VirtualDisc :=
  if file.type = .directory then removeBlocks remove (s.datablocksNum + 1) file.firstDataBlock s else .ok s

/-- `remove_file`; `fuel` bounds the depth of its recursion. -/
def removeFile : Nat → VirtualDisc → Nat → Except Fault VirtualDisc
  | 0, _, _ => .error .diverges
  | fuel + 1, s, file => do
    let node ← s.node file
    let left := node.referencesNum - 1
    let s := s.withReferences file left
    if left ≠ 0 then .ok s
    else
      let s ← removeEntries (removeFile fuel) node s
      let s ← s.deallocDatablocks (s.first file)
      .ok (s.withNode file ⟨0, nil64, .empty, 0⟩)

/-- `unlink` of the element of that name, which names inode `file`; the recursion
of `remove_file` may be as deep as there are inodes. -/
def unlinkFrom (s : VirtualDisc) (dir : Nat) (filename : CString) (file : Nat) : Except Fault VirtualDisc := do
  -- the element is searched for again, on the disc that the removal leaves
  let s ← removeFile (s.inodesNum + 1) s file
  match ← s.findElemInDir dir filename with
  | none => .error .nullPointer
  | some place =>
    let elem := { s.elemAt place with used := 0, inodeId := 2 ^ 16 - 1 }
    .ok (s.withData place.1 (writeElem (s.data place.1) place.2 elem))

def unlink (s : VirtualDisc) (pathToDir filename : CString) : Outcome := do
  let (out, dir) ← s.findDirInode pathToDir
  match dir with
  | none => .ok (out ++ [.cerr "Invalid path"], s)
  | some dir =>
    match ← s.findInDir dir filename with
    | none => .ok (out ++ [.cerr "Invalid filename"], s)
    | some file =>
      let s ← s.unlinkFrom dir filename file
      .ok (out, s)

/-! ## Sizes -/

/-- The `for` loop of `decrease_file_size`: `db_id` and `prev_db_id` after `n` links. -/
def skipBlocks (s : VirtualDisc) : Nat → Nat → Nat → Except Fault (Nat × Nat)
  | 0, dbId, prevDbId => .ok (dbId, prevDbId)
  | n + 1, dbId, _ => do
    let block ← s.block dbId
    s.skipBlocks n block.next dbId

/-- `decrease_file_size` of the regular file it has found, by no more than its size. -/
def decrease (s : VirtualDisc) (file sizeAmount : Nat) : Except Fault VirtualDisc := do
  let node ← s.node file
  let size := node.size - sizeAmount
  let s := s.withSize file size
  let newAmountOfBlocks := (size / blockSize % 2 ^ 32 + if size % blockSize > 0 then 1 else 0) % 2 ^ 32
  let (dbId, prevDbId) ← s.skipBlocks newAmountOfBlocks node.firstDataBlock nil64
  let s ← s.deallocDatablocks dbId
  if prevDbId = nil64 then .ok (s.withFirst file nil64) else s.setNext prevDbId nil64

def decreaseFileSize (s : VirtualDisc) (pathToDir filename : CString) (sizeAmount : UInt32) : Outcome := do
  let (out, dir) ← s.findDirInode pathToDir
  match dir with
  | none => .ok (out ++ [.cerr "Invalid path"], s)
  | some dir =>
    match ← s.findInDir dir filename with
    | none => .ok (out ++ [.cerr "Invalid filename"], s)
    | some file =>
      let node ← s.node file
      if node.type ≠ .file then .ok (out ++ [.cerr "Invalid filename"], s)
      else if sizeAmount.toNat > node.size then .ok (out ++ [.cerr "Too much size to decrease"], s)
      else
        let s ← s.decrease file sizeAmount.toNat
        .ok (out, s)

/-- The loop of `increase_file_size` that walks to the last block. -/
def lastBlock (s : VirtualDisc) : Nat → Nat → Except Fault Nat
  | 0, _ => .error .diverges
  | fuel + 1, lastDbId => do
    let block ← s.block lastDbId
    if block.next ≠ nil64 then s.lastBlock fuel block.next else .ok lastDbId

/-- The loop of `increase_file_size` that takes further blocks. -/
def growLoop (file : Nat) : Nat → VirtualDisc → Nat → Nat → Outcome
  | 0, _, _, _ => .error .diverges
  | fuel + 1, s, lastDbId, sizeAmount =>
    if sizeAmount = 0 then .ok ([], s)
    else do
      -- `lastDbId` has a successor from here on, whatever the search found
      let s ← s.setNext lastDbId s.findFreeDatablock
      let newDbId := s.next lastDbId
      if newDbId = nil64 then .ok ([.cerr "No free datablocks found"], s)
      else
        let s ← s.setMark newDbId true
        let sizeInNewBlock := if sizeAmount > blockSize then blockSize else sizeAmount
        let block ← s.block newDbId
        let s ← s.setData newDbId (store block.data 0 (List.replicate sizeInNewBlock 0))
        growLoop file fuel (s.addSize file sizeInNewBlock) newDbId (sizeAmount - sizeInNewBlock)

/-- `increase_file_size` of the regular file it has found. -/
def increase (s : VirtualDisc) (file sizeAmount : Nat) : Outcome := do
  let node ← s.node file
  let lastDbId ← s.lastBlock (s.datablocksNum + 1) node.firstDataBlock
  let lastDbSize := node.size % blockSize
  if lastDbSize > 0 then
    let amountToExtend := min (blockSize - lastDbSize) sizeAmount
    let block ← s.block lastDbId
    let s ← s.setData lastDbId (store block.data lastDbSize (List.replicate amountToExtend 0))
    growLoop file (sizeAmount + 1) (s.addSize file amountToExtend) lastDbId (sizeAmount - amountToExtend)
  else growLoop file (sizeAmount + 1) s lastDbId sizeAmount

def increaseFileSize (s : VirtualDisc) (pathToDir filename : CString) (sizeAmount : UInt32) : Outcome := do
  let (out, dir) ← s.findDirInode pathToDir
  match dir with
  | none => .ok (out ++ [.cerr "Invalid path"], s)
  | some dir =>
    match ← s.findInDir dir filename with
    | none => .ok (out ++ [.cerr "Invalid filename"], s)
    | some file =>
      let node ← s.node file
      if node.type ≠ .file then .ok (out ++ [.cerr "Invalid filename"], s)
      else
        let (grown, s) ← s.increase file sizeAmount.toNat
        .ok (out ++ grown, s)

end VirtualDisc
end SoiStud.FileSystem
