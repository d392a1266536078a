import SoiStud.FileSystem.Disc

/-! Finding directory elements, inodes and directories. -/

set_option autoImplicit false

namespace SoiStud.FileSystem

/-- The test of `find_elem_in_dir`: `used == true` and the names agree. -/
def DirectoryElement.is (e : DirectoryElement) (filename : CString) : Bool :=
  e.used = 1 && e.cname = filename.bytes

namespace VirtualDisc

/-- The loop of `find_elem_in_dir` from block `idx` on; an element is given by
its block and its index in it. -/
def findElemFrom (s : VirtualDisc) (filename : CString) : Nat → Nat → Except Fault (Option (Nat × Nat))
  | 0, _ => .error .diverges
  | fuel + 1, idx =>
    if idx = nil64 then .ok none
    else do
      let block ← s.block idx
      match (List.range dirElemsPerBlock).find? fun i => (readElem block.data i).is filename with
      | some i => .ok (some (idx, i))
      | none => s.findElemFrom filename fuel block.next

def findElemInDir (s : VirtualDisc) (dir : Nat) (filename : CString) : Except Fault (Option (Nat × Nat)) := do
  let node ← s.node dir
  if node.type ≠ .directory then .ok none
  else s.findElemFrom filename (s.datablocksNum + 1) node.firstDataBlock

def elemAt (s : VirtualDisc) (place : Nat × Nat) : DirectoryElement := readElem (s.data place.1) place.2

def findInDir (s : VirtualDisc) (dir : Nat) (filename : CString) : Except Fault (Option Nat) := do
  let elem ← s.findElemInDir dir filename
  .ok (elem.map fun place => (s.elemAt place).inodeId)

def warnInvalid (name : CString) : List Output :=
  if validateFilename name then [] else [.cout "Invalid path"]

/-- The loop of `find_dir_inode` over the components still to be followed. -/
def findDirInodeFrom (s : VirtualDisc) : List CString → Nat → Except Fault (List Output × Option Nat)
  | [], currPath => .ok ([], some currPath)
  | currDir :: rest, currPath => do
    match ← s.findInDir currPath currDir with
    | some next =>
      let node ← s.node next
      if node.type = .directory then
        -- a component that is too long is reported and followed all the same
        let (out, found) ← s.findDirInodeFrom rest next
        .ok (warnInvalid currDir ++ out, found)
      else .ok (warnInvalid currDir ++ [.cerr "Not a directory"], none)
    | none => .ok (warnInvalid currDir ++ [.cerr "Not a directory"], none)

def findDirInode (s : VirtualDisc) (path : CString) : Except Fault (List Output × Option Nat) :=
  s.findDirInodeFrom (components path) 0

end VirtualDisc
end SoiStud.FileSystem
