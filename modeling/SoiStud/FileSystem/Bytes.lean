import Mathlib.Algebra.Group.Nat.Defs
import Mathlib.Data.List.OfFn
import Mathlib.Data.List.TakeWhile

/-! Strings and directory elements as bytes.

A directory block is the byte array of a data block read as an array of
`directory_element`s: a 16-bit little-endian inode index, a byte `used`, sixteen
bytes of name and one byte of padding.
-/

set_option autoImplicit false

namespace SoiStud.FileSystem

def blockSize : Nat := 8192
def filenameLen : Nat := 16
def maxFilesProportion : Nat := 8

/-- `sizeof(directory_element)` -/
def elemSize : Nat := 20

def dirElemsPerBlock : Nat := blockSize / elemSize

/-- The bytes of a C string before its terminating zero. -/
structure CString where
  bytes : List UInt8
  nul : 0 ∉ bytes
  deriving DecidableEq

/-- The path of the root directory, as the program's help text has it. -/
def rootPath : CString := ⟨[], List.not_mem_nil⟩

def validateFilename (filename : CString) : Bool :=
  !(filename.bytes.length ≥ filenameLen || filename.bytes.contains 47)

/-- The components `strtok(path, "/")` yields: the non-empty runs without a
slash. No run of a path contains a zero. -/
def components (path : CString) : List CString :=
  (path.bytes.splitOn 47).filterMap fun piece =>
    if token : piece ≠ [] ∧ 0 ∉ piece then some ⟨piece, token.2⟩ else none

structure DirectoryElement where
  inodeId : Nat
  used : UInt8
  name : Fin filenameLen → UInt8
  pad : UInt8

namespace DirectoryElement

/-- The bytes `strcmp` compares: up to a zero, or up to the end of the element,
whose padding byte is zero in every element the program writes. -/
def cname (e : DirectoryElement) : List UInt8 := (List.ofFn e.name ++ [e.pad]).takeWhile (· ≠ 0)

def byte (e : DirectoryElement) (k : Nat) : UInt8 :=
  if k = 0 then UInt8.ofNat e.inodeId
  else if k = 1 then UInt8.ofNat (e.inodeId / 256)
  else if k = 2 then e.used
  else if inName : k - 3 < filenameLen then e.name ⟨k - 3, inName⟩
  else e.pad

end DirectoryElement

def readElem (data : Nat → UInt8) (i : Nat) : DirectoryElement where
  inodeId := (data (elemSize * i)).toNat + 256 * (data (elemSize * i + 1)).toNat
  used := data (elemSize * i + 2)
  name j := data (elemSize * i + 3 + j)
  pad := data (elemSize * i + 19)

def writeElem (data : Nat → UInt8) (i : Nat) (e : DirectoryElement) : Nat → UInt8 :=
  fun k => if k / elemSize = i then e.byte (k % elemSize) else data k

/-- `directory_element dir_elem{0}` with `inode_id`, `used` and, by `strncpy`, `name` set. -/
def newElem (name : CString) (nodeId : Nat) : DirectoryElement where
  inodeId := nodeId % 2 ^ 16
  used := 1
  name j := name.bytes.getD j 0
  pad := 0

theorem readElem_inodeId_lt (data : Nat → UInt8) (i : Nat) : (readElem data i).inodeId < 2 ^ 16 := by
  have low := (data (elemSize * i)).toNat_lt
  have high := (data (elemSize * i + 1)).toNat_lt
  simp only [readElem]
  omega

theorem readElem_writeElem_of_ne (data : Nat → UInt8) {i j : Nat} (e : DirectoryElement)
    (distinct : j ≠ i) : readElem (writeElem data i e) j = readElem data j := by
  have elsewhere (k : Nat) (small : k < elemSize) : writeElem data i e (elemSize * j + k) =
      data (elemSize * j + k) := by
    have slot : (elemSize * j + k) / elemSize = j := by simp only [elemSize] at small ⊢; omega
    simp [writeElem, slot, distinct]
  simp only [readElem, DirectoryElement.mk.injEq]
  refine ⟨?_, elsewhere 2 (by decide), ?_, elsewhere 19 (by decide)⟩
  · have first := elsewhere 0 (by decide)
    rw [Nat.add_zero] at first
    rw [first, elsewhere 1 (by decide)]
  · funext k
    have small := k.isLt
    rw [Nat.add_assoc]
    exact elsewhere (3 + k) (by simp only [filenameLen] at small; simp only [elemSize]; omega)

theorem readElem_writeElem_self (data : Nat → UInt8) (i : Nat) (e : DirectoryElement)
    (small : e.inodeId < 2 ^ 16) : readElem (writeElem data i e) i = e := by
  have here (k : Nat) (within : k < elemSize) :
      writeElem data i e (elemSize * i + k) = e.byte k := by
    have slot : (elemSize * i + k) / elemSize = i := by simp only [elemSize] at within ⊢; omega
    have offset : (elemSize * i + k) % elemSize = k := by simp only [elemSize] at within ⊢; omega
    simp [writeElem, slot, offset]
  cases e with
  | mk inodeId used name pad =>
    simp only [readElem, DirectoryElement.mk.injEq]
    refine ⟨?_, ?_, ?_, ?_⟩
    · have first := here 0 (by decide)
      rw [Nat.add_zero] at first
      rw [first, here 1 (by decide)]
      simp only [DirectoryElement.byte, if_true, Nat.one_ne_zero, if_false, UInt8.toNat_ofNat']
      simp only at small
      omega
    · rw [here 2 (by decide)]
      rfl
    · funext k
      have bound := k.isLt
      rw [Nat.add_assoc, here (3 + k) (by simp only [filenameLen] at bound; simp only [elemSize]; omega)]
      have inName : 3 + (k : Nat) - 3 < filenameLen := by omega
      have index : (⟨3 + (k : Nat) - 3, inName⟩ : Fin filenameLen) = k := Fin.ext (by simp)
      simp only [DirectoryElement.byte, inName, dif_pos, index]
      rw [if_neg (by omega), if_neg (by omega), if_neg (by omega)]
    · rw [here 19 (by decide)]
      rfl

end SoiStud.FileSystem
