import SoiStud.FileSystem.Bytes
import SoiStud.Library.BlockPool

/-! The disc in memory (`class VirtualDisc`), and the accesses its operations
are made of.

The tables are functions of the index; an access outside a table is a fault, as
is a loop that cannot end. Indices and the sentinel `(uint64_t)-1` are numbers.
-/

set_option autoImplicit false

namespace SoiStud.FileSystem

/-- `(uint64_t)-1`, the end of a chain. -/
def nil64 : Nat := 2 ^ 64 - 1

/-- `(uint32_t)-1`, what the searches for something free return when there is nothing. -/
def none32 : Nat := 2 ^ 32 - 1

inductive InodeType where
  | empty
  | file
  | directory
  deriving DecidableEq, Repr

structure Inode where
  size : Nat
  firstDataBlock : Nat
  type : InodeType
  referencesNum : UInt8
  deriving DecidableEq, Repr

structure Datablock where
  next : Nat
  data : Nat → UInt8

@[ext] structure Superblock where
  discSize : Nat
  nodesOffset : Nat
  dataMapOffset : Nat
  datablocksOffset : Nat
  datablocksNum : Nat
  freeDatablocksNum : Nat
  inodesNum : Nat
  freeInodesNum : Nat
  name : List UInt8
  datablocksNum_lt : datablocksNum < 2 ^ 32
  inodesNum_lt : inodesNum < 2 ^ 32

structure VirtualDisc where
  superblock : Superblock
  nodeTab : Nat → Inode
  dataMap : Nat → Bool
  datablockTab : Nat → Datablock

/-- How an operation can end other than by returning. -/
inductive Fault where
  | outOfBounds (index : Nat)
  | nullPointer
  | exit (message : String)
  | diverges
  deriving DecidableEq, Repr

inductive Output where
  | cout (text : String)
  | cerr (text : String)
  deriving DecidableEq, Repr

abbrev Outcome := Except Fault (List Output × VirtualDisc)

@[simp] theorem ok_bind {α β : Type} (a : α) (f : α → Except Fault β) : (Except.ok a >>= f) = f a := rfl

@[simp] theorem error_bind {α β : Type} (e : Fault) (f : α → Except Fault β) :
    ((Except.error e : Except Fault α) >>= f) = .error e := rfl

@[simp] theorem pure_eq_ok {α : Type} (a : α) : (pure a : Except Fault α) = .ok a := rfl

theorem bind_eq_ok {α β : Type} {x : Except Fault α} {f : α → Except Fault β} {b : β} :
    (x >>= f) = .ok b ↔ ∃ a, x = .ok a ∧ f a = .ok b := by
  cases x <;> simp

/-- An operation that prints nothing. -/
theorem silent_eq_ok {α : Type} {x : Except Fault α} {out : List Output} {a : α} :
    (x.map fun result => (([] : List Output), result)) = .ok (out, a) ↔ out = [] ∧ x = .ok a := by
  cases x <;> simp [Except.map, eq_comm]

theorem checked_eq_ok {α : Type} {p : Prop} [Decidable p] {a b : α} {fault : Fault} :
    (if p then Except.ok a else .error fault) = .ok b ↔ p ∧ a = b := by
  by_cases inside : p <;> simp [inside]

namespace VirtualDisc

abbrev inodesNum (s : VirtualDisc) : Nat := s.superblock.inodesNum
abbrev datablocksNum (s : VirtualDisc) : Nat := s.superblock.datablocksNum

theorem inodesNum_eq {s s' : VirtualDisc} (same : s'.superblock = s.superblock) : s'.inodesNum = s.inodesNum :=
  congrArg Superblock.inodesNum same

def first (s : VirtualDisc) (i : Nat) : Nat := (s.nodeTab i).firstDataBlock
def next (s : VirtualDisc) (b : Nat) : Nat := (s.datablockTab b).next
def data (s : VirtualDisc) (b : Nat) : Nat → UInt8 := (s.datablockTab b).data

def node (s : VirtualDisc) (i : Nat) : Except Fault Inode :=
  if i < s.inodesNum then .ok (s.nodeTab i) else .error (.outOfBounds i)

def block (s : VirtualDisc) (b : Nat) : Except Fault Datablock :=
  if b < s.datablocksNum then .ok (s.datablockTab b) else .error (.outOfBounds b)

def withNode (s : VirtualDisc) (i : Nat) (n : Inode) : VirtualDisc :=
  { s with nodeTab := Function.update s.nodeTab i n }

def withFirst (s : VirtualDisc) (i b : Nat) : VirtualDisc :=
  s.withNode i { s.nodeTab i with firstDataBlock := b }

def withSize (s : VirtualDisc) (i n : Nat) : VirtualDisc := s.withNode i { s.nodeTab i with size := n }

def withReferences (s : VirtualDisc) (i : Nat) (n : UInt8) : VirtualDisc :=
  s.withNode i { s.nodeTab i with referencesNum := n }

def withNext (s : VirtualDisc) (b c : Nat) : VirtualDisc :=
  { s with datablockTab := Function.update s.datablockTab b { s.datablockTab b with next := c } }

def withData (s : VirtualDisc) (b : Nat) (data : Nat → UInt8) : VirtualDisc :=
  { s with datablockTab := Function.update s.datablockTab b { s.datablockTab b with data := data } }

def withMark (s : VirtualDisc) (b : Nat) (v : Bool) : VirtualDisc :=
  { s with dataMap := Function.update s.dataMap b v }

def setNext (s : VirtualDisc) (b c : Nat) : Except Fault VirtualDisc :=
  if b < s.datablocksNum then .ok (s.withNext b c) else .error (.outOfBounds b)

def setData (s : VirtualDisc) (b : Nat) (data : Nat → UInt8) : Except Fault VirtualDisc :=
  if b < s.datablocksNum then .ok (s.withData b data) else .error (.outOfBounds b)

def setMark (s : VirtualDisc) (b : Nat) (v : Bool) : Except Fault VirtualDisc :=
  if b < s.datablocksNum then .ok (s.withMark b v) else .error (.outOfBounds b)

def findFreeNode (s : VirtualDisc) : Nat :=
  ((List.range s.inodesNum).find? fun i => (s.nodeTab i).type = .empty).getD none32

def findFreeDatablock (s : VirtualDisc) : Nat :=
  ((List.range s.datablocksNum).find? fun b => s.dataMap b = false).getD none32

section
variable (s : VirtualDisc) (i b c : Nat) (n : Inode) (r : UInt8) (d : Nat → UInt8) (v : Bool)

@[simp] theorem withNode_superblock : (s.withNode i n).superblock = s.superblock := rfl
@[simp] theorem withNode_nodeTab : (s.withNode i n).nodeTab = Function.update s.nodeTab i n := rfl
@[simp] theorem withNode_dataMap : (s.withNode i n).dataMap = s.dataMap := rfl
@[simp] theorem withNode_datablockTab : (s.withNode i n).datablockTab = s.datablockTab := rfl
@[simp] theorem withNode_next : (s.withNode i n).next = s.next := rfl
@[simp] theorem withNode_data : (s.withNode i n).data = s.data := rfl
@[simp] theorem withNode_first :
    (s.withNode i n).first = Function.update s.first i n.firstDataBlock := by
  funext j
  by_cases same : j = i <;> simp [first, same]

@[simp] theorem withFirst_superblock : (s.withFirst i b).superblock = s.superblock := rfl
@[simp] theorem withFirst_nodeTab : (s.withFirst i b).nodeTab =
    Function.update s.nodeTab i { s.nodeTab i with firstDataBlock := b } := rfl
@[simp] theorem withFirst_dataMap : (s.withFirst i b).dataMap = s.dataMap := rfl
@[simp] theorem withFirst_datablockTab : (s.withFirst i b).datablockTab = s.datablockTab := rfl
@[simp] theorem withFirst_next : (s.withFirst i b).next = s.next := rfl
@[simp] theorem withFirst_data : (s.withFirst i b).data = s.data := rfl
@[simp] theorem withFirst_first : (s.withFirst i b).first = Function.update s.first i b := by
  simp [withFirst]

@[simp] theorem withSize_superblock : (s.withSize i b).superblock = s.superblock := rfl
@[simp] theorem withSize_nodeTab : (s.withSize i b).nodeTab =
    Function.update s.nodeTab i { s.nodeTab i with size := b } := rfl
@[simp] theorem withSize_dataMap : (s.withSize i b).dataMap = s.dataMap := rfl
@[simp] theorem withSize_datablockTab : (s.withSize i b).datablockTab = s.datablockTab := rfl
@[simp] theorem withSize_next : (s.withSize i b).next = s.next := rfl
@[simp] theorem withSize_data : (s.withSize i b).data = s.data := rfl
@[simp] theorem withSize_first : (s.withSize i b).first = s.first := by simp [withSize, first]

@[simp] theorem withReferences_superblock : (s.withReferences i r).superblock = s.superblock := rfl
@[simp] theorem withReferences_nodeTab : (s.withReferences i r).nodeTab =
    Function.update s.nodeTab i { s.nodeTab i with referencesNum := r } := rfl
@[simp] theorem withReferences_dataMap : (s.withReferences i r).dataMap = s.dataMap := rfl
@[simp] theorem withReferences_datablockTab : (s.withReferences i r).datablockTab = s.datablockTab := rfl
@[simp] theorem withReferences_next : (s.withReferences i r).next = s.next := rfl
@[simp] theorem withReferences_data : (s.withReferences i r).data = s.data := rfl
@[simp] theorem withReferences_first : (s.withReferences i r).first = s.first := by simp [withReferences, first]

@[simp] theorem withNext_superblock : (s.withNext b c).superblock = s.superblock := rfl
@[simp] theorem withNext_nodeTab : (s.withNext b c).nodeTab = s.nodeTab := rfl
@[simp] theorem withNext_dataMap : (s.withNext b c).dataMap = s.dataMap := rfl
@[simp] theorem withNext_first : (s.withNext b c).first = s.first := rfl
@[simp] theorem withNext_next : (s.withNext b c).next = Function.update s.next b c := by
  funext x
  by_cases same : x = b <;> simp [next, withNext, same]
@[simp] theorem withNext_data : (s.withNext b c).data = s.data := by
  funext x
  by_cases same : x = b <;> simp [data, withNext, same]

@[simp] theorem withData_superblock : (s.withData b d).superblock = s.superblock := rfl
@[simp] theorem withData_nodeTab : (s.withData b d).nodeTab = s.nodeTab := rfl
@[simp] theorem withData_dataMap : (s.withData b d).dataMap = s.dataMap := rfl
@[simp] theorem withData_first : (s.withData b d).first = s.first := rfl
@[simp] theorem withData_next : (s.withData b d).next = s.next := by
  funext x
  by_cases same : x = b <;> simp [next, withData, same]
@[simp] theorem withData_data : (s.withData b d).data = Function.update s.data b d := by
  funext x
  by_cases same : x = b <;> simp [data, withData, same]

@[simp] theorem withMark_superblock : (s.withMark b v).superblock = s.superblock := rfl
@[simp] theorem withMark_nodeTab : (s.withMark b v).nodeTab = s.nodeTab := rfl
@[simp] theorem withMark_dataMap : (s.withMark b v).dataMap = Function.update s.dataMap b v := rfl
@[simp] theorem withMark_datablockTab : (s.withMark b v).datablockTab = s.datablockTab := rfl
@[simp] theorem withMark_first : (s.withMark b v).first = s.first := rfl
@[simp] theorem withMark_next : (s.withMark b v).next = s.next := rfl
@[simp] theorem withMark_data : (s.withMark b v).data = s.data := rfl

variable {s b} {t : VirtualDisc}

theorem node_eq_ok (inRange : i < s.inodesNum) : s.node i = .ok (s.nodeTab i) := if_pos inRange
theorem block_eq_ok (inRange : b < s.datablocksNum) : s.block b = .ok (s.datablockTab b) := if_pos inRange
theorem setNext_eq_ok (inRange : b < s.datablocksNum) : s.setNext b c = .ok (s.withNext b c) := if_pos inRange
theorem setData_eq_ok (inRange : b < s.datablocksNum) : s.setData b d = .ok (s.withData b d) := if_pos inRange
theorem setMark_eq_ok (inRange : b < s.datablocksNum) : s.setMark b v = .ok (s.withMark b v) := if_pos inRange

variable {i c n d v}

theorem node_ok_iff : s.node i = .ok n ↔ i < s.inodesNum ∧ s.nodeTab i = n := checked_eq_ok
theorem setNext_ok_iff : s.setNext b c = .ok t ↔ b < s.datablocksNum ∧ s.withNext b c = t := checked_eq_ok
theorem setData_ok_iff : s.setData b d = .ok t ↔ b < s.datablocksNum ∧ s.withData b d = t := checked_eq_ok
theorem setMark_ok_iff : s.setMark b v = .ok t ↔ b < s.datablocksNum ∧ s.withMark b v = t := checked_eq_ok

end

def freeBlocks (s : VirtualDisc) : List Nat := Library.unmarked s.datablocksNum s.dataMap

def freeNodes (s : VirtualDisc) : List Nat :=
  (List.range s.inodesNum).filter fun i => (s.nodeTab i).type = .empty

theorem findFreeDatablock_eq (s : VirtualDisc) : s.findFreeDatablock = s.freeBlocks.head?.getD none32 := by
  rw [findFreeDatablock, freeBlocks, Library.unmarked, List.head?_filter]
  congr 2
  funext b
  cases s.dataMap b <;> rfl

theorem findFreeNode_eq (s : VirtualDisc) : s.findFreeNode = s.freeNodes.head?.getD none32 := by
  rw [findFreeNode, freeNodes, List.head?_filter]

end VirtualDisc
end SoiStud.FileSystem
