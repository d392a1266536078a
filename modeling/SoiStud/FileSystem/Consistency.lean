import SoiStud.FileSystem.Operations
import Mathlib.Algebra.BigOperators.Group.Finset.Basic
import Mathlib.Algebra.Order.BigOperators.Group.Finset

/-! When the tables of a disc fit together.

The chains of the inodes are a pool of blocks, their lengths agree with the file
sizes, and the reference counts agree with the directory elements.
-/

set_option autoImplicit false

namespace SoiStud.FileSystem

open Library

def blocksFor (size : Nat) : Nat := (size + (blockSize - 1)) / blockSize

/-- The blocks that `copy_file_to_disc` reads into: at a block boundary one more, in which it finds the end. -/
def blocksRead (size : Nat) : Nat := size / blockSize + 1

def blockElems (data : Nat → UInt8) : List DirectoryElement :=
  ((List.range dirElemsPerBlock).map (readElem data)).filter fun e => e.used ≠ 0

def otherElems (data : Nat → UInt8) (i : Nat) : List DirectoryElement :=
  (((List.range dirElemsPerBlock).erase i).map (readElem data)).filter fun e => e.used ≠ 0

namespace VirtualDisc

/-- The chains `chain i` of the inodes: in range, ending, pairwise disjoint and
marked in `data_map`; a block on no chain has no successor. That a chain never
repeats a block is `Library.Chain.nodup`. -/
def PoolOf (s : VirtualDisc) (chain : Nat → List Nat) : Prop :=
  Pool s.inodesNum s.datablocksNum nil64 s.first s.next s.dataMap chain

/-- The blocks of an inode as the walk along `next` finds them. -/
def chainOf (s : VirtualDisc) (i : Nat) : List Nat :=
  match s.blockIds (s.datablocksNum + 1) (s.first i) with
  | .ok ids => ids
  | .error _ => []

def usedElems (s : VirtualDisc) (blocks : List Nat) : List DirectoryElement :=
  blocks.flatMap fun b => blockElems (s.data b)

def entries (s : VirtualDisc) (chain : Nat → List Nat) (d : Nat) : List DirectoryElement :=
  if (s.nodeTab d).type = .directory then s.usedElems (chain d) else []

def naming (s : VirtualDisc) (chain : Nat → List Nat) (i : Nat) : Nat :=
  ∑ d ∈ Finset.range s.inodesNum, (s.entries chain d).countP fun e => e.inodeId = i

def Nameable (s : VirtualDisc) (i : Nat) : Prop :=
  i < s.inodesNum ∧ (s.nodeTab i).type ≠ .empty ∧ i ≠ 0

structure BlockConsistent (s : VirtualDisc) (chain : Nat → List Nat) : Prop where
  pool : s.PoolOf chain
  empty : ∀ i < s.inodesNum, (s.nodeTab i).type = .empty → s.first i = nil64
  sized : ∀ i < s.inodesNum, (s.nodeTab i).type = .file →
    (chain i).length = blocksFor (s.nodeTab i).size

structure DirectoryConsistent (s : VirtualDisc) (chain : Nat → List Nat) : Prop where
  inodes : 0 < s.inodesNum
  root : (s.nodeTab 0).type = .directory
  named : ∀ d < s.inodesNum, ∀ e ∈ s.entries chain d, s.Nameable e.inodeId
  counted : ∀ i < s.inodesNum, i ≠ 0 → (s.nodeTab i).type ≠ .empty →
    (s.nodeTab i).referencesNum.toNat = s.naming chain i

def Consistent (s : VirtualDisc) : Prop :=
  ∃ chain, s.BlockConsistent chain ∧ s.DirectoryConsistent chain

variable {s s' : VirtualDisc} {chain chain' : Nat → List Nat} {i : Nat}

/-! ## Chains -/

theorem blockIds_eq {fuel idx : Nat} {l : List Nat} (linked : Chain s.next nil64 idx l)
    (bounded : ∀ b ∈ l, b < s.datablocksNum) (enough : l.length < fuel) : s.blockIds fuel idx = .ok l := by
  induction l generalizing fuel idx with
  | nil =>
    obtain ⟨fuel, rfl⟩ := Nat.exists_eq_add_of_lt enough
    simp [blockIds, linked.eq_nil]
  | cons b rest ih =>
    cases fuel with
    | zero => simp at enough
    | succ fuel =>
      obtain rfl := linked.head_eq
      have tail : s.blockIds fuel (s.datablockTab idx).next = .ok rest :=
        ih linked.tail (fun c member => bounded c (List.mem_cons_of_mem _ member))
          (Nat.lt_of_succ_lt_succ enough)
      simp [blockIds, linked.ne_nil, block_eq_ok (bounded idx List.mem_cons_self), tail]

theorem chainOf_eq_of_linked {l : List Nat} (linked : Chain s.next nil64 (s.first i) l)
    (bounded : ∀ b ∈ l, b < s.datablocksNum) : s.chainOf i = l := by
  rw [chainOf, blockIds_eq linked bounded (Nat.lt_succ_of_le (linked.length_le bounded))]

theorem PoolOf.chainOf_eq (pool : s.PoolOf chain) (inRange : i < s.inodesNum) : s.chainOf i = chain i :=
  chainOf_eq_of_linked (pool.linked i inRange) (pool.bounded i inRange)

theorem PoolOf.congr (pool : s.PoolOf chain) (same : ∀ i < s.inodesNum, chain' i = chain i) :
    s.PoolOf chain' where
  linked i owner := same i owner ▸ pool.linked i owner
  bounded i owner := same i owner ▸ pool.bounded i owner
  disjoint i owner j other := by
    rw [same i owner, same j other]
    exact pool.disjoint i owner j other
  marked_iff b bounded := by
    rw [pool.marked_iff b bounded]
    constructor
    · rintro ⟨i, owner, member⟩
      exact ⟨i, owner, same i owner ▸ member⟩
    · rintro ⟨i, owner, member⟩
      exact ⟨i, owner, same i owner ▸ member⟩
  loose := pool.loose

theorem PoolOf.frame (pool : s.PoolOf chain) (size : s'.superblock = s.superblock)
    (firsts : s'.first = s.first) (links : s'.next = s.next) (marks : s'.dataMap = s.dataMap) :
    s'.PoolOf chain := by
  unfold PoolOf inodesNum datablocksNum at pool ⊢
  rw [size, firsts, links, marks]
  exact pool

theorem PoolOf.free_not_mem (pool : s.PoolOf chain) {b : Nat} (free : b ∈ s.freeBlocks)
    (inRange : i < s.inodesNum) : b ∉ chain i :=
  pool.not_mem_of_unmarked inRange (mem_unmarked.mp free).2

theorem usedElems_congr {blocks : List Nat} (same : ∀ b ∈ blocks, s'.data b = s.data b) :
    s'.usedElems blocks = s.usedElems blocks := by
  unfold usedElems
  apply List.flatMap_congr
  intro b member
  rw [same b member]

theorem usedElems_append (s : VirtualDisc) (l m : List Nat) :
    s.usedElems (l ++ m) = s.usedElems l ++ s.usedElems m := List.flatMap_append

theorem usedElems_singleton (s : VirtualDisc) (b : Nat) : s.usedElems [b] = blockElems (s.data b) := by
  simp [usedElems]

structure Kept (s : VirtualDisc) (chain : Nat → List Nat) (s' : VirtualDisc) (chain' : Nat → List Nat)
    (i : Nat) : Prop where
  type : (s'.nodeTab i).type = (s.nodeTab i).type
  size : (s'.nodeTab i).size = (s.nodeTab i).size
  blocks : chain' i = chain i
  data : ∀ b ∈ chain i, s'.data b = s.data b

theorem Kept.refl (s : VirtualDisc) (chain : Nat → List Nat) (i : Nat) : Kept s chain s chain i :=
  ⟨rfl, rfl, rfl, fun _ _ => rfl⟩

theorem Kept.trans {s'' : VirtualDisc} {chain'' : Nat → List Nat} (first : Kept s chain s' chain' i)
    (second : Kept s' chain' s'' chain'' i) : Kept s chain s'' chain'' i where
  type := second.type.trans first.type
  size := second.size.trans first.size
  blocks := second.blocks.trans first.blocks
  data b member := (second.data b (first.blocks ▸ member)).trans (first.data b member)

/-! ## Entries -/

theorem entries_of_directory (directory : (s.nodeTab i).type = .directory) :
    s.entries chain i = s.usedElems (chain i) := if_pos directory

theorem entries_of_ne (other : (s.nodeTab i).type ≠ .directory) : s.entries chain i = [] := if_neg other

theorem entries_of_chain_nil (none_ : chain i = []) : s.entries chain i = [] := by
  simp [entries, none_, usedElems]

theorem PoolOf.entries_chainOf (pool : s.PoolOf chain) {d : Nat} (bounded : d < s.inodesNum) :
    s.entries s.chainOf d = s.entries chain d := by
  unfold VirtualDisc.entries
  rw [pool.chainOf_eq bounded]

theorem Kept.entries (kept : Kept s chain s' chain' i) : s'.entries chain' i = s.entries chain i := by
  unfold VirtualDisc.entries
  rw [kept.type, kept.blocks, usedElems_congr kept.data]

theorem naming_gain {d : Nat} {extra : List DirectoryElement} (size : s'.inodesNum = s.inodesNum)
    (inRange : d < s.inodesNum) (gained : (s'.entries chain' d).Perm (s.entries chain d ++ extra))
    (others : ∀ k < s.inodesNum, k ≠ d → s'.entries chain' k = s.entries chain k) (i : Nat) :
    s'.naming chain' i = s.naming chain i + extra.countP fun e => e.inodeId = i := by
  have listed : d ∈ Finset.range s.inodesNum := Finset.mem_range.mpr inRange
  have rest : ∑ k ∈ (Finset.range s.inodesNum).erase d, (s'.entries chain' k).countP (fun e => e.inodeId = i) =
      ∑ k ∈ (Finset.range s.inodesNum).erase d, (s.entries chain k).countP (fun e => e.inodeId = i) := by
    apply Finset.sum_congr rfl
    intro k member
    rw [Finset.mem_erase, Finset.mem_range] at member
    rw [others k member.2 member.1]
  unfold naming
  rw [size, ← Finset.add_sum_erase _ _ listed, ← Finset.add_sum_erase _ _ listed, rest,
    gained.countP_eq, List.countP_append]
  omega

theorem naming_eq_zero (absent : ∀ d < s.inodesNum, ∀ e ∈ s.entries chain d, e.inodeId ≠ i) :
    s.naming chain i = 0 := by
  unfold naming
  apply Finset.sum_eq_zero
  intro d member
  rw [List.countP_eq_zero]
  intro e listed
  simpa using absent d (Finset.mem_range.mp member) e listed

end VirtualDisc

/-! ## The elements of one block -/

theorem blockElems_split (data : Nat → UInt8) {i : Nat} (slot : i < dirElemsPerBlock) :
    (blockElems data).Perm ((if (readElem data i).used ≠ 0 then [readElem data i] else []) ++
      otherElems data i) := by
  have front := List.perm_cons_erase (List.mem_range.mpr slot)
  have mapped := ((front.map (readElem data)).filter fun e => e.used ≠ 0)
  refine mapped.trans ?_
  rw [List.map_cons, List.filter_cons, otherElems]
  split <;> simp_all

theorem otherElems_write (data : Nat → UInt8) (i : Nat) (e : DirectoryElement) :
    otherElems (writeElem data i e) i = otherElems data i := by
  unfold otherElems
  congr 1
  apply List.map_congr_left
  intro j member
  exact readElem_writeElem_of_ne data e fun same => by
    rw [same, List.nodup_range.mem_erase_iff] at member
    exact member.1 rfl

theorem blockElems_write (data : Nat → UInt8) {i : Nat} {e : DirectoryElement}
    (slot : i < dirElemsPerBlock) (small : e.inodeId < 2 ^ 16) (used : e.used ≠ 0) :
    (blockElems (writeElem data i e)).Perm (e :: otherElems data i) := by
  have split_ := blockElems_split (writeElem data i e) slot
  rw [readElem_writeElem_self data i e small, otherElems_write, if_pos used] at split_
  exact split_

theorem blockElems_write_unused (data : Nat → UInt8) {i : Nat} {e : DirectoryElement}
    (slot : i < dirElemsPerBlock) (small : e.inodeId < 2 ^ 16) (used : e.used ≠ 0)
    (unused : (readElem data i).used = 0) : (blockElems (writeElem data i e)).Perm (e :: blockElems data) := by
  have before := blockElems_split data slot
  rw [if_neg (by simp [unused]), List.nil_append] at before
  exact (blockElems_write data slot small used).trans (before.symm.cons e)

theorem blockElems_clear (data : Nat → UInt8) {i : Nat} {e : DirectoryElement}
    (slot : i < dirElemsPerBlock) (small : e.inodeId < 2 ^ 16) (unused : e.used = 0)
    (used : (readElem data i).used ≠ 0) :
    (blockElems data).Perm (readElem data i :: blockElems (writeElem data i e)) := by
  have before := blockElems_split data slot
  rw [if_pos used] at before
  have after := blockElems_split (writeElem data i e) slot
  rw [readElem_writeElem_self data i e small, otherElems_write, if_neg (by simp [unused]),
    List.nil_append] at after
  exact before.trans (after.symm.cons _)

theorem freeSlot_eq_some {data : Nat → UInt8} {i : Nat} (found : freeSlot data = some i) :
    i < dirElemsPerBlock ∧ (readElem data i).used = 0 := by
  have listed := List.mem_of_find?_eq_some found
  have unused := List.find?_some found
  exact ⟨List.mem_range.mp listed, by simpa using unused⟩

theorem freeSlot_of_blockElems_eq_nil {data : Nat → UInt8} (none_ : blockElems data = []) :
    (freeSlot data).isSome = true := by
  rw [freeSlot, List.find?_isSome]
  refine ⟨0, by decide, ?_⟩
  by_contra used
  have listed : readElem data 0 ∈ blockElems data := by
    rw [blockElems, List.mem_filter]
    refine ⟨List.mem_map_of_mem (List.mem_range.mpr (by decide)), ?_⟩
    simpa using used
  rw [none_] at listed
  cases listed

theorem blockElems_small {data : Nat → UInt8} {e : DirectoryElement} (member : e ∈ blockElems data) :
    e.inodeId < 2 ^ 16 := by
  obtain ⟨i, _, rfl⟩ := List.mem_map.mp (List.mem_of_mem_filter member)
  exact readElem_inodeId_lt data i

theorem VirtualDisc.entries_small {s : VirtualDisc} {chain : Nat → List Nat} {d : Nat} {e : DirectoryElement}
    (listed : e ∈ s.entries chain d) : e.inodeId < 2 ^ 16 := by
  unfold VirtualDisc.entries at listed
  split at listed
  next =>
    obtain ⟨b, _, onBlock⟩ := List.mem_flatMap.mp listed
    exact blockElems_small onBlock
  next => cases listed

end SoiStud.FileSystem
