import SoiStud.FileSystem.Additions
import Mathlib.Data.List.Intervals

/-! The index of an inode in an entry.

An inode is found by a 32-bit index, and an entry has sixteen bits for it. Whether
that is enough depends on how many inodes are in use: a directory full of files
is built here for any number of them.
-/

set_option autoImplicit false

namespace SoiStud.FileSystem
namespace VirtualDisc

open Library

variable {s s' : VirtualDisc} {chain : Nat → List Nat} {out : List Output} {added : Addition} {superblock : Superblock}
  {n b i : Nat} {name : CString}

/-- An entry names its inode where the index fits its field; a search that comes
to the entry yields the index as far as it fits. -/
theorem additions_followed_iff (pool : s.PoolOf chain) {command : Command} (executed : s.exec command = .ok (out, s'))
    (listed : added ∈ s.additions command) :
    ((∀ p ∈ added.slots, (s'.elemAt p).inodeId = added.inode) ↔ added.inode < 2 ^ 16) ∧
      ∀ p ∈ added.slots, s'.findElemInDir added.dir added.name = .ok (some p) →
        s'.findInDir added.dir added.name = .ok (some (added.inode % 2 ^ 16)) := by
  obtain ⟨some_, written⟩ := additions_written pool executed listed
  have names : ∀ p ∈ added.slots, (s'.elemAt p).inodeId = added.inode % 2 ^ 16 := by
    intro p here
    rw [written p here]
    rfl
  refine ⟨⟨fun same => ?_, fun small p here => by rw [names p here, Nat.mod_eq_of_lt small]⟩, fun p here found => ?_⟩
  · obtain ⟨p, here⟩ := List.exists_mem_of_ne_nil _ some_
    have cut := names p here
    rw [same p here] at cut
    rw [cut]
    exact Nat.mod_lt _ (by decide)
  · rw [findInDir_of_findElemInDir found, names p here]

theorem additions_followed_iff_copy :
    ((∀ p ∈ [(0, 0)], (copiedDisc.elemAt p).inodeId = 1) ↔ 1 < 2 ^ 16) ∧
      ∀ p ∈ [(0, 0)], copiedDisc.findElemInDir 0 fileName = .ok (some p) →
        copiedDisc.findInDir 0 fileName = .ok (some (1 % 2 ^ 16)) :=
  additions_followed_iff blank_pool copiedDisc_executed copiedDisc_addition

/-! ## A root directory full of files -/

def letter (digit : Nat) : UInt8 := UInt8.ofNat (97 + digit % 16)

theorem letter_ne_zero (digit : Nat) : letter digit ≠ 0 := by
  have bound := Nat.mod_lt digit (show 0 < 16 by decide)
  intro zero
  have value := congrArg UInt8.toNat zero
  simp only [letter, UInt8.toNat_ofNat'] at value
  simp at value
  omega

def nameOf (i : Nat) : CString where
  bytes := [letter (i / 4096), letter (i / 256), letter (i / 16), letter i]
  nul := by simp [(letter_ne_zero _).symm]

def crowdedData (n b : Nat) : Nat → UInt8 := fun k =>
  if dirElemsPerBlock * b + k / elemSize + 1 ≤ n then
    (newElem (nameOf (dirElemsPerBlock * b + k / elemSize + 1)) (dirElemsPerBlock * b + k / elemSize + 1)).byte (k % elemSize)
  else 0

def crowdedBlocks (n : Nat) : Nat := (n + (dirElemsPerBlock - 1)) / dirElemsPerBlock

def crowded (superblock : Superblock) (n : Nat) : VirtualDisc where
  superblock := superblock
  nodeTab i :=
    if i = 0 then ⟨0, if n = 0 then nil64 else 0, .directory, 1⟩
    else if i ≤ n then ⟨0, nil64, .file, 1⟩
    else ⟨0, nil64, .empty, 0⟩
  dataMap b := decide (b < crowdedBlocks n)
  datablockTab b := ⟨if b + 1 < crowdedBlocks n then b + 1 else nil64, crowdedData n b⟩

def crowdedChain (n i : Nat) : List Nat := if i = 0 then List.range (crowdedBlocks n) else []

theorem crowded_firsts (i : Nat) : (crowded superblock n).first i = if i = 0 ∧ n ≠ 0 then 0 else nil64 := by
  unfold first crowded
  by_cases root : i = 0
  · by_cases none_ : n = 0 <;> simp [root, none_]
  · by_cases file : i ≤ n <;> simp [root, file]

theorem crowded_linked (blocks : crowdedBlocks n ≤ superblock.datablocksNum) (some_ : n ≠ 0) :
    Chain (crowded superblock n).next nil64 ((crowded superblock n).first 0) (List.range (crowdedBlocks n)) := by
  have positive : 0 < crowdedBlocks n := by
    unfold crowdedBlocks dirElemsPerBlock blockSize elemSize
    omega
  have small := superblock.datablocksNum_lt
  rw [crowded_firsts, if_pos ⟨rfl, some_⟩, List.range_eq_range']
  apply Chain.range'_of_pos _ _ _ positive
  · intro b _ before
    rw [Nat.zero_add] at before
    simp [next, crowded, before]
  · simp [next, crowded, Nat.sub_add_cancel positive]
  · unfold nil64
    omega

theorem crowded_pool (blocks : crowdedBlocks n ≤ superblock.datablocksNum) (some_ : n ≠ 0) (inodes : 0 < superblock.inodesNum) :
    (crowded superblock n).PoolOf (crowdedChain n) := by
  have grown : Function.update (fun _ => []) 0 ([] ++ List.range (crowdedBlocks n)) = crowdedChain n := by
    funext i
    by_cases root : i = 0 <;> simp [crowdedChain, root]
  have before : (blank superblock).PoolOf fun _ => [] := blank_pool
  rw [← grown]
  apply Pool.grow before inodes
  · intro b added
    exact ⟨lt_of_lt_of_le (List.mem_range.mp added) blocks, rfl⟩
  · rw [List.nil_append]
    exact crowded_linked blocks some_
  · intro i other
    rw [crowded_firsts, blank_first, if_neg fun both => other both.1]
  · intro b outside
    rw [List.nil_append, List.mem_range] at outside
    have last : ¬ b + 1 < crowdedBlocks n := by omega
    simp [next, crowded, blank, last]
  · intro b _
    simp [crowded, blank]

theorem readElem_congr {data data' : Nat → UInt8}
    (same : ∀ k < elemSize, data (elemSize * i + k) = data' (elemSize * i + k)) : readElem data i = readElem data' i := by
  have first_ := same 0 (by decide)
  rw [Nat.add_zero] at first_
  unfold readElem
  rw [first_, same 1 (by decide), same 2 (by decide), same 19 (by decide)]
  congr 1
  funext j
  have small := j.isLt
  rw [Nat.add_assoc]
  exact same (3 + j) (by simp only [filenameLen] at small; simp only [elemSize]; omega)

theorem readElem_crowdedData (n b i : Nat) : readElem (crowdedData n b) i =
    if dirElemsPerBlock * b + i + 1 ≤ n then newElem (nameOf (dirElemsPerBlock * b + i + 1)) (dirElemsPerBlock * b + i + 1)
    else ⟨0, 0, fun _ => 0, 0⟩ := by
  have slot (k : Nat) (within : k < elemSize) : (elemSize * i + k) / elemSize = i := by
    simp only [elemSize] at within ⊢
    omega
  split
  next listed =>
    rw [← readElem_writeElem_self (fun _ => 0) i (newElem (nameOf (dirElemsPerBlock * b + i + 1)) (dirElemsPerBlock * b + i + 1))
      (Nat.mod_lt _ (by decide))]
    apply readElem_congr
    intro k within
    simp [crowdedData, writeElem, slot k within, listed]
  next unlisted =>
    trans readElem (fun _ => 0) i
    · apply readElem_congr
      intro k within
      simp [crowdedData, slot k within, unlisted]
    · rfl

theorem inodes_blockElems (small : n < 2 ^ 16) (b : Nat) : (blockElems (crowdedData n b)).map DirectoryElement.inodeId =
    List.range' (dirElemsPerBlock * b + 1) (min dirElemsPerBlock (n - dirElemsPerBlock * b)) := by
  have listed : ∀ i, decide ((readElem (crowdedData n b) i).used ≠ 0) = decide (i < n - dirElemsPerBlock * b) := by
    intro i
    apply decide_eq_decide.mpr
    rw [readElem_crowdedData]
    split
    next within => simpa [newElem] using by omega
    next outside => simpa using by omega
  unfold blockElems
  rw [List.filter_map, List.map_map]
  have parts : (List.range dirElemsPerBlock).filter ((fun e => decide (e.used ≠ 0)) ∘ readElem (crowdedData n b)) =
      List.range (min dirElemsPerBlock (n - dirElemsPerBlock * b)) := by
    rw [← List.Ico.zero_bot, ← List.Ico.zero_bot, ← List.Ico.filter_lt]
    exact List.filter_congr fun i _ => listed i
  rw [parts, List.range'_eq_map_range]
  apply List.map_congr_left
  intro i member
  have within := List.mem_range.mp member
  rw [Function.comp_apply, readElem_crowdedData, if_pos (by omega)]
  simp only [newElem]
  omega

theorem inodes_usedElems (small : n < 2 ^ 16) (m : Nat) :
    ((crowded superblock n).usedElems (List.range m)).map DirectoryElement.inodeId =
      List.range' 1 (min (dirElemsPerBlock * m) n) := by
  induction m with
  | zero => simp [usedElems]
  | succ m ih =>
    have data_ : (crowded superblock n).data m = crowdedData n m := rfl
    rw [List.range_succ, usedElems_append, List.map_append, ih, usedElems_singleton, data_, inodes_blockElems small]
    by_cases all : n ≤ dirElemsPerBlock * m
    · rw [Nat.sub_eq_zero_of_le all, Nat.min_zero, List.range'_zero, List.append_nil, Nat.min_eq_right all,
        Nat.min_eq_right (all.trans (Nat.mul_le_mul_left _ (Nat.le_succ m)))]
    · have more : dirElemsPerBlock * m ≤ n := (Nat.lt_of_not_le all).le
      rw [Nat.min_eq_left more, Nat.add_comm _ 1, List.range'_append_1, Nat.mul_succ]
      congr 1
      omega

theorem crowded_inodes (small : n < 2 ^ 16) (d : Nat) :
    ((crowded superblock n).entries (crowdedChain n) d).map DirectoryElement.inodeId =
      if d = 0 then List.range' 1 n else [] := by
  by_cases root : d = 0
  · subst root
    rw [entries_of_directory rfl, crowdedChain, if_pos rfl, if_pos rfl, inodes_usedElems small]
    congr 1
    unfold crowdedBlocks dirElemsPerBlock blockSize elemSize
    omega
  · rw [if_neg root, entries_of_chain_nil (if_neg root), List.map_nil]

theorem crowded_type {i : Nat} (other : i ≠ 0) :
    ((crowded superblock n).nodeTab i).type = if i ≤ n then .file else .empty := by
  unfold crowded
  by_cases file : i ≤ n <;> simp [other, file]

theorem crowded_naming (small : n < 2 ^ 16) (inodes : n < superblock.inodesNum) (notRoot : i ≠ 0) (file : i ≤ n) :
    (crowded superblock n).naming (crowdedChain n) i = 1 := by
  have counts : ∀ d, ((crowded superblock n).entries (crowdedChain n) d).countP (fun e => e.inodeId = i) =
      if d = 0 then 1 else 0 := by
    intro d
    trans (((crowded superblock n).entries (crowdedChain n) d).map DirectoryElement.inodeId).count i
    · rw [List.count, List.countP_map]
      rfl
    · rw [crowded_inodes small]
      split
      · apply List.count_eq_one_of_mem List.nodup_range'
        rw [List.mem_range']
        exact ⟨i - 1, by omega, by omega⟩
      · rfl
  unfold naming
  rw [Finset.sum_eq_single 0, counts, if_pos rfl]
  · intro d _ other
    rw [counts, if_neg other]
  · intro outside
    exact absurd (Finset.mem_range.mpr (Nat.zero_lt_of_lt inodes)) outside

theorem crowded_consistent (some_ : n ≠ 0) (small : n < 2 ^ 16) (inodes : n < superblock.inodesNum)
    (blocks : crowdedBlocks n ≤ superblock.datablocksNum) :
    (crowded superblock n).BlockConsistent (crowdedChain n) ∧ (crowded superblock n).DirectoryConsistent (crowdedChain n) := by
  have positive : 0 < superblock.inodesNum := Nat.zero_lt_of_lt inodes
  refine ⟨⟨crowded_pool blocks some_ positive, ?_, ?_⟩, ⟨positive, rfl, ?_, ?_⟩⟩
  · intro i _ empty
    have notRoot : i ≠ 0 := by
      rintro rfl
      cases empty
    rw [crowded_firsts, if_neg fun both => notRoot both.1]
  · intro i _ file
    have notRoot : i ≠ 0 := by
      rintro rfl
      cases file
    have size : ((crowded superblock n).nodeTab i).size = 0 := by
      unfold crowded
      by_cases listed : i ≤ n <;> simp [notRoot, listed]
    rw [crowdedChain, if_neg notRoot, size]
    rfl
  · -- the root directory names the files up to `n`, each once
    intro d _ e listed
    have member : e.inodeId ∈ ((crowded superblock n).entries (crowdedChain n) d).map DirectoryElement.inodeId :=
      List.mem_map_of_mem listed
    rw [crowded_inodes small] at member
    split at member
    · obtain ⟨i, within, same⟩ := List.mem_range'.mp member
      have notRoot : e.inodeId ≠ 0 := by omega
      refine ⟨show _ < superblock.inodesNum by omega, ?_, notRoot⟩
      rw [crowded_type notRoot, if_pos (by omega)]
      simp
    · cases member
  · -- each of them is named once and has one reference
    intro i _ notRoot live
    rw [crowded_type notRoot] at live
    have file : i ≤ n := by
      by_contra outside
      rw [if_neg outside] at live
      exact live rfl
    rw [crowded_naming small inodes notRoot file]
    simp [crowded, notRoot, file]

/-! ## One file more than an entry can name -/

theorem crowded_findFreeNode (more : n + 1 < superblock.inodesNum) : (crowded superblock n).findFreeNode = n + 1 := by
  have found : (List.range superblock.inodesNum).find? (fun i => decide (((crowded superblock n).nodeTab i).type = .empty)) =
      some (n + 1) := by
    rw [List.find?_range_eq_some]
    refine ⟨?_, List.mem_range.mpr more, ?_⟩
    · rw [crowded_type (Nat.succ_ne_zero n)]
      simp
    · intro j before
      by_cases root : j = 0
      · subst root
        rfl
      · rw [crowded_type root, if_pos (Nat.le_of_lt_succ before)]
        rfl
  rw [findFreeNode]
  change (List.find? _ (List.range superblock.inodesNum)).getD none32 = n + 1
  rw [found]
  rfl

theorem crowded_absent (some_ : n ≠ 0) (inodes : n < superblock.inodesNum)
    (blocks : crowdedBlocks n ≤ superblock.datablocksNum) (filename : CString) (other : filename.bytes.length ≠ 4) :
    (crowded superblock n).findInDir 0 filename = .ok none := by
  have positive : 0 < superblock.inodesNum := Nat.zero_lt_of_lt inodes
  have none_ : (crowded superblock n).placeOn filename (crowdedChain n 0) = none := by
    rw [placeOn_eq_find, List.find?_eq_none]
    intro p _ named
    have elem : (crowded superblock n).elemAt p = readElem (crowdedData n p.1) p.2 := rfl
    rw [elem, readElem_crowdedData] at named
    split at named
    · rw [newElem_is] at named
      apply other
      rw [← named]
      rfl
    · simp [DirectoryElement.is] at named
  rw [findInDir_eq (crowded_pool blocks some_ positive) positive, none_]
  split <;> rfl

def largeSuperblock : Superblock := createSuperblock dirName 13000000

theorem crowded_freeBlocks (blocks : crowdedBlocks n < superblock.datablocksNum) :
    (crowded superblock n).freeBlocks ≠ [] := by
  have unmarked : (crowded superblock n).dataMap (crowdedBlocks n) = false := by simp [crowded]
  exact List.ne_nil_of_mem (mem_unmarked.mpr ⟨blocks, unmarked⟩)

theorem makeDir_adds (navigable : s.Navigable chain)
    (without : ∀ i < s.inodesNum, (s.nodeTab i).type = .empty → s.first i = nil64) {path : CString}
    (one : components path = [name]) (valid : validateFilename name = true) (absent : s.findInDir 0 name = .ok none)
    (nodes : s.freeNodes ≠ []) (free : s.freeBlocks ≠ []) : s.Enough (s.effect (.makeDir path)) ∧
      ∃ t, s.exec (.makeDir path) = .ok ([], t) ∧
        ⟨0, name, s.findFreeNode, s.slotsFor (s.chainOf 0)⟩ ∈ s.additions (.makeDir path) := by
  have chainSame := navigable.pool.chainOf_eq navigable.inodes
  have enough : s.dirNeed (chain 0) ≤ s.freeBlocks.length := by
    have some_ := List.length_pos_iff.mpr free
    unfold dirNeed
    split <;> omega
  have makes : s.effect (.makeDir path) = .makeDir 0 [name] := by
    rw [effect, one, missing, absent]
  obtain ⟨t, chainT, inserted, _⟩ :=
    insertDir_freshDir navigable.pool without navigable.inodes navigable.root nodes enough name
  refine ⟨?_, t, ?_, ?_⟩
  · rw [makes]
    refine ⟨?_, List.length_pos_iff.mpr nodes⟩
    rw [blocksNeeded, chainSame]
    exact enough
  · rw [exec, makeDir, one, makeDirFrom_cons nodes absent, inserted, ok_bind]
    simp [makeDirFrom, warnInvalid, valid]
  · rw [additions, one]
    simp [additionsFrom, absent, nodes, inserted, addition, navigable.root]

/-- The directory made after 65535 files is the root directory. -/
theorem entry_cut : ∃ (s : VirtualDisc) (command : Command) (s' : VirtualDisc) (added : Addition),
    (∃ fileName size, s.superblock = (create fileName size).superblock) ∧ s.Consistent ∧
    s.Enough (s.effect command) ∧ s.exec command = .ok ([], s') ∧ added ∈ s.additions command ∧
    added.inode < s.inodesNum ∧ ¬ ∀ p ∈ added.slots, (s'.elemAt p).inodeId = added.inode := by
  have inodes : 65535 < largeSuperblock.inodesNum := by decide +kernel
  have more : 65535 + 1 < largeSuperblock.inodesNum := by decide +kernel
  have blocks : crowdedBlocks 65535 < largeSuperblock.datablocksNum := by decide +kernel
  obtain ⟨tables, directories⟩ := crowded_consistent (by decide) (by decide) inodes blocks.le
  have navigable := directories.navigable tables
  have next_ := crowded_findFreeNode more
  have nodes : (crowded largeSuperblock 65535).freeNodes ≠ [] := by
    intro none_
    rw [findFreeNode_eq_none32_iff.mpr none_] at next_
    exact absurd next_ (by decide)
  obtain ⟨enough, t, executed, listed⟩ := makeDir_adds navigable tables.empty
    (show components dirName = [dirName] by decide +kernel) (by decide)
    (crowded_absent (by decide) inodes blocks.le dirName (by decide)) nodes (crowded_freeBlocks blocks)
  refine ⟨crowded largeSuperblock 65535, _, t, _, ⟨dirName, 13000000, rfl⟩, ⟨_, tables, directories⟩, enough, executed, listed, ?_, ?_⟩
  · rw [next_]
    exact more
  · intro named
    obtain ⟨some_, written⟩ := additions_written navigable.pool executed listed
    obtain ⟨p, here⟩ := List.exists_mem_of_ne_nil _ some_
    have same := named p here
    rw [written p here, next_] at same
    exact absurd same (by decide)

end VirtualDisc
end SoiStud.FileSystem
