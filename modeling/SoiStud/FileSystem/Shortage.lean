import SoiStud.FileSystem.Outcomes

/-! Commands that need more free blocks than there are.

The search for a free block returns `(uint32_t)-1` when there is none. Its
callers compare that with `(uint64_t)-1`, so they never notice; what stops them
is an access outside the table. By then a count, an inode or a link has changed.
-/

set_option autoImplicit false

namespace SoiStud.FileSystem
namespace VirtualDisc

open Library

structure Unchanged (s s' : VirtualDisc) : Prop where
  superblock : s'.superblock = s.superblock
  nodes : ∀ i < s.inodesNum, s'.nodeTab i = s.nodeTab i
  marks : ∀ b < s.datablocksNum, s'.dataMap b = s.dataMap b
  links : ∀ b < s.datablocksNum, s'.next b = s.next b
  entries : ∀ d < s.inodesNum, s'.entries s'.chainOf d = s.entries s.chainOf d

theorem Unchanged.refl (s : VirtualDisc) : Unchanged s s :=
  ⟨rfl, fun _ _ => rfl, fun _ _ => rfl, fun _ _ => rfl, fun _ _ => rfl⟩

def Refuses (s : VirtualDisc) (command : Command) : Prop :=
  ∃ out s', s.exec command = .ok (out, s') ∧ (∃ text, .cerr text ∈ out) ∧ Unchanged s s'

variable {s s' : VirtualDisc} {chain chain' : Nat → List Nat} {dir file i j : Nat} {effect : Effect}
  {out : List Output}

theorem Unchanged.empty (unchanged : Unchanged s s') (free : i ∈ s.freeNodes) : (s'.nodeTab i).type = .empty := by
  obtain ⟨bounded, empty⟩ := mem_freeNodes.mp free
  rw [unchanged.nodes i bounded, empty]

theorem increase_size {sizeAmount : Nat} (returned : s.increase file sizeAmount = .ok (out, s')) :
    (s'.nodeTab file).size = (s.nodeTab file).size + sizeAmount := by
  obtain ⟨node, read, returned⟩ := bind_eq_ok.mp returned
  obtain ⟨last, _, returned⟩ := bind_eq_ok.mp returned
  dsimp only at returned
  split at returned
  next =>
    obtain ⟨block, _, returned⟩ := bind_eq_ok.mp returned
    obtain ⟨t, written, returned⟩ := bind_eq_ok.mp returned
    have sizeT : (t.nodeTab file).size = (s.nodeTab file).size := by
      obtain ⟨_, rfl⟩ := setData_ok_iff.mp written
      rfl
    rw [growLoop_size returned]
    simp only [addSize, withSize_nodeTab, Function.update_self, sizeT]
    omega
  next => exact growLoop_size returned

/-- The effect leaves the disc as it is: there is nothing to do, or no inode for what is to be made. -/
def Keeps (s : VirtualDisc) : Effect → Prop
  | .nothing => True
  | .makeDir _ _ | .copy _ _ _ => s.freeNodes = []
  | .link _ _ _ | .unlink _ _ _ => False
  | .decrease _ sizeAmount => sizeAmount = 0
  | .increase file sizeAmount => sizeAmount = 0 ∧ 0 < (s.nodeTab file).size

/-- Whatever else returns has changed an inode or taken an entry away. -/
theorem keeps_of_unchanged (blocks : s.BlockConsistent chain) (navigable : s.Navigable chain)
    (valid : s.Valid chain effect) (returned : s.perform effect = .ok (out, s')) (unchanged : Unchanged s s') :
    s.Keeps effect := by
  -- an effect that is no refusal shows on some field that an unchanged disc keeps
  cases effect with
  | nothing => trivial
  | makeDir dir names =>
    obtain ⟨found, name, rest, rfl, absent⟩ := valid
    by_contra free
    obtain ⟨extra, chain', made⟩ := makeDirFrom_made blocks found.inRange found.directory _ (absent_head absent) returned
    obtain ⟨j, others, nodes⟩ := List.exists_cons_of_ne_nil free
    have taken := made.taken (j := j) (by simp [nodes])
    rw [unchanged.empty (by simp [nodes])] at taken
    cases taken.1
  | copy dir filename content =>
    obtain ⟨found, _⟩ := valid
    by_contra free
    obtain ⟨chain', extra, _, isFile, _⟩ := copyInto_entered blocks found.inRange found.directory free returned
    rw [unchanged.empty (findFreeNode_mem free)] at isFile
    cases isFile
  | link dir filename file =>
    obtain ⟨found, named⟩ := valid
    have bounded := navigable.inRange_of_named named
    obtain ⟨chain', extra, _, _, references, _⟩ := linkInto_entered blocks found.inRange found.directory bounded
      returned
    rw [unchanged.nodes file bounded] at references
    exact absurd references (by simp)
  | unlink dir filename file =>
    obtain ⟨found, place, placed, _⟩ := valid
    obtain ⟨rfl, unlinking⟩ := silent_eq_ok.mp returned
    obtain ⟨t, chain', _, _, unlinked⟩ := unlinkFrom_unlinked blocks found.inRange placed unlinking
    have fewer := unlinked.removed.length_eq
    have bounded : dir < s'.inodesNum := by
      rw [inodesNum_eq unlinked.superblock]
      exact found.inRange
    rw [← unlinked.blocks.pool.entries_chainOf bounded, unchanged.entries dir found.inRange,
      blocks.pool.entries_chainOf found.inRange, List.length_cons] at fewer
    omega
  | decrease file sizeAmount =>
    obtain ⟨named, isFile, fits⟩ := valid
    have bounded := navigable.inRange_of_named named
    obtain ⟨t, keep, decreased, resized, _⟩ := decrease_resized sizeAmount blocks bounded isFile
    obtain ⟨rfl, again⟩ := silent_eq_ok.mp returned
    cases decreased.symm.trans again
    have size := congrArg Inode.size resized.node
    rw [unchanged.nodes file bounded] at size
    change (s.nodeTab file).size = (s.nodeTab file).size - sizeAmount at size
    have none_ : sizeAmount = 0 := by omega
    exact none_
  | increase file sizeAmount =>
    have bounded := navigable.inRange_of_named valid.1
    have size := increase_size returned
    rw [unchanged.nodes file bounded] at size
    exact ⟨by omega, nonEmpty_of_increase blocks bounded valid.2 returned⟩

theorem Keeps.needs (keeps : s.Keeps effect) (valid : s.Valid chain effect)
    (short : s.freeBlocks.length < s.blocksNeeded effect) : inodesNeeded effect ≠ 0 ∧ s.freeNodes = [] := by
  cases effect with
  | makeDir dir names =>
    obtain ⟨_, name, rest, rfl, _⟩ := valid
    exact ⟨Nat.succ_ne_zero _, keeps⟩
  | copy dir filename content => exact ⟨Nat.one_ne_zero, keeps⟩
  | nothing => exact absurd short (Nat.not_lt_zero _)
  | link dir filename file => exact keeps.elim
  | unlink dir filename file => exact keeps.elim
  | decrease file sizeAmount => exact absurd short (Nat.not_lt_zero _)
  | increase file sizeAmount => simp [blocksNeeded, keeps.1] at short

theorem perform_refused (valid : s.Valid chain effect) (needs : inodesNeeded effect ≠ 0) (none_ : s.freeNodes = []) :
    ∃ out, s.perform effect = .ok (out ++ [.cerr "No free nodes found."], s) := by
  have noNode : s.findFreeNode = none32 := findFreeNode_eq_none32_iff.mpr none_
  cases effect with
  | makeDir dir names =>
    obtain ⟨found, name, rest, rfl, absent⟩ := valid
    refine ⟨warnInvalid name, ?_⟩
    rw [perform, makeDirFrom, absent, ok_bind]
    simp only [noNode, if_true]
  | copy dir filename content =>
    refine ⟨[], ?_⟩
    simp only [perform, copyInto, noNode, if_true, List.nil_append]
  | nothing => exact absurd rfl needs
  | link dir filename file => exact absurd rfl needs
  | unlink dir filename file => exact absurd rfl needs
  | decrease file sizeAmount => exact absurd rfl needs
  | increase file sizeAmount => exact absurd rfl needs

/-- On a consistent disc with too few free blocks for a command, the command is
refused exactly if it has to take an inode and none is free. -/
theorem refuses_iff (consistent : s.Consistent) (command : Command)
    (short : s.freeBlocks.length < s.blocksNeeded (s.effect command)) :
    s.Refuses command ↔ inodesNeeded (s.effect command) ≠ 0 ∧ s.freeNodes = [] := by
  obtain ⟨chain, blocks, directories⟩ := consistent
  have navigable := directories.navigable blocks
  have valid := effect_valid navigable command
  have prefixed := exec_prefixed navigable command
  constructor
  · rintro ⟨out, s', executed, _, unchanged⟩
    obtain ⟨out', returned⟩ := prefixed.ok_iff.mp ⟨out, executed⟩
    exact (keeps_of_unchanged blocks navigable valid returned unchanged).needs valid short
  · rintro ⟨needs, none_⟩
    obtain ⟨out, returned⟩ := perform_refused valid needs none_
    obtain ⟨before, executed⟩ := prefixed
    rw [returned] at executed
    exact ⟨_, s, executed, ⟨"No free nodes found.", by simp⟩, .refl s⟩

/-! ## A full disc -/

def threeDeep : CString := ⟨[97, 47, 98, 47, 99], by decide⟩
def fourDeep : CString := ⟨[97, 47, 98, 47, 99, 47, 100], by decide⟩

def fullDisc : VirtualDisc := smallDisc.after (.makeDir threeDeep)

theorem fullDisc_consistent : fullDisc.Consistent :=
  after_consistent (blank_consistent (by decide +kernel)) _ (by decide +kernel) (by decide +kernel)
    (by decide +kernel) (by decide +kernel)

theorem refuses_iff_fullDisc : fullDisc.Refuses (.makeDir fourDeep) ↔
    inodesNeeded (fullDisc.effect (.makeDir fourDeep)) ≠ 0 ∧ fullDisc.freeNodes = [] :=
  refuses_iff fullDisc_consistent _ (by decide +kernel)

/-- One more directory: the value for nothing free is used as an index. -/
theorem shortage_undetected : ∃ (s : VirtualDisc) (command : Command), s.Consistent ∧
    s.freeBlocks.length < s.blocksNeeded (s.effect command) ∧
    s.exec command = .error (.outOfBounds none32) ∧ ¬ s.Refuses command := by
  have executed : fullDisc.exec (.makeDir fourDeep) = .error (.outOfBounds none32) := exec_fault (by decide +kernel)
  refine ⟨fullDisc, .makeDir fourDeep, fullDisc_consistent, by decide +kernel, executed, ?_⟩
  rintro ⟨out, s', returned, _⟩
  rw [executed] at returned
  cases returned

end VirtualDisc
end SoiStud.FileSystem
