import SoiStud.FileSystem.Freeing
import SoiStud.FileSystem.Runs
import SoiStud.Library.Ancestry

/-! Which inodes in use the root directory still leads to.

Deletion is by reference count alone, and a directory may be linked into itself
or into one below it. What is in use is always named by something, so going back
along the names ends at the root directory or goes round a cycle of directories.
-/

set_option autoImplicit false

namespace SoiStud.FileSystem
namespace VirtualDisc

open Library

variable {s s' t : VirtualDisc} {chain chain' : Nat → List Nat} {dir file i j : Nat} {filename : CString}
  {effect : Effect}

/-! ## In a run every inode in use has references -/

def Referenced (s : VirtualDisc) : Prop :=
  ∀ i < s.inodesNum, i ≠ 0 → (s.nodeTab i).type ≠ .empty → (s.nodeTab i).referencesNum ≠ 0

theorem Referenced.of_one (referenced : s.Referenced) (superblock : s'.superblock = s.superblock)
    (types : ∀ i, i ≠ j → (s'.nodeTab i).type = (s.nodeTab i).type)
    (references : ∀ i, i ≠ j → (s'.nodeTab i).referencesNum = (s.nodeTab i).referencesNum)
    (counted : (s'.nodeTab j).referencesNum ≠ 0) : s'.Referenced := by
  intro i bounded notRoot live
  rw [inodesNum_eq superblock] at bounded
  by_cases same : i = j
  · exact same ▸ counted
  · rw [types i same] at live
    rw [references i same]
    exact referenced i bounded notRoot live

theorem Referenced.made {names : List CString} {extra : List DirectoryElement} (referenced : s.Referenced)
    (made : Made s chain dir names extra s' chain') : s'.Referenced := by
  induction made with
  | stop _ => exact referenced
  | next created _ ih =>
    have entered := created.entered
    apply ih
    exact referenced.of_one entered.superblock entered.types entered.references (by simp [created.references])

theorem Referenced.resized {blocks : List Nat} {size : Nat} (referenced : s.Referenced)
    (resized : s.Resized chain file blocks size s') : s'.Referenced := by
  intro i bounded notRoot live
  rw [inodesNum_eq resized.superblock] at bounded
  rw [resized.type] at live
  rw [resized.references]
  exact referenced i bounded notRoot live

theorem Referenced.unlinked {elem : DirectoryElement} (referenced : s.Referenced)
    (removing : removeFile (s.inodesNum + 1) s file = .ok t) (nodes : s'.nodeTab = t.nodeTab)
    (unlinked : s.Unlinked chain dir elem s' chain') : s'.Referenced := by
  intro i bounded notRoot live zero
  rw [inodesNum_eq unlinked.superblock] at bounded
  rw [nodes] at live zero
  obtain ⟨liveBefore, zeroBefore⟩ := removeFile_settled _ s file t removing i live zero
  exact referenced i bounded notRoot liveBefore zeroBefore

theorem succ_ne_zero_of_room {n : UInt8} (room : n ≠ 255) : n + 1 ≠ 0 := by
  intro zero
  have succ := toNat_succ room
  rw [zero, UInt8.toNat_zero] at succ
  omega

theorem Referenced.performed (referenced : s.Referenced) (performed : s.Performed chain effect s' chain')
    (fits : s.CountFits effect) : s'.Referenced := by
  cases performed with
  | nothing => exact referenced
  | makeDir made => exact referenced.made made
  | copy entered _ one _ =>
    exact referenced.of_one entered.superblock entered.types entered.references (by simp [one])
  | link entered _ references _ =>
    apply referenced.of_one entered.superblock entered.types entered.references
    rw [references]
    exact succ_ne_zero_of_room fits
  | unlink _ _ removing nodes unlinked => exact referenced.unlinked removing nodes unlinked
  | decrease resized _ => exact referenced.resized resized
  | increase resized _ => exact referenced.resized resized

theorem referenced_of_reachable (reached : (commands.restrict Exact).Reachable s) : s.Referenced := by
  apply reached.invariant_with (J := Consistent) (fun _ => consistent_of_reachable)
  · rintro s ⟨fileName, size, rfl, _⟩ i _ notRoot live
    exact absurd (blank_type notRoot) live
  · rintro s command t ⟨chain, blocks, directories⟩ referenced ⟨⟨enough, out, executed⟩, _, fits⟩
    have navigable := directories.navigable blocks
    obtain ⟨chain', done⟩ := exec_performed blocks navigable enough executed
    exact referenced.performed done fits

/-! ## Where names lead -/

/-- A used entry of directory `d` names inode `i`. -/
def Leads (s : VirtualDisc) (d i : Nat) : Prop := d < s.inodesNum ∧ ∃ e ∈ s.entries s.chainOf d, e.inodeId = i

def LeadsTo (s : VirtualDisc) : Nat → Nat → Prop := Relation.ReflTransGen s.Leads

/-- The inode can be reached from the root directory, or from a directory on a cycle of used entries. -/
def Held (s : VirtualDisc) (i : Nat) : Prop := s.LeadsTo 0 i ∨ ∃ d, OnCycle s.Leads d ∧ s.LeadsTo d i

theorem Leads.directory (leads : s.Leads dir i) : (s.nodeTab dir).type = .directory := by
  obtain ⟨_, e, listed, _⟩ := leads
  by_contra other
  rw [entries_of_ne other] at listed
  cases listed

/-- In every run whose commands enter each name once and count it, an inode in
use can be reached from the root directory or from a cycle of directories, and
so can the owner of each block in use. -/
theorem live_held (reached : (commands.restrict Exact).Reachable s) :
    (∀ i < s.inodesNum, (s.nodeTab i).type ≠ .empty → s.Held i) ∧
    ∀ b < s.datablocksNum, s.dataMap b = true → ∃ i < s.inodesNum, b ∈ s.chainOf i ∧ s.Held i := by
  obtain ⟨blocks, directories⟩ := (consistent_of_reachable reached).chainOf
  have referenced := referenced_of_reachable reached
  let live : Set Nat := {i | i < s.inodesNum ∧ (s.nodeTab i).type ≠ .empty}
  have finite : live.Finite := (Set.finite_lt_nat s.inodesNum).subset fun i member => member.1
  have preceded : ∀ i ∈ live, i = 0 ∨ ∃ d ∈ live, s.Leads d i := by
    rintro i ⟨bounded, inUse⟩
    by_cases root : i = 0
    · exact .inl root
    · have count := directories.counted i bounded root inUse
      have positive : 0 < s.naming s.chainOf i := by
        rw [← count]
        exact Nat.pos_of_ne_zero fun zero => referenced i bounded root inUse (UInt8.toNat_inj.mp zero)
      obtain ⟨d, boundedD, e, listed, names⟩ := naming_pos_iff.mp positive
      have leads : s.Leads d i := ⟨boundedD, e, listed, names⟩
      exact .inr ⟨d, ⟨boundedD, by simp [leads.directory]⟩, leads⟩
  have held : ∀ i < s.inodesNum, (s.nodeTab i).type ≠ .empty → s.Held i := by
    intro i bounded inUse
    rcases from_root_or_cycle finite preceded ⟨bounded, inUse⟩ with fromRoot | ⟨d, _, cycle, leads⟩
    · exact .inl fromRoot
    · exact .inr ⟨d, cycle, leads⟩
  refine ⟨held, fun b bounded marked => ?_⟩
  obtain ⟨i, owner, member⟩ := (blocks.pool.marked_iff b bounded).mp marked
  refine ⟨i, owner, member, held i owner fun empty => ?_⟩
  rw [blocks.chain_eq_nil owner empty] at member
  cases member

theorem live_held_linkedDisc :
    (∀ i < linkedDisc.inodesNum, (linkedDisc.nodeTab i).type ≠ .empty → linkedDisc.Held i) ∧
    ∀ b < linkedDisc.datablocksNum, linkedDisc.dataMap b = true →
      ∃ i < linkedDisc.inodesNum, b ∈ linkedDisc.chainOf i ∧ linkedDisc.Held i :=
  live_held linkedDisc_reachable

def loopDisc : VirtualDisc :=
  ((smallDisc.after (.makeDir dirName)).after (.link rootPath dirName dirName linkName)).after
    (.unlink rootPath dirName)

theorem loopDisc_reachable : (commands.restrict Exact).Reachable loopDisc := by
  have start : (commands.restrict Exact).Reachable smallDisc := .start ⟨_, _, rfl, by decide +kernel⟩
  have made := commands_after start (.makeDir dirName) (by decide +kernel)
    ⟨by decide +kernel, by decide +kernel⟩ (by decide +kernel)
  have linked := commands_after made (.link rootPath dirName dirName linkName) (by decide +kernel)
    ⟨by decide +kernel, by decide +kernel⟩ (by decide +kernel)
  exact commands_after linked (.unlink rootPath dirName) (by decide +kernel)
    ⟨by decide +kernel, by decide +kernel⟩ (by decide +kernel)

/-- The directory is still in use, with a block, but no entry of the root directory is left. -/
theorem loop_unreachable : ∃ s, (commands.restrict Exact).Reachable s ∧ ∃ i < s.inodesNum,
    (s.nodeTab i).type ≠ .empty ∧ ¬ s.LeadsTo 0 i ∧ ∃ b ∈ s.chainOf i, s.dataMap b = true := by
  refine ⟨loopDisc, loopDisc_reachable, 1, by decide +kernel, by decide +kernel, ?_, 1, by decide +kernel,
    by decide +kernel⟩
  have nothing : loopDisc.chainOf 0 = [0] ∧ blockElems (loopDisc.data 0) = [] := by decide +kernel
  intro leads
  rcases leads.cases_head with same | ⟨i, ⟨_, e, listed, _⟩, _⟩
  · cases same
  · rw [entries_of_directory (by decide +kernel), nothing.1, usedElems_singleton, nothing.2] at listed
    cases listed

end VirtualDisc
end SoiStud.FileSystem
