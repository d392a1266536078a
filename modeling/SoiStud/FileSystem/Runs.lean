import SoiStud.FileSystem.Balance
import SoiStud.Library.Transition

/-! Runs of commands on a new disc. -/

set_option autoImplicit false

namespace SoiStud.FileSystem
namespace VirtualDisc

open Library

/-- Commands for which there are free blocks and inodes, one after the other on
a new disc that has its root inode. -/
def commands : System VirtualDisc Command where
  init s := ∃ fileName size, s = create fileName size ∧ 0 < s.inodesNum
  step s command t := s.Enough (s.effect command) ∧ ∃ out, s.exec command = .ok (out, t)

/-- The command enters a name once and counts it. -/
def Exact (s : VirtualDisc) (command : Command) (_ : VirtualDisc) : Prop :=
  s.EntersOnce (s.effect command) ∧ s.CountFits (s.effect command)

variable {s t : VirtualDisc} {dir file : Nat} {pathToDir filename : CString} {command : Command} {out : List Output}

theorem commands_after {condition : VirtualDisc → Command → VirtualDisc → Prop}
    (reached : (commands.restrict condition).Reachable s) (command : Command) (enough : s.Enough (s.effect command))
    (met : condition s command (s.after command)) (returns : (s.exec command).isOk = true) :
    (commands.restrict condition).Reachable (s.after command) :=
  reached.next ⟨⟨enough, exec_after returns⟩, met⟩

theorem onNonEmpty_of_returned (consistent : s.Consistent) (executed : s.exec command = .ok (out, t)) :
    s.OnNonEmpty (s.effect command) := by
  obtain ⟨chain, blocks, directories⟩ := consistent
  have navigable := directories.navigable blocks
  have valid := effect_valid navigable command
  obtain ⟨out', returned⟩ := (exec_prefixed navigable command).ok_iff.mp ⟨out, executed⟩
  cases which : s.effect command with
  | increase file sizeAmount =>
    rw [which] at valid returned
    exact nonEmpty_of_increase blocks (navigable.inRange_of_named valid.1) valid.2 returned
  | nothing => trivial
  | makeDir dir names => trivial
  | copy dir filename content => trivial
  | link dir filename file => trivial
  | unlink dir filename file => trivial
  | decrease file sizeAmount => trivial

theorem consistent_of_reachable (reached : (commands.restrict Exact).Reachable s) : s.Consistent := by
  apply reached.invariant
  · rintro s ⟨fileName, size, rfl, inodes⟩
    exact blank_consistent inodes
  · rintro s command t consistent ⟨⟨enough, out, executed⟩, once, fits⟩
    obtain ⟨out', s', again, consistent'⟩ := exec_consistent consistent command enough
      (onNonEmpty_of_returned consistent executed) once fits
    rw [executed] at again
    cases again
    exact consistent'

theorem unlink_spares (consistent : s.Consistent) (located : s.locate pathToDir filename = some (dir, file))
    (another : 2 ≤ s.naming s.chainOf file) (executed : s.exec (.unlink pathToDir filename) = .ok (out, t)) :
    (t.nodeTab file).type = (s.nodeTab file).type := by
  obtain ⟨blocks, directories⟩ := consistent.chainOf
  have navigable := directories.navigable blocks
  obtain ⟨found, place, placed, named, listed⟩ := found_of_locate navigable located
  obtain ⟨bounded, live, notRoot⟩ := directories.named dir found.inRange _ listed
  rw [named] at bounded live notRoot
  have effect : s.effect (.unlink pathToDir filename) = .unlink dir filename file := by
    simp only [VirtualDisc.effect, located]
  have returned := (exec_prefixed navigable (.unlink pathToDir filename)).ok_iff.mp ⟨out, executed⟩
  have valid := effect_valid navigable (.unlink pathToDir filename)
  rw [effect] at returned valid
  obtain ⟨out', returned⟩ := returned
  obtain ⟨chain', done⟩ := performed blocks navigable valid ⟨Nat.zero_le _, Nat.zero_le _⟩ returned
  cases done with
  | unlink _ _ removing nodes _ =>
    have count := directories.counted file bounded notRoot live
    have left : (s.nodeTab file).referencesNum - 1 ≠ 0 := by
      intro zero
      have pred := toNat_pred (n := (s.nodeTab file).referencesNum) (by omega)
      rw [zero, UInt8.toNat_zero] at pred
      omega
    rw [removeFile] at removing
    simp only [node_eq_ok file bounded, ok_bind, if_pos left] at removing
    cases removing
    rw [nodes, withReferences_type]

/-- In every run whose commands enter each name once and count it, the counts are
the numbers of entries, and an inode with an entry is in use. -/
theorem references_counted (reached : (commands.restrict Exact).Reachable s) :
    (∀ i < s.inodesNum, i ≠ 0 → (s.nodeTab i).type ≠ .empty →
      (s.nodeTab i).referencesNum.toNat = s.naming s.chainOf i) ∧
    (∀ d < s.inodesNum, ∀ e ∈ s.entries s.chainOf d, (s.nodeTab e.inodeId).type ≠ .empty) ∧
    (∀ pathToDir filename dir file out t, s.locate pathToDir filename = some (dir, file) →
      2 ≤ s.naming s.chainOf file → s.exec (.unlink pathToDir filename) = .ok (out, t) →
      (t.nodeTab file).type = (s.nodeTab file).type) := by
  have consistent := consistent_of_reachable reached
  obtain ⟨blocks, directories⟩ := consistent.chainOf
  refine ⟨directories.counted, fun d bounded e listed => (directories.named d bounded e listed).2.1, ?_⟩
  intro pathToDir filename dir file out t located another executed
  exact unlink_spares consistent located another executed

def linkName : CString := ⟨[121], by decide⟩

def linkedDisc : VirtualDisc :=
  (smallDisc.after (.copyFileToDisc fileName rootPath [1, 2, 3])).after (.link rootPath fileName rootPath linkName)

theorem linkedDisc_reachable : (commands.restrict Exact).Reachable linkedDisc := by
  have start : (commands.restrict Exact).Reachable smallDisc := .start ⟨_, _, rfl, by decide +kernel⟩
  have copied := commands_after start (.copyFileToDisc fileName rootPath [1, 2, 3]) (by decide +kernel)
    ⟨by decide +kernel, by decide +kernel⟩ (by decide +kernel)
  exact commands_after copied (.link rootPath fileName rootPath linkName) (by decide +kernel)
    ⟨by decide +kernel, by decide +kernel⟩ (by decide +kernel)

theorem references_counted_linkedDisc :
    (∀ i < linkedDisc.inodesNum, i ≠ 0 → (linkedDisc.nodeTab i).type ≠ .empty →
      (linkedDisc.nodeTab i).referencesNum.toNat = linkedDisc.naming linkedDisc.chainOf i) ∧
    (∀ d < linkedDisc.inodesNum, ∀ e ∈ linkedDisc.entries linkedDisc.chainOf d,
      (linkedDisc.nodeTab e.inodeId).type ≠ .empty) ∧
    (∀ pathToDir filename dir file out t, linkedDisc.locate pathToDir filename = some (dir, file) →
      2 ≤ linkedDisc.naming linkedDisc.chainOf file → linkedDisc.exec (.unlink pathToDir filename) = .ok (out, t) →
      (t.nodeTab file).type = (linkedDisc.nodeTab file).type) :=
  references_counted linkedDisc_reachable

/-- The leftovers of a removed file come to name an inode that is not in use. -/
theorem empty_inode_named : ∃ s, commands.Reachable s ∧ ∃ d < s.inodesNum, ∃ e ∈ s.entries s.chainOf d,
    e.inodeId < s.inodesNum ∧ (s.nodeTab e.inodeId).type = .empty := by
  have start : (commands.restrict fun _ _ _ => True).Reachable smallDisc := .start ⟨_, _, rfl, by decide +kernel⟩
  have copied := commands_after start (.copyFileToDisc fileName rootPath leftovers) (by decide +kernel) trivial
    (by decide +kernel)
  have removed := commands_after copied (.unlink rootPath fileName) (by decide +kernel) trivial (by decide +kernel)
  have made := commands_after removed (.makeDir dirName) (by decide +kernel) trivial (by decide +kernel)
  have stale := commands_after made (.makeDir innerPath) (by decide +kernel) trivial (by decide +kernel)
  exact ⟨_, stale.of_restrict, 1, by decide +kernel⟩

end VirtualDisc
end SoiStud.FileSystem
