import SoiStud.FileSystem.Reachability

/-! Which inodes an `unlink` empties.

Entries may lead to a directory from several places, and back to itself. The
inodes emptied are the fewest that account for their own names: none that is
named from elsewhere, and none that only a cycle of directories still names.
-/

set_option autoImplicit false

namespace SoiStud.FileSystem
namespace VirtualDisc

open Library

variable {s s' t : VirtualDisc} {chain chain' : Nat → List Nat} {dir file i j : Nat} {filename : CString}
  {place : Nat × Nat} {effect : Effect}

/-- Without one entry of `dir` for `file` an inode that had names has none left,
except in directories of which the same is true. -/
inductive Lost (s : VirtualDisc) (chain : Nat → List Nat) (dir file : Nat) : Nat → Prop where
  | intro {i : Nat} : s.Named chain i → (∀ d < s.inodesNum, (s.nodeTab d).type = .directory →
      i ∈ s.namesWithout chain dir file d → Lost s chain dir file d) → Lost s chain dir file i

theorem Lost.named (lost : s.Lost chain dir file i) : s.Named chain i := by
  cases lost with
  | intro named _ => exact named

theorem Guarded.not_lost (guarded : s.Guarded chain dir file i) (directories : s.DirectoryConsistent chain)
    (blocks : s.BlockConsistent chain) : ¬ s.Lost chain dir file i := by
  induction guarded with
  | root =>
    intro lost
    exact (directories.nameable_of_named lost.named).2.2 rfl
  | entry bounded guarded listed _ _ ih =>
    intro lost
    cases lost with
    | intro _ others => exact ih (others _ bounded (guarded.directory (directories.navigable blocks)).2 listed)

theorem Referenced.named (referenced : s.Referenced) (directories : s.DirectoryConsistent chain)
    (bounded : i < s.inodesNum) (notRoot : i ≠ 0) (live : (s.nodeTab i).type ≠ .empty) : s.Named chain i := by
  apply naming_pos_iff.mp
  rw [← directories.counted i bounded notRoot live, Nat.pos_iff_ne_zero]
  exact fun zero => referenced i bounded notRoot live (UInt8.toNat_inj.mp zero)

def Stays (s : VirtualDisc) (chain : Nat → List Nat) (dir file d : Nat) : Prop :=
  d < s.inodesNum ∧ (s.nodeTab d).type = .directory ∧ ¬ s.Lost chain dir file d

/-- A name of what is not lost is left in a directory that is not lost. -/
theorem stays_of_not_lost (named : s.Named chain i) (notLost : ¬ s.Lost chain dir file i) :
    ∃ d, s.Stays chain dir file d ∧ i ∈ s.namesWithout chain dir file d := by
  by_contra nowhere
  refine notLost (.intro named fun d bounded directory listed => ?_)
  by_contra notLostD
  exact nowhere ⟨d, ⟨bounded, directory, notLostD⟩, listed⟩

theorem stays_ledger (blocks : s.BlockConsistent chain) (directories : s.DirectoryConsistent chain)
    (referenced : s.Referenced) (found : s.Found chain dir) (listed : ∃ e ∈ s.entries chain dir, e.inodeId = file) :
    s.Ledger (s.namesWithout chain dir file) (s.Stays chain dir file) ∅ [file] := by
  have ledger := namesWithout_ledger blocks directories found listed
  refine ⟨ledger.opened, ledger.owing, ledger.named, ledger.counted, ?_⟩
  rintro p ⟨bounded, directory, notLost⟩
  refine ⟨bounded, Finset.notMem_empty p, directory, ?_⟩
  by_cases root : p = 0
  · exact .inl root
  · have live : (s.nodeTab p).type ≠ .empty := by simp [directory]
    exact .inr (stays_of_not_lost (referenced.named directories bounded root live) notLost)

theorem Unlinked.left (unlinked : s.Unlinked chain dir (s.elemAt place) s' chain')
    (named : (s.elemAt place).inodeId = file) (directory : (s.nodeTab dir).type = .directory) :
    (s.namesWithout chain dir file dir).Perm ((s'.entries chain' dir).map DirectoryElement.inodeId) := by
  have ids := unlinked.removed.map DirectoryElement.inodeId
  rw [entries_of_directory directory, List.map_cons, named] at ids
  have less := ids.erase file
  rw [List.erase_cons_head] at less
  rwa [namesWithout, if_pos rfl]

theorem Unlinked.mem_entries (unlinked : s.Unlinked chain dir (s.elemAt place) s' chain')
    (named : (s.elemAt place).inodeId = file) {d : Nat} (bounded : d < s.inodesNum)
    (listed : ∃ e ∈ s'.entries chain' d, e.inodeId = i) :
    (s.nodeTab d).type = .directory ∧ (s'.nodeTab d).type ≠ .empty ∧ i ∈ s.namesWithout chain dir file d := by
  obtain ⟨e, member, rfl⟩ := listed
  have directory' : (s'.nodeTab d).type = .directory := by
    by_contra other
    rw [entries_of_ne other] at member
    cases member
  have live : (s'.nodeTab d).type ≠ .empty := by simp [directory']
  have directory : (s.nodeTab d).type = .directory := (unlinked.types d bounded live).symm.trans directory'
  refine ⟨directory, live, ?_⟩
  by_cases here : d = dir
  · subst here
    exact (unlinked.left named directory).mem_iff.mpr (List.mem_map_of_mem member)
  · rw [unlinked.others d bounded here live, entries_of_directory directory] at member
    rw [namesWithout, if_neg here]
    exact List.mem_map_of_mem member

/-- `unlink` empties exactly what it leaves without names. -/
theorem unlinkFrom_lost (blocks : s.BlockConsistent chain) (directories : s.DirectoryConsistent chain)
    (referenced : s.Referenced) (found : s.Found chain dir) (placed : s.placeOn filename (chain dir) = some place)
    (named : (s.elemAt place).inodeId = file) :
    ∃ s', s.unlinkFrom dir filename file = .ok s' ∧
      ∀ i < s.inodesNum, s.TurnedEmpty s' i ↔ s.Lost chain dir file i := by
  obtain ⟨s', chain', returned, unlinked, directories'⟩ := unlinkFrom_ok blocks directories found placed named
  obtain ⟨t, chainT, removing, _, _, rfl⟩ := unlinkFrom_returned blocks.pool found.inRange placed returned
  have listed : ∃ e ∈ s.entries chain dir, e.inodeId = file := by
    rw [entries_of_directory found.directory]
    exact ⟨_, elemAt_mem_usedElems placed, named⟩
  have namedFile : s.Named chain file := ⟨dir, found.inRange, listed⟩
  have turned (i : Nat) (bounded : i < s.inodesNum) :=
    turnedEmpty_iff directories directories' blocks.pool namedFile removing unlinked.superblock rfl bounded
  refine ⟨t.clear place, returned, fun i bounded => ⟨fun emptied => ?_, fun lost => ?_⟩⟩
  · -- what is named in a directory that stays is in use to the end
    by_contra notLost
    have namedI : s.Named chain i := naming_pos_iff.mp ((turned i bounded).mp emptied).1
    obtain ⟨d, staysD, left⟩ := stays_of_not_lost namedI notLost
    have staysDir : s.Stays chain dir file dir :=
      ⟨found.inRange, found.directory, (found.fromRoot.guarded.elim id id).not_lost directories blocks⟩
    have faithful : ∀ d < s.inodesNum, ¬ s.Stays chain dir file d → s.namesWithout chain dir file d =
        (s.usedElems (chain d)).map fun e => e.inodeId := by
      intro d _ lostD
      have other : d ≠ dir := by
        rintro rfl
        exact lostD staysDir
      simp only [namesWithout, if_neg other]
    obtain ⟨u, again, ledger⟩ := removeFile_ok faithful (s.inodesNum + 1) (by simp) s chain [] file (.refl blocks.pool)
      (stays_ledger blocks directories referenced found listed)
    rw [removing] at again
    cases again
    obtain ⟨boundedD, closed, directory, _⟩ := ledger.guarded d staysD
    have live := (ledger.named d boundedD closed i (by rw [held, if_pos directory]; exact left)).2.1
    exact live emptied.2
  · -- what loses its last name is empty, since all that name it have been emptied before
    induction lost with
    | @intro i namedI others ih =>
      refine (turned i bounded).mpr ⟨naming_pos_iff.mpr namedI, ?_⟩
      apply naming_eq_zero
      intro d boundedD e member names
      rw [inodesNum_eq unlinked.superblock] at boundedD
      obtain ⟨directory, live, left⟩ := unlinked.mem_entries named boundedD ⟨e, member, names⟩
      exact live (ih d boundedD directory left boundedD).2

/-- In every run whose commands enter each name once and count it, an `unlink`
that finds its name returns and empties exactly the inodes that it leaves
without names. -/
theorem unlink_empties_lost {path : CString} (reached : (commands.restrict Exact).Reachable s)
    (located : s.locate path filename = some (dir, file)) : ∃ out s', s.unlink path filename = .ok (out, s') ∧
      ∀ i < s.inodesNum, s.TurnedEmpty s' i ↔ s.Lost s.chainOf dir file i := by
  obtain ⟨blocks, directories⟩ := (consistent_of_reachable reached).chainOf
  have navigable := directories.navigable blocks
  obtain ⟨found, place, placed, named, _⟩ := found_of_locate navigable located
  obtain ⟨s', returned, emptied⟩ :=
    unlinkFrom_lost blocks directories (referenced_of_reachable reached) found placed named
  have effect : s.effect (.unlink path filename) = .unlink dir filename file := by
    simp only [VirtualDisc.effect, located]
  obtain ⟨out, executed⟩ := (exec_prefixed navigable (.unlink path filename)).ok_iff.mpr
    ⟨[], by rw [effect, perform, returned]; rfl⟩
  exact ⟨out, s', executed, emptied⟩

theorem unlink_empties_lost_linkedDisc : ∃ out s', linkedDisc.unlink rootPath fileName = .ok (out, s') ∧
    ∀ i < linkedDisc.inodesNum, linkedDisc.TurnedEmpty s' i ↔ linkedDisc.Lost linkedDisc.chainOf 0 1 i :=
  unlink_empties_lost linkedDisc_reachable (by decide +kernel)

end VirtualDisc
end SoiStud.FileSystem
