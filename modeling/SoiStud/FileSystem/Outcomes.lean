import SoiStud.FileSystem.Preservation

/-! The discs that returning commands leave, whatever the directories hold. -/

set_option autoImplicit false

namespace SoiStud.FileSystem
namespace VirtualDisc

open Library

/-- The disc an effect leaves when there is enough for it. -/
inductive Performed (s : VirtualDisc) (chain : Nat → List Nat) :
    Effect → VirtualDisc → (Nat → List Nat) → Prop where
  | nothing : Performed s chain .nothing s chain
  | makeDir {dir : Nat} {names : List CString} {extra : List DirectoryElement} {s' : VirtualDisc}
      {chain' : Nat → List Nat} : Made s chain dir names extra s' chain' →
      Performed s chain (.makeDir dir names) s' chain'
  | copy {dir : Nat} {filename : CString} {content : List UInt8} {extra : List DirectoryElement} {s' : VirtualDisc}
      {chain' : Nat → List Nat} :
      s.Entered chain dir s.findFreeNode (newElem filename s.findFreeNode) extra s' chain' →
      (s'.nodeTab s.findFreeNode).type = .file → (s'.nodeTab s.findFreeNode).referencesNum = 1 →
      (extra = [] ↔ s.AddsOnly (chain dir)) → Performed s chain (.copy dir filename content) s' chain'
  | link {dir : Nat} {filename : CString} {file : Nat} {extra : List DirectoryElement} {s' : VirtualDisc}
      {chain' : Nat → List Nat} : s.Entered chain dir file (newElem filename file) extra s' chain' →
      (s'.nodeTab file).type = (s.nodeTab file).type →
      (s'.nodeTab file).referencesNum = (s.nodeTab file).referencesNum + 1 →
      (extra = [] ↔ s.AddsOnly (chain dir)) → Performed s chain (.link dir filename file) s' chain'
  | unlink {dir : Nat} {filename : CString} {file : Nat} {place : Nat × Nat} {t s' : VirtualDisc}
      {chain' : Nat → List Nat} : s.placeOn filename (chain dir) = some place → (s.elemAt place).inodeId = file →
      removeFile (s.inodesNum + 1) s file = .ok t → s'.nodeTab = t.nodeTab →
      s.Unlinked chain dir (s.elemAt place) s' chain' → Performed s chain (.unlink dir filename file) s' chain'
  | decrease {file sizeAmount : Nat} {blocks : List Nat} {s' : VirtualDisc} :
      s.Resized chain file blocks ((s.nodeTab file).size - sizeAmount) s' →
      blocks.length = blocksFor ((s.nodeTab file).size - sizeAmount) →
      Performed s chain (.decrease file sizeAmount) s' (Function.update chain file blocks)
  | increase {file sizeAmount : Nat} {blocks : List Nat} {s' : VirtualDisc} :
      s.Resized chain file blocks ((s.nodeTab file).size + sizeAmount) s' →
      blocks.length = blocksFor ((s.nodeTab file).size + sizeAmount) →
      Performed s chain (.increase file sizeAmount) s' (Function.update chain file blocks)

variable {s s' : VirtualDisc} {chain chain' : Nat → List Nat} {dir file i j : Nat} {effect : Effect}
  {out : List Output}

/-- The walk to the last block of a file that has none runs out of the table. -/
theorem increase_empty {sizeAmount : Nat} (pool : s.PoolOf chain) (inRange : file < s.inodesNum)
    (none_ : chain file = []) (r : List Output × VirtualDisc) : s.increase file sizeAmount ≠ .ok r := by
  have nil : (s.nodeTab file).firstDataBlock = nil64 := (pool.chain_eq_nil_iff inRange).mp none_
  have outside : ¬ nil64 < s.datablocksNum := fun inTable => ne_nil64 inTable rfl
  simp [increase, node_eq_ok file inRange, nil, lastBlock, block, outside]

theorem nonEmpty_of_increase {sizeAmount : Nat} (blocks : s.BlockConsistent chain) (inRange : file < s.inodesNum)
    (isFile : (s.nodeTab file).type = .file) (returned : s.increase file sizeAmount = .ok (out, s')) :
    0 < (s.nodeTab file).size := by
  by_contra empty
  have zero : (s.nodeTab file).size = 0 := Nat.eq_zero_of_not_pos empty
  have sized := blocks.sized file inRange isFile
  rw [zero, blocksFor_zero, List.length_eq_zero_iff] at sized
  exact increase_empty blocks.pool inRange sized _ returned

theorem Navigable.inRange_of_named (navigable : s.Navigable chain) (named : s.Named chain file) :
    file < s.inodesNum := by
  obtain ⟨d, bounded, e, listed, rfl⟩ := named
  exact navigable.inRange d bounded e listed

def Supplied (s : VirtualDisc) : Effect → Prop
  | .copy _ _ _ => s.freeNodes ≠ []
  | _ => True

theorem Enough.supplied (enough : s.Enough effect) : s.Supplied effect := by
  cases effect with
  | copy dir filename content => exact List.length_pos_iff.mp enough.2
  | nothing => trivial
  | makeDir dir names => trivial
  | link dir filename file => trivial
  | unlink dir filename file => trivial
  | decrease file sizeAmount => trivial
  | increase file sizeAmount => trivial

/-- Whatever returns has had the blocks it needs; a copy without an inode for it is refused. -/
theorem performed_or_refused (blocks : s.BlockConsistent chain) (navigable : s.Navigable chain)
    (valid : s.Valid chain effect) (returned : s.perform effect = .ok (out, s')) :
    (∃ chain', s.Performed chain effect s' chain') ∧ s.Supplied effect ∨ s' = s ∧ ¬ s.Supplied effect := by
  cases effect with
  | nothing =>
    cases returned
    exact .inl ⟨⟨chain, .nothing⟩, trivial⟩
  | makeDir dir names =>
    obtain ⟨found, name, rest, rfl, absent⟩ := valid
    obtain ⟨extra, chain', made⟩ := makeDirFrom_made blocks found.inRange found.directory _ (absent_head absent) returned
    exact .inl ⟨⟨chain', .makeDir made⟩, trivial⟩
  | copy dir filename content =>
    obtain ⟨found, _⟩ := valid
    by_cases free : s.freeNodes = []
    · have none_ : s.findFreeNode = none32 := findFreeNode_eq_none32_iff.mpr free
      simp only [perform, copyInto, none_, if_true] at returned
      cases returned
      exact .inr ⟨rfl, not_not.mpr free⟩
    · obtain ⟨chain', extra, entered, isFile, one, adds⟩ := copyInto_entered blocks found.inRange found.directory free
        returned
      exact .inl ⟨⟨chain', .copy entered isFile one adds⟩, free⟩
  | link dir filename file =>
    obtain ⟨found, named⟩ := valid
    obtain ⟨chain', extra, entered, type, references, adds⟩ := linkInto_entered blocks found.inRange found.directory
      (navigable.inRange_of_named named) returned
    exact .inl ⟨⟨chain', .link entered type references adds⟩, trivial⟩
  | unlink dir filename file =>
    obtain ⟨found, place, placed, names⟩ := valid
    obtain ⟨rfl, unlinking⟩ := silent_eq_ok.mp returned
    obtain ⟨t, chain', removing, nodes, unlinked⟩ := unlinkFrom_unlinked blocks found.inRange placed unlinking
    exact .inl ⟨⟨chain', .unlink placed names removing nodes unlinked⟩, trivial⟩
  | decrease file sizeAmount =>
    obtain ⟨named, isFile, _⟩ := valid
    obtain ⟨t, keep, decreased, resized, length⟩ := decrease_resized sizeAmount blocks
      (navigable.inRange_of_named named) isFile
    obtain ⟨rfl, again⟩ := silent_eq_ok.mp returned
    cases decreased.symm.trans again
    exact .inl ⟨⟨_, .decrease resized length⟩, trivial⟩
  | increase file sizeAmount =>
    obtain ⟨named, isFile⟩ := valid
    have inRange := navigable.inRange_of_named named
    -- without a last block, or with too few free ones, it would not have returned
    have nonEmpty := nonEmpty_of_increase blocks inRange isFile returned
    have enough : blocksFor ((s.nodeTab file).size + sizeAmount) - blocksFor (s.nodeTab file).size ≤
        s.freeBlocks.length := by
      by_contra short
      exact increase_short (Nat.lt_of_not_le short) _ returned
    obtain ⟨t, grown, increased, resized, length⟩ := increase_resized blocks inRange isFile nonEmpty enough
    simp only [perform] at returned
    rw [increased] at returned
    cases returned
    exact .inl ⟨⟨_, .increase resized length⟩, trivial⟩

theorem performed (blocks : s.BlockConsistent chain) (navigable : s.Navigable chain) (valid : s.Valid chain effect)
    (enough : s.Enough effect) (returned : s.perform effect = .ok (out, s')) :
    ∃ chain', s.Performed chain effect s' chain' :=
  ((performed_or_refused blocks navigable valid returned).resolve_right fun refused =>
    refused.2 enough.supplied).1

/-- A command that returns has performed its effect, or was refused and left the disc as it was. -/
theorem exec_performed_or_refused (blocks : s.BlockConsistent chain) (navigable : s.Navigable chain)
    {command : Command} (executed : s.exec command = .ok (out, s')) :
    (∃ out' chain', s.perform (s.effect command) = .ok (out', s') ∧ s.Performed chain (s.effect command) s' chain' ∧
      s.Supplied (s.effect command)) ∨ s' = s := by
  obtain ⟨out', returned⟩ := (exec_prefixed navigable command).ok_iff.mp ⟨out, executed⟩
  rcases performed_or_refused blocks navigable (effect_valid navigable command) returned with
    ⟨⟨chain', done⟩, supplied⟩ | ⟨same, _⟩
  · exact .inl ⟨out', chain', returned, done, supplied⟩
  · exact .inr same

theorem exec_performed (blocks : s.BlockConsistent chain) (navigable : s.Navigable chain) {command : Command}
    (enough : s.Enough (s.effect command)) (executed : s.exec command = .ok (out, s')) :
    ∃ chain', s.Performed chain (s.effect command) s' chain' := by
  obtain ⟨out', returned⟩ := (exec_prefixed navigable command).ok_iff.mp ⟨out, executed⟩
  exact performed blocks navigable (effect_valid navigable command) enough returned

theorem Performed.blocks (performed : s.Performed chain effect s' chain') (blocks : s.BlockConsistent chain)
    (valid : s.Valid chain effect) : s'.BlockConsistent chain' := by
  cases performed with
  | nothing => exact blocks
  | makeDir made => exact made.blocks blocks
  | copy entered _ _ _ => exact entered.blocks
  | link entered _ _ _ => exact entered.blocks
  | unlink _ _ _ _ unlinked => exact unlinked.blocks
  | decrease resized length => exact blocks.resized resized valid.2.1 length
  | increase resized length => exact blocks.resized resized valid.2 length

/-! ## What the other files hold -/

def content (s : VirtualDisc) (i : Nat) : List UInt8 := s.contentOn (s.chainOf i) (s.nodeTab i).size

def Resizes (effect : Effect) (i : Nat) : Prop :=
  match effect with
  | .decrease file _ | .increase file _ => i = file
  | _ => False

theorem Found.ne (found : s.Found chain dir) (isFile : (s.nodeTab i).type = .file) : i ≠ dir := by
  rintro rfl
  rw [found.directory] at isFile
  cases isFile

theorem Performed.superblock (performed : s.Performed chain effect s' chain') : s'.superblock = s.superblock := by
  cases performed with
  | nothing => rfl
  | makeDir made => exact made.superblock
  | copy entered _ _ _ => exact entered.superblock
  | link entered _ _ _ => exact entered.superblock
  | unlink _ _ _ _ unlinked => exact unlinked.superblock
  | decrease resized _ => exact resized.superblock
  | increase resized _ => exact resized.superblock

theorem Performed.kept (performed : s.Performed chain effect s' chain') (valid : s.Valid chain effect)
    (bounded : i < s.inodesNum) (isFile : (s.nodeTab i).type = .file) (notResized : ¬ Resizes effect i)
    (notFreed : (s'.nodeTab i).type ≠ .empty) : Kept s chain s' chain' i := by
  have live : (s.nodeTab i).type ≠ .empty := by simp [isFile]
  cases performed with
  | nothing => exact .refl s chain i
  | makeDir made => exact (made.frame bounded live).2.2 (valid.1.ne isFile)
  | copy entered _ _ _ => exact entered.kept i bounded (valid.1.ne isFile) live
  | link entered _ _ _ => exact entered.kept i bounded (valid.1.ne isFile) live
  | unlink _ _ _ _ unlinked => exact unlinked.kept i bounded (valid.1.ne isFile) notFreed
  | decrease resized _ => exact resized.kept bounded notResized
  | increase resized _ => exact resized.kept bounded notResized

theorem Kept.content (kept : Kept s chain s' chain' i) (pool : s.PoolOf chain) (pool' : s'.PoolOf chain')
    (bounded : i < s.inodesNum) (bounded' : i < s'.inodesNum) : s'.content i = s.content i := by
  unfold VirtualDisc.content
  rw [pool.chainOf_eq bounded, pool'.chainOf_eq bounded', kept.blocks, kept.size]
  exact contentOn_congr kept.data _

/-- A command leaves the regular files that it neither resizes nor frees as they are. -/
theorem exec_keeps_files (consistent : s.Consistent) (command : Command) (enough : s.Enough (s.effect command))
    (executed : s.exec command = .ok (out, s')) (bounded : i < s.inodesNum) (isFile : (s.nodeTab i).type = .file)
    (notResized : ¬ Resizes (s.effect command) i) (notFreed : (s'.nodeTab i).type ≠ .empty) :
    (s'.nodeTab i).type = .file ∧ (s'.nodeTab i).size = (s.nodeTab i).size ∧ s'.content i = s.content i := by
  obtain ⟨chain, blocks, directories⟩ := consistent
  have navigable := directories.navigable blocks
  have valid := effect_valid navigable command
  obtain ⟨chain', done⟩ := exec_performed blocks navigable enough executed
  have kept := done.kept valid bounded isFile notResized notFreed
  have bounded' : i < s'.inodesNum := by
    rw [inodesNum, done.superblock]
    exact bounded
  exact ⟨kept.type.trans isFile, kept.size, kept.content blocks.pool (done.blocks blocks valid).pool bounded bounded'⟩

theorem exec_keeps_files_three :
    let s := smallDisc.after (.copyFileToDisc ⟨[102], by decide⟩ rootPath [1, 2, 3])
    let s' := s.after (.makeDir ⟨[97], by decide⟩)
    (s'.nodeTab 1).type = .file ∧ (s'.nodeTab 1).size = (s.nodeTab 1).size ∧ s'.content 1 = s.content 1 := by
  intro s s'
  have consistent : s.Consistent := after_consistent (blank_consistent (by decide +kernel)) _ (by decide +kernel)
    (by decide +kernel) (by decide +kernel) (by decide +kernel)
  have returns : (s.exec (.makeDir ⟨[97], by decide⟩)).isOk = true := by decide +kernel
  obtain ⟨out, executed⟩ := exec_after returns
  have notResized : ¬ Resizes (s.effect (.makeDir ⟨[97], by decide⟩)) 1 := by
    have kind : s.effect (.makeDir ⟨[97], by decide⟩) = .makeDir 0 [⟨[97], by decide⟩] := by decide +kernel
    rw [kind]
    exact id
  exact exec_keeps_files consistent _ (by decide +kernel) executed (by decide +kernel) (by decide +kernel) notResized
    (by decide +kernel)

end VirtualDisc
end SoiStud.FileSystem
