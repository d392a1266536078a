import SoiStud.FileSystem.Making
import SoiStud.FileSystem.Unlinking

/-! Commands that enter each name once and count it keep a disc consistent.

An insertion can give a directory more than the one entry it is for: it writes
the element into every block that has an unused slot, and a block taken for it
brings along the used elements it held before.
-/

set_option autoImplicit false

namespace SoiStud.FileSystem
namespace VirtualDisc

open Library

/-- What the effect enters is entered once, under the index of its inode. -/
def EntersOnce (s : VirtualDisc) : Effect → Prop
  | .makeDir dir names => s.MakesOnly (s.chainOf dir) names.length ∧ ∀ i ∈ s.freeNodes.take names.length, i < 2 ^ 16
  | .copy dir _ _ => s.AddsOnly (s.chainOf dir) ∧ s.findFreeNode < 2 ^ 16
  | .link dir _ _ => s.AddsOnly (s.chainOf dir)
  | _ => True

/-- The reference count has room for one more. -/
def CountFits (s : VirtualDisc) : Effect → Prop
  | .link _ _ file => (s.nodeTab file).referencesNum ≠ 255
  | _ => True

def OnNonEmpty (s : VirtualDisc) : Effect → Prop
  | .increase file _ => 0 < (s.nodeTab file).size
  | _ => True

instance (s : VirtualDisc) (effect : Effect) : Decidable (s.EntersOnce effect) :=
  match effect with
  | .makeDir _ _ => inferInstanceAs (Decidable (_ ∧ _))
  | .copy _ _ _ => inferInstanceAs (Decidable (_ ∧ _))
  | .link dir _ _ => inferInstanceAs (Decidable (s.AddsOnly (s.chainOf dir)))
  | .nothing | .unlink _ _ _ | .decrease _ _ | .increase _ _ => .isTrue trivial

instance (s : VirtualDisc) (effect : Effect) : Decidable (s.CountFits effect) :=
  match effect with
  | .link _ _ file => inferInstanceAs (Decidable ((s.nodeTab file).referencesNum ≠ 255))
  | .nothing | .makeDir _ _ | .copy _ _ _ | .unlink _ _ _ | .decrease _ _ | .increase _ _ => .isTrue trivial

instance (s : VirtualDisc) (effect : Effect) : Decidable (s.OnNonEmpty effect) :=
  match effect with
  | .increase file _ => inferInstanceAs (Decidable (0 < (s.nodeTab file).size))
  | .nothing | .makeDir _ _ | .copy _ _ _ | .link _ _ _ | .unlink _ _ _ | .decrease _ _ => .isTrue trivial

variable {s s' : VirtualDisc} {chain chain' : Nat → List Nat} {dir file i j : Nat} {filename : CString}
  {elem : DirectoryElement} {extra : List DirectoryElement}

/-! ## One entry -/

theorem newElem_inodeId (name : CString) (small : j < 2 ^ 16) : (newElem name j).inodeId = j :=
  Nat.mod_eq_of_lt small

theorem Entered.naming (entered : s.Entered chain dir j elem extra s' chain') (inRange : dir < s.inodesNum) (i : Nat) :
    s'.naming chain' i = s.naming chain i + (elem :: extra).countP fun e => e.inodeId = i :=
  naming_gain (inodesNum_eq entered.superblock) inRange entered.inserted entered.others i

theorem Entered.nameable (entered : s.Entered chain dir j elem extra s' chain') (nameable : s'.Nameable j)
    (before : s.Nameable i) : s'.Nameable i := by
  by_cases same : i = j
  · exact same ▸ nameable
  · unfold Nameable at before ⊢
    rw [inodesNum, entered.superblock, entered.types i same]
    exact before

theorem DirectoryConsistent.entered (directories : s.DirectoryConsistent chain) (inRange : dir < s.inodesNum)
    (entered : s.Entered chain dir j elem [] s' chain') (names : elem.inodeId = j) (nameable : s'.Nameable j)
    (count : (s'.nodeTab j).referencesNum.toNat = s.naming chain j + 1) : s'.DirectoryConsistent chain' := by
  have size := inodesNum_eq entered.superblock
  constructor
  · rw [size]
    exact directories.inodes
  · rw [entered.types 0 nameable.2.2.symm]
    exact directories.root
  · intro d bounded e listed
    rw [size] at bounded
    by_cases here : d = dir
    · subst here
      rcases List.mem_append.mp (entered.inserted.mem_iff.mp listed) with old | new
      · exact entered.nameable nameable (directories.named d bounded e old)
      · rw [List.mem_singleton.mp new, names]
        exact nameable
    · rw [entered.others d bounded here] at listed
      exact entered.nameable nameable (directories.named d bounded e listed)
  · intro i bounded notRoot live
    rw [size] at bounded
    rw [entered.naming inRange i]
    by_cases same : i = j
    · subst same
      simp [count, names]
    · rw [entered.types i same] at live
      rw [entered.references i same, directories.counted i bounded notRoot live]
      simp [names, Ne.symm same]

theorem DirectoryConsistent.naming_empty (directories : s.DirectoryConsistent chain)
    (empty : (s.nodeTab j).type = .empty) : s.naming chain j = 0 :=
  naming_eq_zero fun d bounded e listed names =>
    (directories.named d bounded e listed).2.1 (by rw [names, empty])

theorem DirectoryConsistent.ne_root (directories : s.DirectoryConsistent chain)
    (empty : (s.nodeTab j).type = .empty) : j ≠ 0 := by
  rintro rfl
  rw [directories.root] at empty
  cases empty

/-! ## The commands that enter names -/

theorem DirectoryConsistent.created (directories : s.DirectoryConsistent chain) (inRange : dir < s.inodesNum)
    (created : s.Created chain dir filename j s' chain') (once : s.AddsOnlyDir (chain dir)) (small : j < 2 ^ 16) :
    s'.DirectoryConsistent chain' := by
  obtain ⟨bounded, empty⟩ := created.fresh
  have entered := created.entered
  rw [extraDir_eq_nil_iff.mpr once] at entered
  have size := inodesNum_eq entered.superblock
  apply directories.entered inRange entered (newElem_inodeId filename small)
  · refine ⟨by rwa [size], ?_, directories.ne_root empty⟩
    simp [created.directory]
  · rw [created.references, directories.naming_empty empty]
    rfl

theorem DirectoryConsistent.made {names : List CString} (directories : s.DirectoryConsistent chain)
    (inRange : dir < s.inodesNum) (made : Made s chain dir names extra s' chain') (none_ : extra = [])
    (small : ∀ i ∈ s.freeNodes.take names.length, i < 2 ^ 16) : s'.DirectoryConsistent chain' := by
  induction made with
  | stop _ => exact directories
  | @next s t s' chain chainT chain' dir j name rest extra created _ ih =>
    have size := inodesNum_eq created.entered.superblock
    rw [List.append_eq_nil_iff, extraDir_eq_nil_iff] at none_
    rw [created.nodes, List.length_cons, List.take_succ_cons] at small
    apply ih (directories.created inRange created none_.1 (small j List.mem_cons_self))
    · rw [size]
      exact created.fresh.1
    · exact none_.2
    · intro i member
      exact small i (List.mem_cons_of_mem _ member)

theorem DirectoryConsistent.copied (directories : s.DirectoryConsistent chain) (inRange : dir < s.inodesNum)
    (free : s.freeNodes ≠ [])
    (entered : s.Entered chain dir s.findFreeNode (newElem filename s.findFreeNode) [] s' chain')
    (isFile : (s'.nodeTab s.findFreeNode).type = .file) (one : (s'.nodeTab s.findFreeNode).referencesNum = 1)
    (small : s.findFreeNode < 2 ^ 16) : s'.DirectoryConsistent chain' := by
  obtain ⟨bounded, empty⟩ := findFreeNode_spec free
  have size := inodesNum_eq entered.superblock
  apply directories.entered inRange entered (newElem_inodeId filename small)
  · refine ⟨by rwa [size], ?_, directories.ne_root empty⟩
    simp [isFile]
  · rw [one, directories.naming_empty empty]
    rfl

theorem toNat_succ {n : UInt8} (room : n ≠ 255) : (n + 1).toNat = n.toNat + 1 := by
  have small := n.toNat_lt
  have other : n.toNat ≠ 255 := fun same => room (UInt8.toNat_inj.mp same)
  rw [UInt8.toNat_add]
  simp only [UInt8.reduceToNat]
  omega

theorem DirectoryConsistent.nameable_of_named (directories : s.DirectoryConsistent chain) (named : s.Named chain file) :
    s.Nameable file := by
  obtain ⟨d, bounded, e, listed, rfl⟩ := named
  exact directories.named d bounded e listed

theorem DirectoryConsistent.linked (directories : s.DirectoryConsistent chain) (inRange : dir < s.inodesNum)
    (named : s.Named chain file) (entered : s.Entered chain dir file (newElem filename file) [] s' chain')
    (type : (s'.nodeTab file).type = (s.nodeTab file).type)
    (references : (s'.nodeTab file).referencesNum = (s.nodeTab file).referencesNum + 1)
    (room : (s.nodeTab file).referencesNum ≠ 255) : s'.DirectoryConsistent chain' := by
  have nameable := directories.nameable_of_named named
  have size := inodesNum_eq entered.superblock
  obtain ⟨d, bounded, e, listed, rfl⟩ := named
  apply directories.entered inRange entered (newElem_inodeId filename (entries_small listed))
  · unfold Nameable
    rw [size, type]
    exact nameable
  · rw [references, toNat_succ room, directories.counted _ nameable.1 nameable.2.2 nameable.2.1]

/-! ## The commands that change sizes -/

theorem DirectoryConsistent.congr (directories : s.DirectoryConsistent chain)
    (superblock : s'.superblock = s.superblock) (types : ∀ i, (s'.nodeTab i).type = (s.nodeTab i).type)
    (references : ∀ i, (s'.nodeTab i).referencesNum = (s.nodeTab i).referencesNum)
    (entries : ∀ d < s.inodesNum, s'.entries chain' d = s.entries chain d) : s'.DirectoryConsistent chain' := by
  have size := inodesNum_eq superblock
  constructor
  · rw [size]
    exact directories.inodes
  · rw [types]
    exact directories.root
  · intro d bounded e listed
    rw [size] at bounded
    rw [entries d bounded] at listed
    unfold Nameable
    rw [size, types]
    exact directories.named d bounded e listed
  · intro i bounded notRoot live
    rw [size] at bounded
    rw [types] at live
    rw [references, directories.counted i bounded notRoot live]
    unfold naming
    rw [size]
    apply Finset.sum_congr rfl
    intro d member
    rw [entries d (Finset.mem_range.mp member)]

theorem DirectoryConsistent.resized {blocks : List Nat} {size : Nat} (directories : s.DirectoryConsistent chain)
    (resized : s.Resized chain file blocks size s') (isFile : (s.nodeTab file).type = .file) :
    s'.DirectoryConsistent (Function.update chain file blocks) :=
  directories.congr resized.superblock resized.type resized.references fun _ bounded =>
    resized.entries isFile bounded

theorem decrease_resized (sizeAmount : Nat) (blocks : s.BlockConsistent chain) (inRange : file < s.inodesNum)
    (isFile : (s.nodeTab file).type = .file) : ∃ s' keep, s.decrease file sizeAmount = .ok s' ∧
      s.Resized chain file keep ((s.nodeTab file).size - sizeAmount) s' ∧
      keep.length = blocksFor ((s.nodeTab file).size - sizeAmount) := by
  have fewer : blocksFor ((s.nodeTab file).size - sizeAmount) ≤ (chain file).length := by
    rw [blocks.sized file inRange isFile]
    exact Nat.div_le_div_right (by omega)
  obtain ⟨s', returned, resized⟩ := decrease_spec blocks.pool inRange fewer
  exact ⟨s', _, returned, resized, by rw [List.length_take, Nat.min_eq_left fewer]⟩

theorem increase_resized {sizeAmount : Nat} (blocks : s.BlockConsistent chain) (inRange : file < s.inodesNum)
    (isFile : (s.nodeTab file).type = .file) (nonEmpty : 0 < (s.nodeTab file).size)
    (enough : blocksFor ((s.nodeTab file).size + sizeAmount) - blocksFor (s.nodeTab file).size ≤
      s.freeBlocks.length) : ∃ s' grown, s.increase file sizeAmount = .ok ([], s') ∧
      s.Resized chain file grown ((s.nodeTab file).size + sizeAmount) s' ∧
      grown.length = blocksFor ((s.nodeTab file).size + sizeAmount) := by
  have sized := blocks.sized file inRange isFile
  have more : blocksFor (s.nodeTab file).size ≤ blocksFor ((s.nodeTab file).size + sizeAmount) :=
    Nat.div_le_div_right (by omega)
  obtain ⟨s', taken, returned, rfl, resized, _⟩ := increase_spec blocks.pool inRange sized nonEmpty enough
  refine ⟨s', _, returned, resized, ?_⟩
  rw [List.length_append, List.length_take, Nat.min_eq_left enough, sized]
  omega

/-! ## The chains of a consistent disc -/

theorem Consistent.directories (consistent : s.Consistent) (pool : s.PoolOf chain) : s.DirectoryConsistent chain := by
  obtain ⟨chain', blocks, directories⟩ := consistent
  have same : ∀ i < s.inodesNum, chain i = chain' i := fun i bounded => by
    rw [← pool.chainOf_eq bounded, blocks.pool.chainOf_eq bounded]
  have entries : ∀ d < s.inodesNum, s.entries chain d = s.entries chain' d := fun d bounded => by
    unfold VirtualDisc.entries
    rw [same d bounded]
  exact directories.congr rfl (fun _ => rfl) (fun _ => rfl) entries

theorem Consistent.chainOf (consistent : s.Consistent) :
    s.BlockConsistent s.chainOf ∧ s.DirectoryConsistent s.chainOf := by
  obtain ⟨chain, blocks, directories⟩ := consistent
  have pool : s.PoolOf s.chainOf := blocks.pool.congr fun i bounded => blocks.pool.chainOf_eq bounded
  refine ⟨⟨pool, blocks.empty, ?_⟩, Consistent.directories ⟨chain, blocks, directories⟩ pool⟩
  intro i bounded isFile
  rw [blocks.pool.chainOf_eq bounded]
  exact blocks.sized i bounded isFile

/-! ## Any command -/

/-- A command that enters once and counts what it enters leaves a consistent disc. -/
theorem perform_consistent {effect : Effect} (blocks : s.BlockConsistent chain)
    (directories : s.DirectoryConsistent chain) (valid : s.Valid chain effect) (enough : s.Enough effect)
    (nonEmpty : s.OnNonEmpty effect) (once : s.EntersOnce effect) (fits : s.CountFits effect) :
    ∃ out s', s.perform effect = .ok (out, s') ∧ s'.Consistent := by
  -- each effect returns, and keeps what the blocks and the directories have to be
  cases effect with
  | nothing => exact ⟨[], s, rfl, chain, blocks, directories⟩
  | makeDir dir names =>
    obtain ⟨found, name, rest, rfl, absent⟩ := valid
    obtain ⟨enoughBlocks, enoughNodes⟩ := enough
    simp only [blocksNeeded, inodesNeeded, EntersOnce,
      blocks.pool.chainOf_eq found.inRange] at enoughBlocks enoughNodes once
    obtain ⟨out, s', returned⟩ := makeDirFrom_ok blocks.pool blocks.empty found.inRange found.directory (name :: rest)
      (absent_head absent) enoughNodes enoughBlocks
    obtain ⟨extra, chain', made⟩ := makeDirFrom_made blocks found.inRange found.directory _ (absent_head absent) returned
    have none_ := (made.extra_eq_nil_iff (by simp) enoughNodes).mpr once.1
    exact ⟨out, s', returned, chain', made.blocks blocks, directories.made found.inRange made none_ once.2⟩
  | copy dir filename content =>
    obtain ⟨found, _⟩ := valid
    obtain ⟨enoughBlocks, enoughNodes⟩ := enough
    simp only [blocksNeeded, inodesNeeded, EntersOnce,
      blocks.pool.chainOf_eq found.inRange] at enoughBlocks enoughNodes once
    have free : s.freeNodes ≠ [] := List.length_pos_iff.mp enoughNodes
    obtain ⟨s', returned⟩ := copyInto_ok filename blocks found.inRange free enoughBlocks once.1
    obtain ⟨chain', extra, entered, isFile, one, adds⟩ := copyInto_entered blocks found.inRange found.directory free
      returned
    rw [adds.mpr once.1] at entered
    exact ⟨[], s', returned, chain', entered.blocks,
      directories.copied found.inRange free entered isFile one once.2⟩
  | link dir filename file =>
    obtain ⟨found, named⟩ := valid
    obtain ⟨enoughBlocks, _⟩ := enough
    simp only [blocksNeeded, EntersOnce, blocks.pool.chainOf_eq found.inRange] at enoughBlocks once
    have bounded := (directories.nameable_of_named named).1
    obtain ⟨s', returned⟩ := linkInto_ok filename blocks found.inRange bounded enoughBlocks once
    obtain ⟨chain', extra, entered, type, references, adds⟩ := linkInto_entered blocks found.inRange found.directory
      bounded returned
    rw [adds.mpr once] at entered
    exact ⟨[], s', returned, chain', entered.blocks,
      directories.linked found.inRange named entered type references fits⟩
  | unlink dir filename file =>
    obtain ⟨found, place, placed, named⟩ := valid
    obtain ⟨s', chain', returned, unlinked, directories'⟩ := unlinkFrom_ok blocks directories found placed named
    exact ⟨[], s', by simp only [perform, returned, Except.map], chain', unlinked.blocks, directories'⟩
  | decrease file sizeAmount =>
    obtain ⟨named, isFile, _⟩ := valid
    obtain ⟨s', keep, returned, resized, length⟩ := decrease_resized sizeAmount blocks
      (directories.nameable_of_named named).1 isFile
    exact ⟨[], s', by simp only [perform, returned, Except.map], _, blocks.resized resized isFile length,
      directories.resized resized isFile⟩
  | increase file sizeAmount =>
    obtain ⟨named, isFile⟩ := valid
    obtain ⟨s', grown, returned, resized, length⟩ := increase_resized blocks
      (directories.nameable_of_named named).1 isFile nonEmpty enough.1
    exact ⟨[], s', returned, _, blocks.resized resized isFile length, directories.resized resized isFile⟩

theorem exec_consistent (consistent : s.Consistent) (command : Command) (enough : s.Enough (s.effect command))
    (nonEmpty : s.OnNonEmpty (s.effect command)) (once : s.EntersOnce (s.effect command))
    (fits : s.CountFits (s.effect command)) : ∃ out s', s.exec command = .ok (out, s') ∧ s'.Consistent := by
  obtain ⟨chain, blocks, directories⟩ := consistent
  have navigable := directories.navigable blocks
  obtain ⟨out, s', returned, consistent'⟩ := perform_consistent blocks directories (effect_valid navigable command)
    enough nonEmpty once fits
  obtain ⟨out', executed⟩ := (exec_prefixed navigable command).ok_iff.mpr ⟨out, returned⟩
  exact ⟨out', s', executed, consistent'⟩

theorem after_consistent (consistent : s.Consistent) (command : Command) (enough : s.Enough (s.effect command))
    (nonEmpty : s.OnNonEmpty (s.effect command)) (once : s.EntersOnce (s.effect command))
    (fits : s.CountFits (s.effect command)) : (s.after command).Consistent := by
  obtain ⟨out, s', executed, consistent'⟩ := exec_consistent consistent command enough nonEmpty once fits
  rw [after, executed]
  exact consistent'

end VirtualDisc
end SoiStud.FileSystem
