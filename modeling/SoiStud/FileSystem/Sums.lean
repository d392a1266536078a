import SoiStud.FileSystem.Additions
import SoiStud.FileSystem.Listing
import SoiStud.FileSystem.Naming
import SoiStud.FileSystem.Reachability

/-! What the two sums of `ls` add up.

The sum over directories below takes every file that entries lead to once. The
sum of one directory takes every entry, so a file that is linked again in the
same directory counts twice.
-/

set_option autoImplicit false

namespace SoiStud.FileSystem
namespace VirtualDisc

open Library

variable {s s' t : VirtualDisc} {chain chain' : Nat → List Nat} {dir file i j : Nat} {filename : CString}
  {effect : Effect} {out : List Output}

/-! ## Only files have sizes -/

def Weightless (s : VirtualDisc) : Prop := ∀ i, (s.nodeTab i).type ≠ .file → (s.nodeTab i).size = 0

theorem Weightless.withNode (weightless : s.Weightless) (j : Nat) {node : Inode}
    (none_ : node.type ≠ .file → node.size = 0) : (s.withNode j node).Weightless := by
  intro i other
  rw [withNode_nodeTab] at other ⊢
  by_cases same : i = j
  · subst same
    rw [Function.update_self] at other ⊢
    exact none_ other
  · rw [Function.update_of_ne same] at other ⊢
    exact weightless i other

theorem Weightless.withReferences (weightless : s.Weightless) (j : Nat) (n : UInt8) :
    (s.withReferences j n).Weightless := weightless.withNode j (weightless j)

theorem Weightless.placed {elem : DirectoryElement} {slots : List (Nat × Nat)} (weightless : s.Weightless)
    (placed : s.Placed chain dir elem slots t chain') : t.Weightless := by
  intro i other
  rw [placed.nodes i] at other ⊢
  exact weightless i other

theorem Weightless.makeDirFrom (weightless : s.Weightless) (pool : s.PoolOf chain) (names : List CString)
    (returned : makeDirFrom names s dir = .ok (out, s')) : s'.Weightless := by
  induction names generalizing s chain dir out with
  | nil =>
    cases returned
    exact weightless
  | cons name rest ih =>
    cases makeDirFrom_component pool returned with
    | blocked _ _ _ => exact weightless
    | full _ _ _ => exact weightless
    | follows _ _ _ walked => exact ih weightless pool walked
    | makes _ free _ placed _ walked =>
      have empty := (findFreeNode_spec free).2
      have allocated : (s.allocate s.findFreeNode .directory (s.nodeTab s.findFreeNode).size).Weightless :=
        weightless.withNode _ fun _ => weightless _ (by simp [empty])
      exact ih (allocated.placed placed) placed.pool walked

theorem Weightless.removeFile (fuel : Nat) : Within (fun s s' => s.Weightless → s'.Weightless) (removeFile fuel) := by
  induction fuel with
  | zero =>
    intro s file s' returned
    cases returned
  | succ fuel ih =>
    intro s file s' returned weightless
    obtain ⟨node, read, returned⟩ := bind_eq_ok.mp returned
    have fewer := weightless.withReferences file (node.referencesNum - 1)
    dsimp only at returned
    split at returned
    next =>
      cases returned
      exact fewer
    next =>
      obtain ⟨u, entries, returned⟩ := bind_eq_ok.mp returned
      obtain ⟨v, freed, returned⟩ := bind_eq_ok.mp returned
      obtain ⟨ids, _, released⟩ := bind_eq_ok.mp freed
      have weightlessU := removeEntries_within (R := fun s s' => s.Weightless → s'.Weightless) (fun _ => id)
        (fun _ _ _ first second => second ∘ first) ih entries fewer
      cases released
      cases returned
      -- the inode removed loses its size with its type
      apply Weightless.withNode
      · intro i other
        rw [released_nodeTab] at other ⊢
        exact weightlessU i other
      · intro _
        rfl

theorem Weightless.resized {blocks : List Nat} {size : Nat} (weightless : s.Weightless)
    (resized : s.Resized chain file blocks size s') (isFile : (s.nodeTab file).type = .file) : s'.Weightless := by
  intro i other
  by_cases same : i = file
  · subst same
    rw [resized.type] at other
    exact absurd isFile other
  · rw [resized.others i same] at other ⊢
    exact weightless i other

theorem Weightless.performed (weightless : s.Weightless) (pool : s.PoolOf chain) (valid : s.Valid chain effect)
    (supplied : s.Supplied effect) (returned : s.perform effect = .ok (out, s'))
    (performed : s.Performed chain effect s' chain') : s'.Weightless := by
  cases performed with
  | nothing => exact weightless
  | makeDir _ => exact weightless.makeDirFrom pool _ returned
  | copy _ isFile _ _ =>
    obtain ⟨found, _⟩ := valid
    -- only the inode of the copy gets a size, and that is a file
    obtain ⟨t, chainT, placed, _, _, _, others⟩ := copyInto_placed pool found.inRange found.directory supplied returned
    have weightlessT := (weightless.withNode _ fun other => absurd rfl other).placed placed
    intro i other
    by_cases same : i = s.findFreeNode
    · rw [same, isFile] at other
      exact absurd rfl other
    · rw [others i same] at other ⊢
      exact weightlessT i other
  | @link dir filename file _ _ _ _ _ _ _ =>
    obtain ⟨entry, _, entered⟩ := bind_eq_ok.mp returned
    obtain ⟨chainT, placed, _⟩ := (prepared_withReferences file _).placed pool valid.1.inRange entered
    exact (weightless.withReferences file _).placed placed
  | unlink _ _ removing nodes _ =>
    have removed := Weightless.removeFile _ s _ _ removing weightless
    intro i other
    rw [nodes] at other ⊢
    exact removed i other
  | decrease resized _ => exact weightless.resized resized valid.2.1
  | increase resized _ => exact weightless.resized resized valid.2

/-! ## No directory names an inode twice -/

/-- The directory that the effect enters an inode into does not name that inode. -/
def EntersUnnamed (s : VirtualDisc) : Effect → Prop
  | .makeDir dir _ | .copy dir _ _ => ∀ i ∈ s.freeNodes.head?, i ∉ s.inodesIn s.chainOf dir
  | .link dir _ file => file ∉ s.inodesIn s.chainOf dir
  | _ => True

instance (s : VirtualDisc) (effect : Effect) : Decidable (s.EntersUnnamed effect) :=
  match effect with
  | .makeDir _ _ | .copy _ _ _ => inferInstanceAs (Decidable (∀ _ ∈ _, _))
  | .link _ _ _ => inferInstanceAs (Decidable (_ ∉ _))
  | .nothing | .unlink _ _ _ | .decrease _ _ | .increase _ _ => .isTrue trivial

theorem PoolOf.inodesIn_chainOf (pool : s.PoolOf chain) (inRange : dir < s.inodesNum) :
    s.inodesIn s.chainOf dir = s.inodesIn chain dir := by
  rw [inodesIn, pool.entries_chainOf inRange, inodesIn]

theorem findFreeNode_mem_head (free : s.freeNodes ≠ []) : s.findFreeNode ∈ s.freeNodes.head? := by
  obtain ⟨j, rest, frees⟩ := List.exists_cons_of_ne_nil free
  rw [findFreeNode_eq, frees]
  rfl

theorem Unique.made {names : List CString} {extra : List DirectoryElement}
    (unique : s.Unique chain DirectoryElement.inodeId) (made : Made s chain dir names extra s' chain')
    (none_ : extra = []) (small : ∀ i ∈ s.freeNodes.take names.length, i < 2 ^ 16)
    (new : ∀ i ∈ s.freeNodes.head?, i ∉ s.inodesIn chain dir) : s'.Unique chain' DirectoryElement.inodeId := by
  induction made with
  | stop _ => exact unique
  | @next s t s' chain chainT chain' dir j name rest extra created _ ih =>
    rw [List.append_eq_nil_iff, extraDir_eq_nil_iff] at none_
    have entered := created.entered
    rw [extraDir_eq_nil_iff.mpr none_.1] at entered
    rw [created.nodes] at small new
    rw [List.length_cons, List.take_succ_cons] at small
    apply ih
    · apply unique.entered entered
      rw [newElem_inodeId name (small j List.mem_cons_self)]
      exact new j rfl
    · exact none_.2
    · intro i member
      exact small i (List.mem_cons_of_mem _ member)
    · -- the directory made is empty
      intro i _
      rw [inodesIn, entries_of_chain_nil created.empty]
      exact List.not_mem_nil

theorem Unique.performed (unique : s.Unique chain DirectoryElement.inodeId) (pool : s.PoolOf chain)
    (valid : s.Valid chain effect) (singly : s.EntersSingly effect) (unnamed : s.EntersUnnamed effect)
    (supplied : s.Supplied effect) (performed : s.Performed chain effect s' chain') :
    s'.Unique chain' DirectoryElement.inodeId := by
  cases performed with
  | nothing => exact unique
  | makeDir made =>
    obtain ⟨found, name, rest, rfl, _⟩ := valid
    obtain ⟨none_, small⟩ := made.once pool found.inRange (by simp) singly
    simp only [EntersUnnamed, pool.inodesIn_chainOf found.inRange] at unnamed
    exact unique.made made none_ small unnamed
  | copy entered _ _ adds =>
    obtain ⟨found, _⟩ := valid
    obtain ⟨once, small⟩ := singly.resolve_left supplied
    simp only [EntersUnnamed, pool.inodesIn_chainOf found.inRange] at unnamed
    rw [pool.chainOf_eq found.inRange] at once
    rw [adds.mpr once] at entered
    apply unique.entered entered
    rw [newElem_inodeId _ small]
    exact unnamed _ (findFreeNode_mem_head supplied)
  | link entered _ _ adds =>
    obtain ⟨found, d, boundedD, e, listed, rfl⟩ := valid
    have once : s.AddsOnly (s.chainOf _) := singly
    simp only [EntersUnnamed, pool.inodesIn_chainOf found.inRange] at unnamed
    rw [pool.chainOf_eq found.inRange] at once
    rw [adds.mpr once] at entered
    apply unique.entered entered
    rwa [newElem_inodeId _ (entries_small listed)]
  | unlink _ _ _ _ unlinked => exact unique.unlinked unlinked
  | decrease resized _ => exact unique.resized resized valid.2.1
  | increase resized _ => exact unique.resized resized valid.2

/-! ## Runs -/

structure Tidy (s : VirtualDisc) (chain : Nat → List Nat) : Prop where
  tracked : ∃ record, s.Tracked record chain
  unique : s.Unique chain DirectoryElement.inodeId
  weightless : s.Weightless

def Sole (s : VirtualDisc) (command : Command) (_ : VirtualDisc) : Prop :=
  s.EntersSingly (s.effect command) ∧ s.EntersUnnamed (s.effect command)

instance (s t : VirtualDisc) (command : Command) : Decidable (Sole s command t) := inferInstanceAs (Decidable (_ ∧ _))

theorem tidy_of_reachable (reached : (returning.restrict Sole).Reachable s) : ∃ chain, s.Tidy chain := by
  apply reached.invariant
  · rintro s ⟨fileName, size, rfl, inodes⟩
    refine ⟨fun _ => [], ⟨fun _ => [], blank_tracked inodes⟩, ?_, ?_⟩
    · intro d _
      rw [create, blank_entries]
      exact .nil
    · intro i _
      by_cases root : i = 0 <;> simp [create, blank, root]
  · rintro s command t ⟨chain, tidy⟩ ⟨⟨out, executed⟩, singly, unnamed⟩
    obtain ⟨record, tracked⟩ := tidy.tracked
    have pool := tracked.blocks.pool
    have navigable := tracked.navigable
    have valid := effect_valid navigable command
    rcases exec_performed_or_refused tracked.blocks navigable executed with ⟨_, chain', returned, done, supplied⟩ | same
    · exact ⟨chain', tracked.singly valid singly supplied done,
        tidy.unique.performed pool valid singly unnamed supplied done,
        tidy.weightless.performed pool valid supplied returned done⟩
    · exact ⟨chain, same ▸ tidy⟩

/-! ## The files that entries lead to -/

theorem Walkable.entries_chainOf (walkable : s.Walkable chain) (inRange : dir < s.inodesNum) :
    s.entries s.chainOf dir = s.entries chain dir := by
  by_cases directory : (s.nodeTab dir).type = .directory
  · rw [entries_of_directory directory, entries_of_directory directory,
      chainOf_eq_of_linked (walkable.linked dir inRange directory) (walkable.bounded dir inRange directory)]
  · rw [entries_of_ne directory, entries_of_ne directory]

theorem Walkable.leads_iff (walkable : s.Walkable chain) (inRange : dir < s.inodesNum) :
    s.Leads dir i ↔ i ∈ s.inodesIn chain dir := by
  rw [Leads, walkable.entries_chainOf inRange, inodesIn, List.mem_map]
  exact and_iff_right inRange

theorem Walkable.bounded_of_leads (walkable : s.Walkable chain) (leads : s.Leads dir i) : i < s.inodesNum := by
  obtain ⟨inRange, e, listed, rfl⟩ := leads
  rw [walkable.entries_chainOf inRange] at listed
  exact walkable.inRange dir inRange e listed

theorem Walkable.transGen_iff (walkable : s.Walkable chain) (inRange : dir < s.inodesNum) :
    Relation.TransGen (DepthFirst.Edge (s.inodesIn chain)) dir i ↔ Relation.TransGen s.Leads dir i := by
  constructor
  · intro path
    suffices both : i < s.inodesNum ∧ Relation.TransGen s.Leads dir i from both.2
    induction path with
    | single edge =>
      have leads := (walkable.leads_iff inRange).mpr edge
      exact ⟨walkable.bounded_of_leads leads, .single leads⟩
    | tail _ edge ih =>
      have leads := (walkable.leads_iff ih.1).mpr edge
      exact ⟨walkable.bounded_of_leads leads, .tail ih.2 leads⟩
  · intro path
    induction path with
    | single leads => exact .single ((walkable.leads_iff inRange).mp leads)
    | tail _ leads ih => exact .tail ih ((walkable.leads_iff leads.1).mp leads)

/-- The search finds what entries lead to. -/
theorem getSumFilesInDirRecursive_found (walkable : s.Walkable chain) (inRange : dir < s.inodesNum)
    (directory : (s.nodeTab dir).type = .directory) {fuel : Nat} (enough : s.inodesNum < fuel) :
    ∃ found, found.Nodup ∧ (∀ i, i ∈ found ↔ Relation.TransGen s.Leads dir i) ∧
      s.getSumFilesInDirRecursive fuel [] dir = .ok (found, s.fileSizes found % 2 ^ 64) := by
  have all : s.unchecked [] < fuel := by simpa [unchecked] using enough
  obtain ⟨found, returned, search⟩ := getSumFilesInDirRecursive_searches walkable fuel [] dir inRange directory all
  refine ⟨found, search.fresh.1, fun i => ?_, returned⟩
  rw [search.mem_iff, walkable.transGen_iff inRange]

theorem fileSizes_eq {found : List Nat} (unique : found.Nodup) :
    s.fileSizes found = ∑ i ∈ found.toFinset with (s.nodeTab i).type = .file, (s.nodeTab i).size := by
  rw [fileSizes, ← List.sum_toFinset _ unique, Finset.sum_filter]

/-- However directories are linked into each other, the sum ends, and is the sum
of the sizes of the files that entries lead to, each taken once. -/
theorem getSumFilesInDirRecursive_sums (walkable : s.Walkable chain) (inRange : dir < s.inodesNum)
    (directory : (s.nodeTab dir).type = .directory) {fuel : Nat} (enough : s.inodesNum < fuel) :
    ∃ checked, ∃ files : Finset Nat,
      (∀ i, i ∈ files ↔ (s.nodeTab i).type = .file ∧ Relation.TransGen s.Leads dir i) ∧
      s.getSumFilesInDirRecursive fuel [] dir = .ok (checked, (∑ i ∈ files, (s.nodeTab i).size) % 2 ^ 64) := by
  obtain ⟨found, unique, mem_found, returned⟩ := getSumFilesInDirRecursive_found walkable inRange directory enough
  rw [fileSizes_eq unique] at returned
  refine ⟨found, _, fun i => ?_, returned⟩
  rw [Finset.mem_filter, List.mem_toFinset, mem_found, and_comm]

def tangledDisc : VirtualDisc :=
  (((smallDisc.after (.makeDir dirName)).after (.copyFileToDisc fileName rootPath [1, 2, 3])).after
    (.link rootPath fileName dirName fileName)).after (.link rootPath dirName dirName linkName)

theorem tangledDisc_reachable : (returning.restrict Sole).Reachable tangledDisc := by
  have start : (returning.restrict Sole).Reachable smallDisc := .start ⟨_, _, rfl, by decide +kernel⟩
  have made := returning_after start (.makeDir dirName) (by decide +kernel) (by decide +kernel)
  have copied := returning_after made (.copyFileToDisc fileName rootPath [1, 2, 3]) (by decide +kernel)
    (by decide +kernel)
  have linked := returning_after copied (.link rootPath fileName dirName fileName) (by decide +kernel)
    (by decide +kernel)
  exact returning_after linked (.link rootPath dirName dirName linkName) (by decide +kernel) (by decide +kernel)

theorem getSumFilesInDirRecursive_sums_tangledDisc : ∃ checked, ∃ files : Finset Nat,
    (∀ i, i ∈ files ↔ (tangledDisc.nodeTab i).type = .file ∧ Relation.TransGen tangledDisc.Leads 0 i) ∧
    tangledDisc.getSumFilesInDirRecursive (tangledDisc.inodesNum + 1) [] 0 =
      .ok (checked, (∑ i ∈ files, (tangledDisc.nodeTab i).size) % 2 ^ 64) := by
  obtain ⟨chain, ⟨record, tracked⟩, _, _⟩ := tidy_of_reachable tangledDisc_reachable
  exact getSumFilesInDirRecursive_sums tracked.navigable.walkable tracked.inodes tracked.root (Nat.lt_add_one _)

example : tangledDisc.getSumFilesInDirRecursive (tangledDisc.inodesNum + 1) [] 0 = .ok ([1, 2], 3) := by decide +kernel

/-! ## The two sums -/

/-- The files on a disc take no more than its blocks. -/
theorem BlockConsistent.sum_size_le (blocks : s.BlockConsistent chain) {files : Finset Nat}
    (inTable : ∀ i ∈ files, i < s.inodesNum ∧ (s.nodeTab i).type = .file) :
    ∑ i ∈ files, (s.nodeTab i).size ≤ s.datablocksNum * blockSize := by
  have within : files ⊆ Finset.range s.inodesNum := fun i member => Finset.mem_range.mpr (inTable i member).1
  calc ∑ i ∈ files, (s.nodeTab i).size ≤ ∑ i ∈ files, (chain i).length * blockSize := by
        apply Finset.sum_le_sum
        intro i member
        rw [blocks.sized i (inTable i member).1 (inTable i member).2]
        exact le_blocksFor _
    _ ≤ ∑ i ∈ Finset.range s.inodesNum, (chain i).length * blockSize := Finset.sum_le_sum_of_subset within
    _ = (∑ i ∈ Finset.range s.inodesNum, (chain i).length) * blockSize := (Finset.sum_mul ..).symm
    _ ≤ s.datablocksNum * blockSize := Nat.mul_le_mul_right _ blocks.pool.sum_length_le

theorem Tidy.sizes_eq (tidy : s.Tidy chain) (inRange : dir < s.inodesNum) :
    s.sizes (s.inodesIn chain dir) =
      ∑ i ∈ (s.inodesIn chain dir).toFinset with (s.nodeTab i).type = .file, (s.nodeTab i).size := by
  have unique : (s.inodesIn chain dir).Nodup := tidy.unique dir inRange
  rw [sizes, ← List.sum_toFinset _ unique, Finset.sum_filter]
  apply Finset.sum_congr rfl
  intro i _
  split
  next => rfl
  next other => exact tidy.weightless i other

theorem Walkable.bounded_of_path (walkable : s.Walkable chain) (path : Relation.TransGen s.Leads dir i) :
    i < s.inodesNum := by
  obtain ⟨d, _, leads⟩ := Relation.TransGen.tail'_iff.mp path
  exact walkable.bounded_of_leads leads

/-- Where no entry names a directory, what entries lead to is what they name. -/
theorem mem_of_path (walkable : s.Walkable chain) (inRange : dir < s.inodesNum)
    (flat : ∀ i ∈ s.inodesIn chain dir, (s.nodeTab i).type ≠ .directory) (path : Relation.TransGen s.Leads dir i) :
    i ∈ s.inodesIn chain dir := by
  induction path with
  | single leads => exact (walkable.leads_iff inRange).mp leads
  | tail _ leads ih => exact absurd leads.directory (flat _ ih)

/-- In every run in which commands enter an inode once, and into directories that
do not name it, the sum of a directory is at most that of the directories below
it too, and the same where there is none below. -/
theorem sums_agree (reached : (returning.restrict Sole).Reachable s) (inRange : dir < s.inodesNum)
    (directory : (s.nodeTab dir).type = .directory) :
    ∃ sum checked deepSum, s.getSumFilesInDir dir = .ok sum ∧
      s.getSumFilesInDirRecursive (s.inodesNum + 1) [] dir = .ok (checked, deepSum) ∧ sum ≤ deepSum ∧
      ((∀ i ∈ s.inodesIn s.chainOf dir, (s.nodeTab i).type ≠ .directory) → sum = deepSum) := by
  obtain ⟨chain, tidy⟩ := tidy_of_reachable reached
  obtain ⟨record, tracked⟩ := tidy.tracked
  have walkable := tracked.navigable.walkable
  have shallow := getSumFilesInDir_eq walkable inRange directory
  obtain ⟨found, unique, mem_found, deep⟩ := getSumFilesInDirRecursive_found walkable inRange directory
    (Nat.lt_succ_self s.inodesNum)
  rw [tidy.sizes_eq inRange] at shallow
  rw [fileSizes_eq unique] at deep
  have mem_here : ∀ i ∈ s.inodesIn chain dir, i ∈ found := fun i member =>
    (mem_found i).mpr (.single ((walkable.leads_iff inRange).mpr member))
  have part : (s.inodesIn chain dir).toFinset.filter (fun i => (s.nodeTab i).type = .file) ⊆
      found.toFinset.filter fun i => (s.nodeTab i).type = .file := by
    apply Finset.filter_subset_filter
    intro i member
    rw [List.mem_toFinset] at member ⊢
    exact mem_here i member
  have sum_le := Finset.sum_le_sum_of_subset (f := fun i => (s.nodeTab i).size) part
  -- the files lie on blocks of their own, so neither sum wraps
  have fits : ∑ i ∈ found.toFinset with (s.nodeTab i).type = .file, (s.nodeTab i).size < 2 ^ 64 := by
    have inTable : ∀ i ∈ found.toFinset.filter (fun i => (s.nodeTab i).type = .file),
        i < s.inodesNum ∧ (s.nodeTab i).type = .file := by
      intro i member
      rw [Finset.mem_filter, List.mem_toFinset, mem_found] at member
      exact ⟨walkable.bounded_of_path member.1, member.2⟩
    have few := tracked.blocks.sum_size_le inTable
    have table : s.datablocksNum < 2 ^ 32 := s.superblock.datablocksNum_lt
    rw [blockSize] at few
    omega
  rw [Nat.mod_eq_of_lt (lt_of_le_of_lt sum_le fits)] at shallow
  rw [Nat.mod_eq_of_lt fits] at deep
  refine ⟨_, _, _, shallow, deep, sum_le, fun flat => ?_⟩
  rw [tracked.blocks.pool.inodesIn_chainOf inRange] at flat
  -- files lead no further
  have same : (s.inodesIn chain dir).toFinset = found.toFinset := by
    ext i
    rw [List.mem_toFinset, List.mem_toFinset]
    exact ⟨mem_here i, fun member => mem_of_path walkable inRange flat ((mem_found i).mp member)⟩
  rw [same]

theorem sums_agree_tangledDisc : ∃ sum checked deepSum, tangledDisc.getSumFilesInDir 0 = .ok sum ∧
    tangledDisc.getSumFilesInDirRecursive (tangledDisc.inodesNum + 1) [] 0 = .ok (checked, deepSum) ∧
    sum ≤ deepSum ∧
    ((∀ i ∈ tangledDisc.inodesIn tangledDisc.chainOf 0, (tangledDisc.nodeTab i).type ≠ .directory) → sum = deepSum) :=
  sums_agree tangledDisc_reachable (by decide +kernel) (by decide +kernel)

/-- A file of three bytes under two names in the root directory: the one sum is six, the other three. -/
theorem sums_differ : ∃ s, returning.Reachable s ∧ ∃ dir < s.inodesNum, (s.nodeTab dir).type = .directory ∧
    (∀ i ∈ s.inodesIn s.chainOf dir, (s.nodeTab i).type ≠ .directory) ∧
    ∃ sum checked deepSum, s.getSumFilesInDir dir = .ok sum ∧
      s.getSumFilesInDirRecursive (s.inodesNum + 1) [] dir = .ok (checked, deepSum) ∧ deepSum < sum := by
  have start : (returning.restrict fun _ _ _ => True).Reachable smallDisc := .start ⟨_, _, rfl, by decide +kernel⟩
  have copied := returning_after start (.copyFileToDisc fileName rootPath [1, 2, 3]) trivial (by decide +kernel)
  have linked := returning_after copied (.link rootPath fileName rootPath linkName) trivial (by decide +kernel)
  exact ⟨linkedDisc, linked.of_restrict, 0, by decide +kernel, by decide +kernel, by decide +kernel, 6, [1], 3,
    by decide +kernel, by decide +kernel, by decide⟩

end VirtualDisc
end SoiStud.FileSystem
