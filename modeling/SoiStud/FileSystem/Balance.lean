import SoiStud.FileSystem.Outcomes

/-! When commands keep a disc consistent.

On a consistent disc there are as many entries as there are references counted.
Each inode entered adds one to both sides, so that a further entry, or a count
that wraps around, shows in the balance.
-/

set_option autoImplicit false

namespace SoiStud.FileSystem
namespace VirtualDisc

open Library

variable {s s' t : VirtualDisc} {chain chain' chain'' : Nat → List Nat} {dir file i j : Nat} {filename : CString}
  {elem : DirectoryElement} {extra : List DirectoryElement} {effect : Effect}

def entriesTotal (s : VirtualDisc) (chain : Nat → List Nat) : Nat :=
  ∑ d ∈ Finset.range s.inodesNum, (s.entries chain d).length

def countOf (s : VirtualDisc) (i : Nat) : Nat :=
  if i = 0 ∨ (s.nodeTab i).type = .empty then 0 else (s.nodeTab i).referencesNum.toNat

def referencesTotal (s : VirtualDisc) : Nat := ∑ i ∈ Finset.range s.inodesNum, s.countOf i

theorem countOf_live (notRoot : i ≠ 0) (live : (s.nodeTab i).type ≠ .empty) :
    s.countOf i = (s.nodeTab i).referencesNum.toNat := by
  simp [countOf, notRoot, live]

theorem DirectoryConsistent.naming_eq (directories : s.DirectoryConsistent chain) (bounded : i < s.inodesNum) :
    s.naming chain i = s.countOf i := by
  by_cases nameable : i = 0 ∨ (s.nodeTab i).type = .empty
  · rw [countOf, if_pos nameable]
    apply naming_eq_zero
    rintro d inRange e listed rfl
    obtain ⟨_, live, notRoot⟩ := directories.named d inRange e listed
    exact nameable.elim notRoot live
  · rw [not_or] at nameable
    rw [countOf_live nameable.1 nameable.2, directories.counted i bounded nameable.1 nameable.2]

theorem DirectoryConsistent.balanced (directories : s.DirectoryConsistent chain) :
    s.entriesTotal chain = s.referencesTotal := by
  have lengths : ∀ d ∈ Finset.range s.inodesNum, (s.entries chain d).length =
      ∑ i ∈ Finset.range s.inodesNum, (s.entries chain d).countP fun e => e.inodeId = i := by
    intro d member
    simp only [countP_inodeId, ← Multiset.coe_count]
    rw [Multiset.sum_count_eq_card, Multiset.coe_card, List.length_map]
    intro i listed
    obtain ⟨e, inEntries, rfl⟩ := List.mem_map.mp (Multiset.mem_coe.mp listed)
    exact Finset.mem_range.mpr (directories.named d (Finset.mem_range.mp member) e inEntries).1
  rw [entriesTotal, Finset.sum_congr rfl lengths, Finset.sum_comm, referencesTotal]
  apply Finset.sum_congr rfl
  intro i member
  exact directories.naming_eq (Finset.mem_range.mp member)

/-! ## What an entry adds to the totals -/

theorem Entered.entriesTotal (entered : s.Entered chain dir j elem extra s' chain') (inRange : dir < s.inodesNum) :
    s'.entriesTotal chain' = s.entriesTotal chain + 1 + extra.length := by
  have size := inodesNum_eq entered.superblock
  have member : dir ∈ Finset.range s.inodesNum := Finset.mem_range.mpr inRange
  have others : ∀ d ∈ (Finset.range s.inodesNum).erase dir, (s'.entries chain' d).length =
      (s.entries chain d).length := by
    intro d outside
    rw [Finset.mem_erase, Finset.mem_range] at outside
    rw [entered.others d outside.2 outside.1]
  unfold VirtualDisc.entriesTotal
  rw [size, ← Finset.add_sum_erase _ _ member, ← Finset.add_sum_erase _ _ member, Finset.sum_congr rfl others,
    entered.inserted.length_eq, List.length_append, List.length_cons]
  omega

theorem Entered.referencesTotal (entered : s.Entered chain dir j elem extra s' chain') (bounded : j < s.inodesNum) :
    s'.referencesTotal + s.countOf j = s.referencesTotal + s'.countOf j := by
  have size := inodesNum_eq entered.superblock
  have member : j ∈ Finset.range s.inodesNum := Finset.mem_range.mpr bounded
  have others : ∑ i ∈ (Finset.range s.inodesNum).erase j, s'.countOf i =
      ∑ i ∈ (Finset.range s.inodesNum).erase j, s.countOf i := by
    apply Finset.sum_congr rfl
    intro i outside
    have other : i ≠ j := Finset.ne_of_mem_erase outside
    unfold countOf
    rw [entered.types i other, entered.references i other]
  have before : s.countOf j + ∑ i ∈ (Finset.range s.inodesNum).erase j, s.countOf i = s.referencesTotal :=
    Finset.add_sum_erase _ s.countOf member
  have after : s'.countOf j + ∑ i ∈ (Finset.range s.inodesNum).erase j, s'.countOf i = s'.referencesTotal := by
    rw [VirtualDisc.referencesTotal, size]
    exact Finset.add_sum_erase _ s'.countOf member
  omega

theorem Entered.referencesTotal_new (entered : s.Entered chain dir j elem extra s' chain') (bounded : j < s.inodesNum)
    (notRoot : j ≠ 0) (empty : (s.nodeTab j).type = .empty) (live : (s'.nodeTab j).type ≠ .empty)
    (one : (s'.nodeTab j).referencesNum = 1) : s'.referencesTotal = s.referencesTotal + 1 := by
  have totals := entered.referencesTotal bounded
  have before : s.countOf j = 0 := by simp [countOf, empty]
  have after : s'.countOf j = 1 := by
    rw [countOf_live notRoot live, one]
    rfl
  omega

theorem Made.totals {names : List CString} (made : Made s chain dir names extra s' chain')
    (inRange : dir < s.inodesNum) (root : (s.nodeTab 0).type ≠ .empty) (nodes : names.length ≤ s.freeNodes.length) :
    s'.entriesTotal chain' = s.entriesTotal chain + names.length + extra.length ∧
      s'.referencesTotal = s.referencesTotal + names.length := by
  induction made with
  | @stop s chain dir names none_ =>
    have noNames : names = [] := by
      rcases none_ with none_ | none_
      · exact none_
      · simpa [none_] using nodes
    simp [noNames]
  | @next s t s' chain chainT chain' dir j name rest extra created run ih =>
    obtain ⟨bounded, empty⟩ := created.fresh
    have size := inodesNum_eq created.entered.superblock
    have notRoot : j ≠ 0 := by
      rintro rfl
      exact root empty
    have leftNodes := congrArg List.length created.nodes
    rw [List.length_cons] at nodes leftNodes
    obtain ⟨entries, references⟩ := ih (by rwa [size])
      (by rwa [created.entered.types 0 notRoot.symm]) (by omega)
    have here := created.entered.entriesTotal inRange
    have counted := created.entered.referencesTotal_new bounded notRoot empty (by simp [created.directory])
      created.references
    rw [List.length_cons, List.length_append]
    omega

/-! ## Consistent again -/

theorem DirectoryConsistent.small (directories : s.DirectoryConsistent chain) (bounded : i < s.inodesNum)
    (notRoot : i ≠ 0) (live : (s.nodeTab i).type ≠ .empty) (one : (s.nodeTab i).referencesNum = 1) : i < 2 ^ 16 := by
  by_contra large
  have count := directories.counted i bounded notRoot live
  have none_ : s.naming chain i = 0 := by
    apply naming_eq_zero
    rintro d _ e listed rfl
    exact large (entries_small listed)
  rw [one, none_] at count
  cases count

/-- A command whose effect leaves the disc consistent has entered once and counted what it entered. -/
theorem entersOnce_of_consistent (blocks : s.BlockConsistent chain) (directories : s.DirectoryConsistent chain)
    (valid : s.Valid chain effect) (enough : s.Enough effect) (performed : s.Performed chain effect s' chain')
    (directories' : s'.DirectoryConsistent chain') : s.EntersOnce effect ∧ s.CountFits effect := by
  have before := directories.balanced
  have after := directories'.balanced
  have live : (s.nodeTab 0).type ≠ .empty := by simp [directories.root]
  cases performed with
  | nothing => exact ⟨trivial, trivial⟩
  | @makeDir dir names extra _ _ made =>
    obtain ⟨found, name, rest, rfl, absent⟩ := valid
    have size := inodesNum_eq made.superblock
    have nodes : (name :: rest).length ≤ s.freeNodes.length := enough.2
    obtain ⟨entries, references⟩ := made.totals found.inRange live nodes
    have none_ : extra = [] := List.eq_nil_of_length_eq_zero (by omega)
    refine ⟨⟨?_, ?_⟩, trivial⟩
    · rw [blocks.pool.chainOf_eq found.inRange]
      exact (made.extra_eq_nil_iff (by simp) nodes).mp none_
    · intro i member
      obtain ⟨bounded, empty⟩ := mem_freeNodes.mp (List.mem_of_mem_take member)
      obtain ⟨directory, one⟩ := made.taken member
      apply directories'.small (by rwa [size]) (directories.ne_root empty) _ one
      simp [directory]
  | @copy dir filename content extra _ _ entered isFile one adds =>
    obtain ⟨found, _⟩ := valid
    have free : s.freeNodes ≠ [] := List.length_pos_iff.mp enough.2
    obtain ⟨bounded, empty⟩ := findFreeNode_spec free
    have size := inodesNum_eq entered.superblock
    have notRoot := directories.ne_root empty
    have liveNew : (s'.nodeTab s.findFreeNode).type ≠ .empty := by simp [isFile]
    have entries := entered.entriesTotal found.inRange
    have references := entered.referencesTotal_new bounded notRoot empty liveNew one
    have none_ : extra = [] := List.eq_nil_of_length_eq_zero (by omega)
    refine ⟨⟨?_, ?_⟩, trivial⟩
    · rw [blocks.pool.chainOf_eq found.inRange]
      exact adds.mp none_
    · exact directories'.small (by rwa [size]) notRoot liveNew one
  | @link dir filename file extra _ _ entered type references adds =>
    obtain ⟨found, named⟩ := valid
    obtain ⟨bounded, liveFile, notRoot⟩ := directories.nameable_of_named named
    have entries := entered.entriesTotal found.inRange
    have totals := entered.referencesTotal bounded
    have counts : s'.countOf file = ((s.nodeTab file).referencesNum + 1).toNat := by
      rw [countOf_live notRoot (by rwa [type]), references]
    rw [countOf_live notRoot liveFile, counts] at totals
    -- a count that wraps around falls behind the entries by still more
    have atMost : ((s.nodeTab file).referencesNum + 1).toNat ≤ (s.nodeTab file).referencesNum.toNat + 1 := by
      rw [UInt8.toNat_add]
      exact Nat.mod_le _ _
    have none_ : extra = [] := List.eq_nil_of_length_eq_zero (by omega)
    refine ⟨?_, ?_⟩
    · rw [EntersOnce, blocks.pool.chainOf_eq found.inRange]
      exact adds.mp none_
    · intro full
      rw [full] at totals
      have wrapped : ((255 : UInt8) + 1).toNat = 0 := by decide
      have last : (255 : UInt8).toNat = 255 := by decide
      omega
  | unlink => exact ⟨trivial, trivial⟩
  | decrease => exact ⟨trivial, trivial⟩
  | increase => exact ⟨trivial, trivial⟩

/-- On a consistent disc with the free blocks and inodes that a command needs,
the command returns and leaves the disc consistent exactly if it enters once and
counts what it enters. -/
theorem exec_consistent_iff (consistent : s.Consistent) (command : Command) (enough : s.Enough (s.effect command))
    (nonEmpty : s.OnNonEmpty (s.effect command)) :
    (∃ out s', s.exec command = .ok (out, s') ∧ s'.Consistent) ↔
      s.EntersOnce (s.effect command) ∧ s.CountFits (s.effect command) := by
  constructor
  · rintro ⟨out, s', executed, consistent'⟩
    obtain ⟨chain, blocks, directories⟩ := consistent
    have navigable := directories.navigable blocks
    have valid := effect_valid navigable command
    obtain ⟨chain', done⟩ := exec_performed blocks navigable enough executed
    exact entersOnce_of_consistent blocks directories valid enough done
      (consistent'.directories (done.blocks blocks valid).pool)
  · rintro ⟨once, fits⟩
    exact exec_consistent consistent command enough nonEmpty once fits

theorem exec_consistent_iff_makeDir : (∃ out s', smallDisc.exec (.makeDir ⟨[97], by decide⟩) = .ok (out, s') ∧
      s'.Consistent) ↔
    smallDisc.EntersOnce (smallDisc.effect (.makeDir ⟨[97], by decide⟩)) ∧
      smallDisc.CountFits (smallDisc.effect (.makeDir ⟨[97], by decide⟩)) :=
  exec_consistent_iff (blank_consistent (by decide +kernel)) _ (by decide +kernel) (by decide +kernel)

/-! ## A block with leftovers

A file of 23 bytes is copied to a new disc and removed again. Its block still
holds them: in the second slot an element that looks used and names inode 3.
-/

theorem dirName_nul : (0 : UInt8) ∉ [(97 : UInt8)] := by decide

def fileName : CString := ⟨[120], by decide⟩
def dirName : CString := ⟨[97], dirName_nul⟩
def innerPath : CString := ⟨[97, 47, 98], by decide⟩

def leftovers : List UInt8 := List.replicate elemSize 0 ++ [3, 0, 1]

def copiedDisc : VirtualDisc := smallDisc.after (.copyFileToDisc fileName rootPath leftovers)
def removedDisc : VirtualDisc := copiedDisc.after (.unlink rootPath fileName)
def usedDisc : VirtualDisc := removedDisc.after (.makeDir dirName)

theorem copiedDisc_consistent : copiedDisc.Consistent :=
  after_consistent (blank_consistent (by decide +kernel)) _ (by decide +kernel) (by decide +kernel)
    (by decide +kernel) (by decide +kernel)

theorem usedDisc_consistent : usedDisc.Consistent := by
  have removed : removedDisc.Consistent := after_consistent copiedDisc_consistent _
    (by decide +kernel) (by decide +kernel) (by decide +kernel) (by decide +kernel)
  exact after_consistent removed _ (by decide +kernel) (by decide +kernel) (by decide +kernel) (by decide +kernel)

/-- A directory made in one without blocks takes the block, and the leftovers for its entries. -/
theorem exec_inconsistent : ∃ (s : VirtualDisc) (command : Command), s.Consistent ∧ s.Enough (s.effect command) ∧
    s.OnNonEmpty (s.effect command) ∧ ∃ out s', s.exec command = .ok (out, s') ∧ ¬ s'.Consistent := by
  have returns : (usedDisc.exec (.makeDir innerPath)).isOk = true := by decide +kernel
  obtain ⟨out, executed⟩ := exec_after returns
  refine ⟨usedDisc, _, usedDisc_consistent, by decide +kernel, by decide +kernel, out, _, executed, ?_⟩
  intro consistent
  have stale : ∃ e ∈ (usedDisc.after (.makeDir innerPath)).entries (usedDisc.after (.makeDir innerPath)).chainOf 1,
      ((usedDisc.after (.makeDir innerPath)).nodeTab e.inodeId).type = .empty := by decide +kernel
  obtain ⟨e, listed, empty⟩ := stale
  exact (consistent.chainOf.2.named 1 (by decide +kernel) e listed).2.1 empty

end VirtualDisc
end SoiStud.FileSystem
