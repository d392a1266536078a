import SoiStud.FileSystem.Runs

/-! What the directories hold after a whole history of commands.

Beside the disc a run keeps a record: for each directory the names and inodes
that `make_dir`, `copy_file_to_disc` and `link` have put into it and `unlink` has
not taken out since. A reference count that wraps around does not disturb the
record: an inode emptied too early is empty, and a directory made on it is new.
-/

set_option autoImplicit false

namespace SoiStud.FileSystem

abbrev Record := Nat → List (List UInt8 × Nat)

/-- The name and the inode that an element holds. -/
def DirectoryElement.pair (e : DirectoryElement) : List UInt8 × Nat := (e.cname, e.inodeId)

/-- The name field takes the first bytes of a name. -/
def nameAndInode (name : CString) (i : Nat) : List UInt8 × Nat := (name.bytes.take filenameLen, i)

namespace Record

def put (record : Record) (dir : Nat) (name : CString) (i : Nat) : Record :=
  Function.update record dir (nameAndInode name i :: record dir)

def putDirs : Record → Nat → List CString → List Nat → Record
  | record, dir, name :: names, j :: nodes =>
    putDirs (Function.update (record.put dir name j) j []) j names nodes
  | record, _, _, _ => record

end Record

namespace VirtualDisc

open Library

/-- What an effect puts into the directories and takes out of them. -/
def recordEffect (s : VirtualDisc) (record : Record) : Effect → Record
  | .makeDir dir names => record.putDirs dir names s.freeNodes
  | .copy dir filename _ => record.put dir filename s.findFreeNode
  | .link dir filename file => record.put dir filename file
  | .unlink dir filename file => Function.update record dir ((record dir).erase (filename.bytes, file))
  | .nothing | .decrease _ _ | .increase _ _ => record

def recorded : System (VirtualDisc × Record) Command where
  init s := (∃ fileName size, s.1 = create fileName size ∧ 0 < s.1.inodesNum) ∧ s.2 = fun _ => []
  step s command t := s.1.Enough (s.1.effect command) ∧ (∃ out, s.1.exec command = .ok (out, t.1)) ∧
    t.2 = s.1.recordEffect s.2 (s.1.effect command)

/-- The used entries of a live directory are those on record. -/
def HoldsRecord (s : VirtualDisc) (record : Record) (chain : Nat → List Nat) : Prop :=
  ∀ d < s.inodesNum, (s.nodeTab d).type = .directory →
    ((s.entries chain d).map DirectoryElement.pair).Perm (record d)

structure Tracked (s : VirtualDisc) (record : Record) (chain : Nat → List Nat) : Prop where
  blocks : s.BlockConsistent chain
  inodes : 0 < s.inodesNum
  root : (s.nodeTab 0).type = .directory
  named : ∀ d < s.inodesNum, ∀ e ∈ s.entries chain d, e.inodeId < s.inodesNum ∧ e.inodeId ≠ 0
  holds : s.HoldsRecord record chain

variable {s s' t : VirtualDisc} {chain chain' : Nat → List Nat} {record : Record} {dir file i j : Nat}
  {name filename : CString} {elem : DirectoryElement} {effect : Effect} {place : Nat × Nat}

theorem Tracked.navigable (tracked : s.Tracked record chain) : s.Navigable chain where
  pool := tracked.blocks.pool
  inodes := tracked.inodes
  root := tracked.root
  inRange d bounded e listed := (tracked.named d bounded e listed).1

theorem cname_newElem (name : CString) (i : Nat) : (newElem name i).cname = name.bytes.take filenameLen := by
  have field : (List.ofFn fun k : Fin filenameLen => name.bytes.getD k 0) =
      name.bytes.take filenameLen ++ List.replicate (filenameLen - name.bytes.length) 0 := by
    apply List.ext_getElem
    · simp only [List.length_ofFn, List.length_append, List.length_take, List.length_replicate]
      omega
    · intro k bounded _
      rw [List.length_ofFn] at bounded
      by_cases within : k < name.bytes.length
      · rw [List.getElem_append_left (by rw [List.length_take]; omega)]
        simp [within]
      · rw [List.getElem_append_right (by rw [List.length_take]; omega)]
        simp [Nat.le_of_not_lt within]
  have noZero : ∀ b ∈ name.bytes.take filenameLen, decide (b ≠ 0) = true := by
    intro b member
    have other : b ≠ 0 := fun zero => name.nul (zero ▸ List.mem_of_mem_take member)
    simpa using other
  unfold DirectoryElement.cname newElem
  dsimp only
  rw [field, List.append_assoc, List.takeWhile_append_of_pos noZero]
  have zeros (k : Nat) : (List.replicate k (0 : UInt8) ++ [0]).takeWhile (fun b => decide (b ≠ 0)) = [] := by
    cases k with
    | zero => rfl
    | succ k => rfl
  rw [zeros, List.append_nil]

theorem pair_newElem (name : CString) (small : i < 2 ^ 16) : (newElem name i).pair = nameAndInode name i := by
  rw [DirectoryElement.pair, nameAndInode, newElem_inodeId name small, cname_newElem]

/-! ## What is put -/

theorem Entered.named (entered : s.Entered chain dir j elem [] s' chain') (inRange : dir < s.inodesNum)
    (named : ∀ d < s.inodesNum, ∀ e ∈ s.entries chain d, e.inodeId < s.inodesNum ∧ e.inodeId ≠ 0)
    (new : elem.inodeId < s.inodesNum ∧ elem.inodeId ≠ 0) :
    ∀ d < s'.inodesNum, ∀ e ∈ s'.entries chain' d, e.inodeId < s'.inodesNum ∧ e.inodeId ≠ 0 := by
  have size := inodesNum_eq entered.superblock
  intro d bounded e listed
  rw [size] at bounded ⊢
  by_cases here : d = dir
  · subst here
    rcases List.mem_append.mp (entered.inserted.mem_iff.mp listed) with old | added
    · exact named d bounded e old
    · rw [List.mem_singleton.mp added]
      exact new
  · rw [entered.others d bounded here] at listed
    exact named d bounded e listed

theorem HoldsRecord.entered (holds : s.HoldsRecord record chain) (inRange : dir < s.inodesNum)
    (directory : (s.nodeTab dir).type = .directory)
    (entered : s.Entered chain dir j (newElem name j) [] s' chain') (small : j < 2 ^ 16) {d : Nat}
    (bounded : d < s.inodesNum) (isDirectory : (s.nodeTab d).type = .directory) :
    ((s'.entries chain' d).map DirectoryElement.pair).Perm (record.put dir name j d) := by
  unfold Record.put
  by_cases here : d = dir
  · subst here
    rw [Function.update_self, ← pair_newElem name small]
    have gained := entered.inserted.map DirectoryElement.pair
    rw [List.map_append, List.map_singleton] at gained
    refine gained.trans (List.perm_append_singleton _ _ |>.trans ?_)
    exact (holds d bounded isDirectory).cons _
  · rw [Function.update_of_ne here, entered.others d bounded here]
    exact holds d bounded isDirectory

theorem Tracked.entered (tracked : s.Tracked record chain) (inRange : dir < s.inodesNum)
    (directory : (s.nodeTab dir).type = .directory)
    (entered : s.Entered chain dir j (newElem name j) [] s' chain') (bounded : j < s.inodesNum) (notRoot : j ≠ 0)
    (small : j < 2 ^ 16)
    (old : (s'.nodeTab j).type = .directory → (s.nodeTab j).type = .directory) :
    s'.Tracked (record.put dir name j) chain' := by
  have size := inodesNum_eq entered.superblock
  constructor
  · exact entered.blocks
  · rw [size]
    exact tracked.inodes
  · rw [entered.types 0 notRoot.symm]
    exact tracked.root
  · apply entered.named inRange tracked.named
    rw [newElem_inodeId name small]
    exact ⟨bounded, notRoot⟩
  · intro d boundedD isDirectory
    rw [size] at boundedD
    apply tracked.holds.entered inRange directory entered small boundedD
    by_cases same : d = j
    · subst same
      exact old isDirectory
    · rwa [entered.types d same] at isDirectory

theorem Tracked.copied (tracked : s.Tracked record chain) (inRange : dir < s.inodesNum)
    (directory : (s.nodeTab dir).type = .directory) (free : s.freeNodes ≠ [])
    (entered : s.Entered chain dir s.findFreeNode (newElem name s.findFreeNode) [] s' chain')
    (isFile : (s'.nodeTab s.findFreeNode).type = .file) (small : s.findFreeNode < 2 ^ 16) :
    s'.Tracked (record.put dir name s.findFreeNode) chain' := by
  obtain ⟨bounded, empty⟩ := findFreeNode_spec free
  have notRoot : s.findFreeNode ≠ 0 := by
    intro zero
    rw [zero, tracked.root] at empty
    cases empty
  apply tracked.entered inRange directory entered bounded notRoot small
  intro isDirectory
  rw [isFile] at isDirectory
  cases isDirectory

theorem Tracked.linked (tracked : s.Tracked record chain) (inRange : dir < s.inodesNum)
    (directory : (s.nodeTab dir).type = .directory) (named : s.Named chain file)
    (entered : s.Entered chain dir file (newElem name file) [] s' chain')
    (type : (s'.nodeTab file).type = (s.nodeTab file).type) : s'.Tracked (record.put dir name file) chain' := by
  obtain ⟨d, boundedD, e, listed, rfl⟩ := named
  obtain ⟨bounded, notRoot⟩ := tracked.named d boundedD e listed
  apply tracked.entered inRange directory entered bounded notRoot (entries_small listed)
  intro isDirectory
  rwa [type] at isDirectory

theorem Tracked.created (tracked : s.Tracked record chain) (inRange : dir < s.inodesNum)
    (directory : (s.nodeTab dir).type = .directory) (created : s.Created chain dir name j s' chain')
    (once : s.AddsOnlyDir (chain dir)) (small : j < 2 ^ 16) :
    s'.Tracked (Function.update (record.put dir name j) j []) chain' := by
  obtain ⟨bounded, empty⟩ := created.fresh
  have entered := created.entered
  rw [extraDir_eq_nil_iff.mpr once] at entered
  have size := inodesNum_eq entered.superblock
  have notRoot : j ≠ 0 := by
    rintro rfl
    rw [tracked.root] at empty
    cases empty
  constructor
  · exact entered.blocks
  · rw [size]
    exact tracked.inodes
  · rw [entered.types 0 notRoot.symm]
    exact tracked.root
  · apply entered.named inRange tracked.named
    rw [newElem_inodeId name small]
    exact ⟨bounded, notRoot⟩
  · intro d boundedD isDirectory
    by_cases same : d = j
    · subst same
      rw [Function.update_self, entries_of_chain_nil created.empty]
      exact .nil
    · rw [size] at boundedD
      rw [entered.types d same] at isDirectory
      rw [Function.update_of_ne same]
      exact tracked.holds.entered inRange directory entered small boundedD isDirectory

theorem Tracked.made {names : List CString} {extra : List DirectoryElement} (tracked : s.Tracked record chain)
    (inRange : dir < s.inodesNum) (directory : (s.nodeTab dir).type = .directory)
    (made : Made s chain dir names extra s' chain') (none_ : extra = [])
    (small : ∀ i ∈ s.freeNodes.take names.length, i < 2 ^ 16) :
    s'.Tracked (record.putDirs dir names s.freeNodes) chain' := by
  -- each directory is recorded in the one before it
  induction made generalizing record with
  | @stop s chain dir names free =>
    have unchanged : record.putDirs dir names s.freeNodes = record := by
      rcases free with noNames | free
      · rw [noNames, Record.putDirs.eq_def]
      · rw [free, Record.putDirs.eq_def]
        cases names <;> rfl
    rw [unchanged]
    exact tracked
  | @next s t s' chain chainT chain' dir j name rest extra created _ ih =>
    rw [List.append_eq_nil_iff, extraDir_eq_nil_iff] at none_
    have size := inodesNum_eq created.entered.superblock
    rw [created.nodes] at small ⊢
    rw [List.length_cons, List.take_succ_cons] at small
    have trackedT := tracked.created inRange directory created none_.1 (small j List.mem_cons_self)
    apply ih trackedT
    · rw [size]
      exact created.fresh.1
    · exact created.directory
    · exact none_.2
    · intro i member
      exact small i (List.mem_cons_of_mem _ member)

/-! ## What is taken out -/

theorem pair_of_placeOn {blocks : List Nat} (placed : s.placeOn filename blocks = some place) :
    (s.elemAt place).pair = (filename.bytes, (s.elemAt place).inodeId) := by
  obtain ⟨_, _, named⟩ := placeOn_eq_some placed
  simp only [DirectoryElement.is, Bool.and_eq_true, decide_eq_true_eq] at named
  rw [DirectoryElement.pair, named.2]

theorem Tracked.unlinked (tracked : s.Tracked record chain) (inRange : dir < s.inodesNum)
    (directory : (s.nodeTab dir).type = .directory) (placed : s.placeOn filename (chain dir) = some place)
    (named : (s.elemAt place).inodeId = file) (removing : removeFile (s.inodesNum + 1) s file = .ok t)
    (nodes : s'.nodeTab = t.nodeTab) (unlinked : s.Unlinked chain dir (s.elemAt place) s' chain') :
    s'.Tracked (Function.update record dir ((record dir).erase (filename.bytes, file))) chain' := by
  have size := inodesNum_eq unlinked.superblock
  have listed : s.elemAt place ∈ s.entries chain dir := by
    rw [entries_of_directory directory]
    exact elemAt_mem_usedElems placed
  have notRoot := (tracked.named dir inRange _ listed).2
  rw [named] at notRoot
  -- no entry leads to the root directory, so a removal does not come there
  have rootKept := removeFile_staysIn (P := fun i => i ≠ 0) tracked.blocks.pool
    (fun d bounded _ e member => (tracked.named d bounded e member).2) _ s chain file t (.refl tracked.blocks.pool)
    notRoot removing 0 (by simp)
  have fewer : ∀ d < s.inodesNum, ∀ e ∈ s'.entries chain' d, e ∈ s.entries chain d := by
    intro d bounded e member
    by_cases here : d = dir
    · subst here
      exact unlinked.removed.mem_iff.mpr (List.mem_cons_of_mem _ member)
    · by_cases live : (s'.nodeTab d).type = .empty
      · rw [entries_of_ne (by simp [live])] at member
        cases member
      · rwa [unlinked.others d bounded here live] at member
  constructor
  · exact unlinked.blocks
  · rw [size]
    exact tracked.inodes
  · rw [nodes, rootKept]
    exact tracked.root
  · intro d bounded e member
    rw [size] at bounded ⊢
    exact tracked.named d bounded e (fewer d bounded e member)
  · intro d bounded isDirectory
    rw [size] at bounded
    have live : (s'.nodeTab d).type ≠ .empty := by simp [isDirectory]
    have before : (s.nodeTab d).type = .directory := by rw [← unlinked.types d bounded live, isDirectory]
    by_cases here : d = dir
    · subst here
      have pairs := unlinked.removed.map DirectoryElement.pair
      rw [List.map_cons, pair_of_placeOn placed, named] at pairs
      rw [Function.update_self]
      have erased := ((tracked.holds d bounded before).symm.trans pairs).erase (filename.bytes, file)
      rw [List.erase_cons_head] at erased
      exact erased.symm
    · rw [Function.update_of_ne here, unlinked.others d bounded here live]
      exact tracked.holds d bounded before

/-! ## Whole runs -/

theorem Tracked.resized {blocks : List Nat} {size : Nat} (tracked : s.Tracked record chain)
    (resized : s.Resized chain file blocks size s') (isFile : (s.nodeTab file).type = .file)
    (sized : blocks.length = blocksFor size) : s'.Tracked record (Function.update chain file blocks) := by
  have same := inodesNum_eq resized.superblock
  constructor
  · exact tracked.blocks.resized resized isFile sized
  · rw [same]
    exact tracked.inodes
  · rw [resized.type]
    exact tracked.root
  · intro d bounded e listed
    rw [same] at bounded ⊢
    rw [resized.entries isFile bounded] at listed
    exact tracked.named d bounded e listed
  · intro d bounded isDirectory
    rw [same] at bounded
    rw [resized.type] at isDirectory
    rw [resized.entries isFile bounded]
    exact tracked.holds d bounded isDirectory

theorem Tracked.performed (tracked : s.Tracked record chain) (valid : s.Valid chain effect)
    (enough : s.Enough effect) (once : s.EntersOnce effect) (performed : s.Performed chain effect s' chain') :
    s'.Tracked (s.recordEffect record effect) chain' := by
  have pool := tracked.blocks.pool
  cases performed with
  | nothing => exact tracked
  | @makeDir dir names extra _ _ made =>
    obtain ⟨found, name, rest, rfl, absent⟩ := valid
    have nodes : (name :: rest).length ≤ s.freeNodes.length := enough.2
    simp only [EntersOnce, pool.chainOf_eq found.inRange] at once
    exact tracked.made found.inRange found.directory made ((made.extra_eq_nil_iff (by simp) nodes).mpr once.1) once.2
  | @copy dir filename content extra _ _ entered isFile _ adds =>
    obtain ⟨found, _⟩ := valid
    have free : s.freeNodes ≠ [] := List.length_pos_iff.mp enough.2
    simp only [EntersOnce, pool.chainOf_eq found.inRange] at once
    rw [adds.mpr once.1] at entered
    exact tracked.copied found.inRange found.directory free entered isFile once.2
  | @link dir filename file extra _ _ entered type _ adds =>
    obtain ⟨found, named⟩ := valid
    simp only [EntersOnce, pool.chainOf_eq found.inRange] at once
    rw [adds.mpr once] at entered
    exact tracked.linked found.inRange found.directory named entered type
  | unlink placed named removing nodes unlinked =>
    exact tracked.unlinked valid.1.inRange valid.1.directory placed named removing nodes unlinked
  | decrease resized length => exact tracked.resized resized valid.2.1 length
  | increase resized length => exact tracked.resized resized valid.2 length

def Once (before : VirtualDisc × Record) (command : Command) (_ : VirtualDisc × Record) : Prop :=
  before.1.EntersOnce (before.1.effect command)

theorem blank_tracked {superblock : Superblock} (inodes : 0 < superblock.inodesNum) :
    (blank superblock).Tracked (fun _ => []) fun _ => [] where
  blocks := blank_blockConsistent
  inodes := inodes
  root := rfl
  named d _ e listed := by
    rw [blank_entries] at listed
    cases listed
  holds d _ _ := by
    rw [blank_entries]
    exact .nil

theorem tracked_of_reachable {state : VirtualDisc × Record} (reached : (recorded.restrict Once).Reachable state) :
    ∃ chain, state.1.Tracked state.2 chain := by
  apply reached.invariant
  · rintro ⟨s, record⟩ ⟨⟨fileName, size, rfl, inodes⟩, rfl⟩
    exact ⟨fun _ => [], blank_tracked inodes⟩
  · rintro ⟨s, record⟩ command ⟨t, record'⟩ ⟨chain, tracked⟩ ⟨⟨enough, ⟨out, executed⟩, same⟩, once⟩
    have navigable := tracked.navigable
    obtain ⟨chain', done⟩ := exec_performed tracked.blocks navigable enough executed
    dsimp only at same
    rw [same]
    exact ⟨chain', tracked.performed (effect_valid navigable command) enough once done⟩

/-- In every run whose commands enter each name once, each live directory holds
what was put into it and not taken out. -/
theorem entries_recorded {state : VirtualDisc × Record} (reached : (recorded.restrict Once).Reachable state) :
    state.1.HoldsRecord state.2 state.1.chainOf := by
  obtain ⟨chain, tracked⟩ := tracked_of_reachable reached
  intro d bounded directory
  have held := tracked.holds d bounded directory
  rw [entries_of_directory directory] at held ⊢
  rwa [tracked.blocks.pool.chainOf_eq bounded]

def recordedAfter (state : VirtualDisc × Record) (command : Command) : VirtualDisc × Record :=
  (state.1.after command, state.1.recordEffect state.2 (state.1.effect command))

theorem recorded_after {condition : VirtualDisc × Record → Command → VirtualDisc × Record → Prop}
    {state : VirtualDisc × Record} (reached : (recorded.restrict condition).Reachable state) (command : Command)
    (enough : state.1.Enough (state.1.effect command)) (met : condition state command (recordedAfter state command))
    (returns : (state.1.exec command).isOk = true) :
    (recorded.restrict condition).Reachable (recordedAfter state command) :=
  reached.next ⟨⟨enough, exec_after returns, rfl⟩, met⟩

def newRecorded : VirtualDisc × Record := (smallDisc, fun _ => [])

theorem newRecorded_reachable (condition : VirtualDisc × Record → Command → VirtualDisc × Record → Prop) :
    (recorded.restrict condition).Reachable newRecorded :=
  .start ⟨⟨_, _, rfl, by decide +kernel⟩, rfl⟩

theorem entries_recorded_copy :
    let state := recordedAfter newRecorded (.copyFileToDisc fileName rootPath leftovers)
    state.1.HoldsRecord state.2 state.1.chainOf := by
  have copied := recorded_after (newRecorded_reachable Once) (.copyFileToDisc fileName rootPath leftovers)
    (by decide +kernel) (show EntersOnce _ _ by decide +kernel) (by decide +kernel)
  exact entries_recorded copied

/-- The data of a removed file comes back as an entry of a directory made later. -/
theorem leftovers_reappear : ∃ state, recorded.Reachable state ∧
    ¬ state.1.HoldsRecord state.2 state.1.chainOf := by
  have copied := recorded_after (newRecorded_reachable fun _ _ _ => True)
    (.copyFileToDisc fileName rootPath leftovers) (by decide +kernel) trivial (by decide +kernel)
  have removed := recorded_after copied (.unlink rootPath fileName) (by decide +kernel) trivial (by decide +kernel)
  have made := recorded_after removed (.makeDir dirName) (by decide +kernel) trivial (by decide +kernel)
  have stale := recorded_after made (.makeDir innerPath) (by decide +kernel) trivial (by decide +kernel)
  refine ⟨_, stale.of_restrict, fun holds => ?_⟩
  have same := (holds 1 (by decide +kernel) (by decide +kernel)).length_eq
  revert same
  decide +kernel

end VirtualDisc
end SoiStud.FileSystem
