import SoiStud.FileSystem.Retrieval

/-! The entries that the commands make, and what following one of them finds.

`make_dir`, `copy_file_to_disc` and `link` put an inode into a directory under a
name. The name is cut to its field, the index to sixteen bits, and an element of
the same name may lie in front.
-/

set_option autoImplicit false

namespace SoiStud.FileSystem

structure Addition where
  dir : Nat
  name : CString
  inode : Nat
  slots : List (Nat × Nat)
  deriving DecidableEq

namespace VirtualDisc

open Library

variable {s s' a t : VirtualDisc} {chain chain' : Nat → List Nat} {dir i : Nat} {name filename : CString}
  {blocks : List Nat} {out : List Output} {added : Addition}

def addition (s : VirtualDisc) (dir : Nat) (name : CString) (i : Nat) (slots : List (Nat × Nat)) : List Addition :=
  if (s.nodeTab dir).type = .directory then [⟨dir, name, i, slots⟩] else []

def additionsFrom : List CString → VirtualDisc → Nat → List Addition
  | [], _, _ => []
  | name :: rest, s, dir =>
    match s.findInDir dir name with
    | .ok (some next) => if (s.nodeTab next).type = .directory then additionsFrom rest s next else []
    | .ok none =>
      if s.freeNodes = [] then []
      else
        match (s.allocate s.findFreeNode .directory (s.nodeTab s.findFreeNode).size).insertDir dir
          (newElem name s.findFreeNode) with
        | .ok (none, t) =>
          s.addition dir name s.findFreeNode (s.slotsFor (s.chainOf dir)) ++ additionsFrom rest t s.findFreeNode
        | _ => []
    | .error _ => []

def additions (s : VirtualDisc) : Command → List Addition
  | .makeDir path => additionsFrom (components path) s 0
  | .copyFileToDisc filename path _ =>
    match s.target path with
    | some dir =>
      if s.lookup dir filename = none ∧ s.freeNodes ≠ [] then s.addition dir filename s.findFreeNode (s.entrySlots dir)
      else []
    | none => []
  | .link pathToDir filename pathToLinkDir linkFilename =>
    match s.locate pathToDir filename, s.target pathToLinkDir with
    | some (_, file), some linkDir => s.addition linkDir linkFilename file (s.entrySlots linkDir)
    | _, _ => []
  | _ => []

theorem mem_addition {slots : List (Nat × Nat)} (listed : added ∈ s.addition dir name i slots) :
    (s.nodeTab dir).type = .directory ∧ added = ⟨dir, name, i, slots⟩ := by
  unfold addition at listed
  split at listed
  next directory => exact ⟨directory, List.mem_singleton.mp listed⟩
  next => cases listed

/-! ## add_elem_to_dir on a prepared disc -/

theorem Prepared.opened (prepared : s.Prepared a) (dir : Nat) :
    (a.opened dir).superblock = (s.opened dir).superblock ∧ (a.opened dir).first = (s.opened dir).first ∧
    (a.opened dir).datablockTab = (s.opened dir).datablockTab ∧ (a.opened dir).dataMap = (s.opened dir).dataMap := by
  have free : a.findFreeDatablock = s.findFreeDatablock := by
    unfold findFreeDatablock datablocksNum
    rw [prepared.superblock, prepared.marks]
  unfold VirtualDisc.opened
  rw [prepared.firsts, free]
  split
  · refine ⟨prepared.superblock, ?_, prepared.blocks, ?_⟩
    · simp [started, prepared.firsts]
    · simp [started, prepared.marks]
  · exact ⟨prepared.superblock, prepared.firsts, prepared.blocks, prepared.marks⟩

theorem blockIds_congr (superblock : a.superblock = s.superblock) (same : a.datablockTab = s.datablockTab)
    (fuel id : Nat) : a.blockIds fuel id = s.blockIds fuel id := by
  induction fuel generalizing id with
  | zero => rfl
  | succ fuel ih =>
    have read : a.block id = s.block id := by
      unfold block datablocksNum
      rw [superblock, same]
    simp only [blockIds, read, ih]

theorem Prepared.entered (prepared : s.Prepared a) (dir : Nat) :
    a.entrySlots dir = s.entrySlots dir ∧ a.entryBlocks dir = s.entryBlocks dir := by
  obtain ⟨superblock, firsts, blocks, marks⟩ := prepared.opened dir
  have chainSame : (a.opened dir).chainOf dir = (s.opened dir).chainOf dir := by
    unfold chainOf datablocksNum
    rw [firsts, superblock, blockIds_congr superblock blocks]
  unfold entrySlots entryBlocks
  rw [chainSame]
  unfold slotsFor dirNeed roomy slotsOn freeBlocks data datablocksNum
  rw [superblock, blocks, marks]
  exact ⟨rfl, rfl⟩

theorem Prepared.placed (prepared : s.Prepared a) (pool : s.PoolOf chain) (inRange : dir < s.inodesNum)
    {r : List Output × VirtualDisc} (returned : a.addElemToDir dir name i = .ok r) :
    ∃ chain', a.Placed chain dir (newElem name i) (s.entrySlots dir) r.2 chain' ∧ chain' dir = s.entryBlocks dir := by
  obtain ⟨_, chain', placed, grown⟩ :=
    addElemToDir_placed (prepared.pool pool) (by rwa [inodesNum_eq prepared.superblock]) returned
  obtain ⟨slots, blocks⟩ := prepared.entered dir
  rw [slots] at placed
  rw [blocks] at grown
  exact ⟨chain', placed, grown⟩

theorem Written.directory {file next : Nat} {taken : List Nat} {content : List UInt8}
    (written : (t.withFirst file next).Written file [] taken content s') (pool : t.PoolOf chain)
    (inRange : dir < t.inodesNum) (other : dir ≠ file) (free : ∀ b ∈ taken, b ∈ t.freeBlocks) :
    (∀ n, s'.findElemInDir dir n = t.findElemInDir dir n) ∧ ∀ p ∈ places (chain dir), s'.elemAt p = t.elemAt p := by
  have outside : ∀ b ∈ chain dir, b ∉ taken := fun b member here => pool.free_not_mem (free b here) inRange member
  have kept : ∀ b ∈ chain dir, s'.data b = t.data b := fun b member => written.data b (outside b member)
  have superblock : s'.superblock = t.superblock := written.superblock
  have node : s'.nodeTab dir = t.nodeTab dir := by
    rw [written.others dir other, withFirst_nodeTab, Function.update_of_ne other]
  have linked : Chain s'.next nil64 (s'.first dir) (chain dir) := by
    have firsts : s'.first dir = t.first dir := congrArg Inode.firstDataBlock node
    rw [firsts]
    exact (pool.linked dir inRange).congr fun b member => written.links b (outside b member)
  have bounded : ∀ b ∈ chain dir, b < s'.datablocksNum := by
    unfold datablocksNum
    rw [superblock]
    exact pool.bounded dir inRange
  constructor
  · intro n
    rw [findElemInDir_of_linked (by rwa [inodesNum_eq superblock]) linked bounded, findElemInDir_eq pool inRange,
      node, placeOn_congr kept]
  · intro p inside
    unfold elemAt
    rw [kept p.1 (mem_places.mp inside).1]

theorem copyInto_placed (pool : s.PoolOf chain) (inRange : dir < s.inodesNum)
    (directory : (s.nodeTab dir).type = .directory) (free : s.freeNodes ≠ []) {content : List UInt8}
    (returned : s.copyInto dir filename (some content) = .ok (out, s')) :
    ∃ t chain', s.allocated.Placed chain dir (newElem filename s.findFreeNode) (s.entrySlots dir) t chain' ∧
      chain' dir = s.entryBlocks dir ∧ (∀ n, s'.findElemInDir dir n = t.findElemInDir dir n) ∧
      (∀ p ∈ places (chain' dir), s'.elemAt p = t.elemAt p) ∧
      ∀ j, j ≠ s.findFreeNode → s'.nodeTab j = t.nodeTab j := by
  have prepared : s.Prepared s.allocated := prepared_allocate .file 0 (findFreeNode_spec free).2
  have some_ : s.findFreeNode ≠ none32 := fun none_ => free (findFreeNode_eq_none32_iff.mp none_)
  have apart : dir ≠ s.findFreeNode := by
    intro same
    rw [same, (findFreeNode_spec free).2] at directory
    cases directory
  have called := returned
  rw [copyInto, if_neg some_] at called
  obtain ⟨⟨more, t⟩, entered, _⟩ := bind_eq_ok.mp called
  obtain ⟨chain', placed, grown⟩ := prepared.placed pool inRange entered
  have inRangeT : dir < t.inodesNum := by rwa [placed.inodes prepared]
  obtain ⟨u, copied, written⟩ := copyInto_spec content free entered (blocksRead_of_copyInto free entered returned)
  rw [copied] at returned
  cases returned
  obtain ⟨searches, elems⟩ := written.directory placed.pool inRangeT apart fun b member => List.mem_of_mem_take member
  refine ⟨t, chain', placed, grown, searches, elems, fun j other => ?_⟩
  rw [written.others j other, withFirst_nodeTab, Function.update_of_ne other]

/-! ## What a command leaves of the entries it makes -/

theorem makeDirFrom_written (pool : s.PoolOf chain) (names : List CString)
    (returned : makeDirFrom names s dir = .ok (out, s')) (listed : added ∈ additionsFrom names s dir) :
    added.slots ≠ [] ∧ ∀ p ∈ added.slots, s'.elemAt p = newElem added.name added.inode := by
  induction names generalizing s chain dir out with
  | nil => cases listed
  | cons name rest ih =>
    cases makeDirFrom_component pool returned with
    | blocked searched other _ => simp [additionsFrom, searched, other] at listed
    | full searched free _ => simp [additionsFrom, searched, free] at listed
    | follows searched _ live walked =>
      simp only [additionsFrom, searched, live, if_true] at listed
      exact ih pool walked listed
    | @makes out t _ chainT searched free inserted placed _ walked =>
      have inRange := inRange_of_findInDir searched
      have prepared := prepared_newDir free
      simp only [additionsFrom, searched, free, if_false, inserted, List.mem_append] at listed
      rcases listed with here | later
      · -- the rest of the run goes on below the new directory and leaves used slots alone
        obtain ⟨directory, rfl⟩ := mem_addition here
        rw [pool.chainOf_eq inRange]
        refine ⟨placed.some_, fun p written => ?_⟩
        have inRangeT : dir < t.inodesNum := by rwa [placed.inodes prepared]
        have directoryT := placed.directory prepared directory
        have inside := placed.filed.listed p written
        rw [← placed.pool.chainOf_eq inRangeT] at inside
        have elem := placed.filed.written p written
        obtain ⟨_, same⟩ := (makeDirFrom_extends placed.pool rest walked).2.elems dir inRangeT directoryT p inside
          (by simp [elem, newElem])
        rw [same, elem]
      · exact ih placed.pool walked later

theorem makeDirFrom_found (pool : s.PoolOf chain) (inodes : s.inodesNum ≤ 2 ^ 16) (names : List CString)
    (returned : makeDirFrom names s dir = .ok (out, s')) (quiet : ¬ Reports out)
    (listed : added ∈ additionsFrom names s dir) :
    ∃ p, s'.findElemInDir added.dir added.name = .ok (some p) ∧ (s'.elemAt p).inodeId = added.inode := by
  induction names generalizing s chain dir out with
  | nil => cases listed
  | cons name rest ih =>
    cases makeDirFrom_component pool returned with
    | blocked _ _ reported => exact absurd reported quiet
    | full _ _ reported => exact absurd reported quiet
    | follows searched _ live walked =>
      simp only [additionsFrom, searched, live, if_true] at listed
      exact ih pool inodes walked (valid_of_quiet quiet).2 listed
    | @makes out t _ chainT searched free inserted placed grown walked =>
      obtain ⟨valid, quiet⟩ := valid_of_quiet quiet
      have inRange := inRange_of_findInDir searched
      have prepared := prepared_newDir free
      simp only [additionsFrom, searched, free, if_false, inserted, List.mem_append] at listed
      rcases listed with here | later
      · obtain ⟨directory, rfl⟩ := mem_addition here
        have small : s.findFreeNode < 2 ^ 16 := lt_of_lt_of_le (findFreeNode_spec free).1 inodes
        obtain ⟨p, found, names⟩ := placed.findElemInDir_made grown prepared pool inRange directory searched
          (length_of_validateFilename valid) small
        have directoryT := placed.directory prepared directory
        -- what is found is found again after the rest of the run
        obtain ⟨again, same⟩ := (makeDirFrom_recalls placed.pool rest walked quiet).found dir directoryT name p found
        exact ⟨p, again, by rw [same, names]⟩
      · exact ih placed.pool (by rwa [placed.inodes prepared]) walked quiet later

structure Puts (s : VirtualDisc) (chain : Nat → List Nat) (added : Addition) (a t : VirtualDisc)
    (chain' : Nat → List Nat) (s' : VirtualDisc) : Prop where
  inRange : added.dir < s.inodesNum
  inode : added.inode < s.inodesNum
  directory : (s.nodeTab added.dir).type = .directory
  prepared : s.Prepared a
  placed : a.Placed chain added.dir (newElem added.name added.inode) added.slots t chain'
  grown : chain' added.dir = s.entryBlocks added.dir
  searches : ∀ n, s'.findElemInDir added.dir n = t.findElemInDir added.dir n
  elems : ∀ p ∈ places (chain' added.dir), s'.elemAt p = t.elemAt p

theorem findDirInode_of_target {path : CString} (reaches : s.target path = some dir) :
    ∃ out, s.findDirInode path = .ok (out, some dir) := by
  unfold target at reaches
  split at reaches
  next out found resolved => exact ⟨out, by rw [resolved, reaches]⟩
  next => cases reaches

theorem findInDir_of_lookup {file : Nat} (found : s.lookup dir filename = some file) :
    s.findInDir dir filename = .ok (some file) := by
  unfold lookup at found
  split at found
  next result searched => rw [searched, found]
  next => cases found

theorem copyFileToDisc_puts (pool : s.PoolOf chain) {path : CString} {content : List UInt8}
    (executed : s.exec (.copyFileToDisc filename path content) = .ok (out, s'))
    (listed : added ∈ s.additions (.copyFileToDisc filename path content)) :
    ∃ a t chain', s.Puts chain added a t chain' s' := by
  rw [additions] at listed
  split at listed
  next dir reaches =>
    split at listed
    next absent =>
      obtain ⟨directory, rfl⟩ := mem_addition listed
      obtain ⟨walk, resolved⟩ := findDirInode_of_target reaches
      rw [exec, copyFileToDisc, resolved, ok_bind] at executed
      obtain ⟨found, searched, executed⟩ := bind_eq_ok.mp executed
      cases found with
      | some file => simp [lookup, searched] at absent
      | none =>
        obtain ⟨⟨more, u⟩, copied, same⟩ := bind_eq_ok.mp executed
        cases same
        have inRange := inRange_of_findInDir searched
        obtain ⟨t, chain', placed, grown, searches, elems, _⟩ := copyInto_placed pool inRange directory absent.2 copied
        obtain ⟨bounded, empty⟩ := findFreeNode_spec absent.2
        exact ⟨_, t, chain', inRange, bounded, directory, prepared_allocate .file 0 empty, placed, grown, searches, elems⟩
    next => cases listed
  next => cases listed

theorem link_puts (pool : s.PoolOf chain) {pathToDir pathToLinkDir linkFilename : CString}
    (executed : s.exec (.link pathToDir filename pathToLinkDir linkFilename) = .ok (out, s'))
    (listed : added ∈ s.additions (.link pathToDir filename pathToLinkDir linkFilename)) :
    ∃ a t chain', s.Puts chain added a t chain' s' := by
  rw [additions] at listed
  split at listed
  next d file linkDir located reaches =>
    obtain ⟨directory, rfl⟩ := mem_addition listed
    obtain ⟨from_, first_, located⟩ := Option.bind_eq_some_iff.mp located
    obtain ⟨_, looked, same⟩ := Option.map_eq_some_iff.mp located
    cases same
    obtain ⟨walk, resolved⟩ := findDirInode_of_target first_
    obtain ⟨linkWalk, linkResolved⟩ := findDirInode_of_target reaches
    simp only [exec, link, resolved, ok_bind, findInDir_of_lookup looked, linkResolved] at executed
    obtain ⟨⟨more, u⟩, linked, same⟩ := bind_eq_ok.mp executed
    cases same
    obtain ⟨entry, read, entered⟩ := bind_eq_ok.mp linked
    -- the directory is read on the disc on which the count of the inode is higher already
    have inRange : linkDir < s.inodesNum := by
      obtain ⟨other, here, _⟩ := bind_eq_ok.mp entered
      exact (node_ok_iff.mp here).1
    have bounded : file < s.inodesNum := (node_ok_iff.mp read).1
    obtain ⟨chain', placed, grown⟩ := (prepared_withReferences file _).placed pool inRange entered
    exact ⟨_, u, chain', inRange, bounded, directory, prepared_withReferences file _, placed, grown, fun _ => rfl,
      fun _ _ => rfl⟩
  next => cases listed

theorem exec_puts (pool : s.PoolOf chain) {command : Command} (executed : s.exec command = .ok (out, s'))
    (listed : added ∈ s.additions command) (other : ∀ path, command ≠ .makeDir path) :
    ∃ a t chain', s.Puts chain added a t chain' s' := by
  cases command with
  | makeDir path => exact absurd rfl (other path)
  | copyFileToDisc filename path content => exact copyFileToDisc_puts pool executed listed
  | link pathToDir filename pathToLinkDir linkFilename => exact link_puts pool executed listed
  | unlink | decreaseFileSize | increaseFileSize => cases listed

theorem additions_written (pool : s.PoolOf chain) {command : Command} (executed : s.exec command = .ok (out, s'))
    (listed : added ∈ s.additions command) :
    added.slots ≠ [] ∧ ∀ p ∈ added.slots, s'.elemAt p = newElem added.name added.inode := by
  by_cases made : ∃ path, command = .makeDir path
  · obtain ⟨path, rfl⟩ := made
    exact makeDirFrom_written pool (components path) executed listed
  · obtain ⟨a, t, chain', puts⟩ := exec_puts pool executed listed fun path same => made ⟨path, same⟩
    refine ⟨puts.placed.some_, fun p written => ?_⟩
    rw [puts.elems p (puts.placed.filed.listed p written), puts.placed.filed.written p written]

/-! ## Following an entry -/

theorem Puts.found_iff (puts : s.Puts chain added a t chain' s') (inodes : s.inodesNum ≤ 2 ^ 16) :
    (∃ p, s'.findElemInDir added.dir added.name = .ok (some p) ∧ (s'.elemAt p).inodeId = added.inode) ↔
      s.Uncovers added.name added.inode (s.entryBlocks added.dir) added.slots := by
  have small : added.inode < 2 ^ 16 := lt_of_lt_of_le puts.inode inodes
  rw [← puts.grown, ← puts.placed.findElemInDir_iff puts.prepared puts.inRange puts.directory small, puts.searches]
  refine exists_congr fun p => and_congr_right fun found => ?_
  have directoryT := puts.placed.directory puts.prepared puts.directory
  have inRangeT : added.dir < t.inodesNum := by
    rw [puts.placed.inodes puts.prepared]
    exact puts.inRange
  rw [findElemInDir_firstNamed puts.placed.pool inRangeT directoryT, Except.ok.injEq] at found
  rw [puts.elems p (firstNamed_is found).1]

/-- Where a command has made an entry without an error, the search for its name
comes to its inode: always after `make_dir`, and after the other two where no
older element of the name lies in front and the name fits its field. -/
theorem additions_found_iff (pool : s.PoolOf chain) (inodes : s.inodesNum ≤ 2 ^ 16) {command : Command}
    (executed : s.exec command = .ok (out, s')) (quiet : ¬ Reports out) (listed : added ∈ s.additions command) :
    (∃ p, s'.findElemInDir added.dir added.name = .ok (some p) ∧ (s'.elemAt p).inodeId = added.inode) ↔
      (∃ path, command = .makeDir path) ∨
        s.Uncovers added.name added.inode (s.entryBlocks added.dir) added.slots := by
  by_cases made : ∃ path, command = .makeDir path
  · refine iff_of_true ?_ (.inl made)
    obtain ⟨path, rfl⟩ := made
    exact makeDirFrom_found pool inodes (components path) executed quiet listed
  · obtain ⟨a, t, chain', puts⟩ := exec_puts pool executed listed fun path same => made ⟨path, same⟩
    rw [puts.found_iff inodes, or_iff_right made]

theorem copiedDisc_executed :
    smallDisc.exec (.copyFileToDisc fileName rootPath leftovers) = .ok ([], copiedDisc) :=
  exec_prints (by decide +kernel)

theorem copiedDisc_addition : (⟨0, fileName, 1, [(0, 0)]⟩ : Addition) ∈
    smallDisc.additions (.copyFileToDisc fileName rootPath leftovers) := by decide +kernel

theorem additions_found_iff_copy : (∃ p, copiedDisc.findElemInDir 0 fileName = .ok (some p) ∧
      (copiedDisc.elemAt p).inodeId = 1) ↔
    (∃ path, Command.copyFileToDisc fileName rootPath leftovers = .makeDir path) ∨
      smallDisc.Uncovers fileName 1 (smallDisc.entryBlocks 0) [(0, 0)] :=
  additions_found_iff blank_pool (by decide +kernel) copiedDisc_executed not_reports_nil copiedDisc_addition

def coveringLink : Command := .link rootPath dirName rootPath fileName

/-- The name still leads to the file. -/
theorem link_not_found : ∃ (s : VirtualDisc) (command : Command) (s' : VirtualDisc) (added : Addition),
    s.Consistent ∧ s.inodesNum ≤ 2 ^ 16 ∧ s.exec command = .ok ([], s') ∧ added ∈ s.additions command ∧
    ¬ ∃ p, s'.findElemInDir added.dir added.name = .ok (some p) ∧ (s'.elemAt p).inodeId = added.inode := by
  have made : (copiedDisc.after (.makeDir dirName)).Consistent := after_consistent copiedDisc_consistent _
    (by decide +kernel) (by decide +kernel) (by decide +kernel) (by decide +kernel)
  refine ⟨copiedDisc.after (.makeDir dirName), coveringLink, _, ⟨0, fileName, 2, [(0, 2)]⟩, made, by decide +kernel,
    exec_prints (by decide +kernel), by decide +kernel, ?_⟩
  rintro ⟨p, found, names⟩
  have first_ : ((copiedDisc.after (.makeDir dirName)).after coveringLink).findElemInDir 0 fileName = .ok (some (0, 0)) := by
    decide +kernel
  rw [first_] at found
  cases found
  revert names
  decide +kernel

end VirtualDisc
end SoiStud.FileSystem
