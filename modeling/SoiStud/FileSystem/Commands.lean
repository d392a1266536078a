import SoiStud.FileSystem.References

/-! The commands that change a disc, and what each of them comes to.

Every command first follows paths and looks names up. What it then does is its
`Effect`; a command that finds nothing to do prints and leaves the disc alone.
-/

set_option autoImplicit false

namespace SoiStud.FileSystem

inductive Command where
  | makeDir (path : CString)
  /-- `content` is what the host file holds. -/
  | copyFileToDisc (filename path : CString) (content : List UInt8)
  | link (pathToDir filename pathToLinkDir linkFilename : CString)
  | unlink (pathToDir filename : CString)
  | decreaseFileSize (pathToDir filename : CString) (sizeAmount : UInt32)
  | increaseFileSize (pathToDir filename : CString) (sizeAmount : UInt32)
  deriving DecidableEq

inductive Effect where
  | nothing
  /-- The directories `names` are made, the first one in `dir`, each next one in the one before. -/
  | makeDir (dir : Nat) (names : List CString)
  | copy (dir : Nat) (filename : CString) (content : List UInt8)
  | link (dir : Nat) (filename : CString) (file : Nat)
  | unlink (dir : Nat) (filename : CString) (file : Nat)
  | decrease (file sizeAmount : Nat)
  | increase (file sizeAmount : Nat)
  deriving DecidableEq

namespace VirtualDisc

open Library

def exec (s : VirtualDisc) : Command → Outcome
  | .makeDir path => s.makeDir path
  | .copyFileToDisc filename path content => s.copyFileToDisc filename path (some content)
  | .link pathToDir filename pathToLinkDir linkFilename => s.link pathToDir filename pathToLinkDir linkFilename
  | .unlink pathToDir filename => s.unlink pathToDir filename
  | .decreaseFileSize pathToDir filename sizeAmount => s.decreaseFileSize pathToDir filename sizeAmount
  | .increaseFileSize pathToDir filename sizeAmount => s.increaseFileSize pathToDir filename sizeAmount

/-- The disc after a command; one that does not return is left out. -/
def after (s : VirtualDisc) (command : Command) : VirtualDisc :=
  match s.exec command with
  | .ok (_, s') => s'
  | .error _ => s

theorem exec_after {s : VirtualDisc} {command : Command} (returns : (s.exec command).isOk = true) :
    ∃ out, s.exec command = .ok (out, s.after command) := by
  unfold after
  cases executed : s.exec command with
  | error fault =>
    rw [executed] at returns
    cases returns
  | ok result => exact ⟨result.1, rfl⟩

theorem exec_prints {s : VirtualDisc} {command : Command} {out : List Output}
    (prints : (s.exec command).map Prod.fst = .ok out) : s.exec command = .ok (out, s.after command) := by
  unfold after
  cases executed : s.exec command with
  | error fault =>
    rw [executed] at prints
    cases prints
  | ok result =>
    rw [executed] at prints
    cases prints
    rfl

def fault (s : VirtualDisc) (command : Command) : Option Fault :=
  match s.exec command with
  | .ok _ => none
  | .error fault => some fault

theorem exec_fault {s : VirtualDisc} {command : Command} {fault : Fault} (ends : s.fault command = some fault) :
    s.exec command = .error fault := by
  unfold VirtualDisc.fault at ends
  cases executed : s.exec command with
  | ok result =>
    rw [executed] at ends
    cases ends
  | error other =>
    rw [executed] at ends
    exact congrArg Except.error (Option.some.inj ends)

def target (s : VirtualDisc) (path : CString) : Option Nat :=
  match s.findDirInode path with
  | .ok (_, found) => found
  | .error _ => none

def lookup (s : VirtualDisc) (dir : Nat) (filename : CString) : Option Nat :=
  match s.findInDir dir filename with
  | .ok found => found
  | .error _ => none

def locate (s : VirtualDisc) (pathToDir filename : CString) : Option (Nat × Nat) :=
  (s.target pathToDir).bind fun dir => (s.lookup dir filename).map fun file => (dir, file)

/-- Where the components of a path leave the directories there are. -/
def missing (s : VirtualDisc) : List CString → Nat → Effect
  | [], _ => .nothing
  | name :: rest, dir =>
    match s.findInDir dir name with
    | .ok (some next) => if (s.nodeTab next).type = .directory then s.missing rest next else .nothing
    | .ok none => .makeDir dir (name :: rest)
    | .error _ => .nothing

def effect (s : VirtualDisc) : Command → Effect
  | .makeDir path => s.missing (components path) 0
  | .copyFileToDisc filename path content =>
    match s.target path with
    | some dir => if s.lookup dir filename = none then .copy dir filename content else .nothing
    | none => .nothing
  | .link pathToDir filename pathToLinkDir linkFilename =>
    match s.locate pathToDir filename, s.target pathToLinkDir with
    | some (_, file), some linkDir => .link linkDir linkFilename file
    | _, _ => .nothing
  | .unlink pathToDir filename =>
    match s.locate pathToDir filename with
    | some (dir, file) => .unlink dir filename file
    | none => .nothing
  | .decreaseFileSize pathToDir filename sizeAmount =>
    match s.locate pathToDir filename with
    | some (_, file) =>
      if (s.nodeTab file).type = .file ∧ sizeAmount.toNat ≤ (s.nodeTab file).size
      then .decrease file sizeAmount.toNat else .nothing
    | none => .nothing
  | .increaseFileSize pathToDir filename sizeAmount =>
    match s.locate pathToDir filename with
    | some (_, file) => if (s.nodeTab file).type = .file then .increase file sizeAmount.toNat else .nothing
    | none => .nothing

def perform (s : VirtualDisc) : Effect → Outcome
  | .nothing => .ok ([], s)
  | .makeDir dir names => makeDirFrom names s dir
  | .copy dir filename content => s.copyInto dir filename (some content)
  | .link dir filename file => s.linkInto dir filename file
  | .unlink dir filename file => (s.unlinkFrom dir filename file).map fun s' => ([], s')
  | .decrease file sizeAmount => (s.decrease file sizeAmount).map fun s' => ([], s')
  | .increase file sizeAmount => s.increase file sizeAmount

structure Navigable (s : VirtualDisc) (chain : Nat → List Nat) : Prop where
  pool : s.PoolOf chain
  inodes : 0 < s.inodesNum
  root : (s.nodeTab 0).type = .directory
  inRange : ∀ d < s.inodesNum, ∀ e ∈ s.entries chain d, e.inodeId < s.inodesNum

variable {s s' : VirtualDisc} {chain : Nat → List Nat} {dir file : Nat} {filename path : CString}

theorem DirectoryConsistent.navigable (directories : s.DirectoryConsistent chain)
    (blocks : s.BlockConsistent chain) : s.Navigable chain where
  pool := blocks.pool
  inodes := directories.inodes
  root := directories.root
  inRange d bounded e listed := (directories.named d bounded e listed).1

def Prefixed (command effect : Outcome) : Prop :=
  ∃ out, command = effect.map fun result => (out ++ result.1, result.2)

theorem Prefixed.of_eq {command effect : Outcome} (same : command = effect) : Prefixed command effect := by
  refine ⟨[], ?_⟩
  subst same
  cases command <;> rfl

theorem Prefixed.nothing (out : List Output) : Prefixed (.ok (out, s)) (s.perform .nothing) :=
  ⟨out, by simp [perform, Except.map]⟩

theorem Prefixed.ok_iff {command effect : Outcome} (prefixed : Prefixed command effect) :
    (∃ out, command = .ok (out, s')) ↔ ∃ out, effect = .ok (out, s') := by
  obtain ⟨before, rfl⟩ := prefixed
  constructor
  · intro ⟨out, returned⟩
    cases effect with
    | error fault => cases returned
    | ok result =>
      obtain ⟨more, t⟩ := result
      cases returned
      exact ⟨more, rfl⟩
  · intro ⟨out, returned⟩
    subst returned
    exact ⟨_, rfl⟩

theorem missing_prefixed (navigable : s.Navigable chain) (names : List CString) (start : Nat)
    (inRange : start < s.inodesNum) : Prefixed (makeDirFrom names s start) (s.perform (s.missing names start)) := by
  induction names generalizing start with
  | nil => exact .of_eq rfl
  | cons name rest ih =>
    rw [missing]
    cases searched : s.findInDir start name with
    | error fault =>
      rw [findInDir_eq navigable.pool inRange] at searched
      cases searched
    | ok found =>
      cases found with
      | none => exact .of_eq rfl
      | some next =>
        obtain ⟨place, _, rfl, _, listed⟩ := mem_entries_of_findInDir navigable.pool searched
        have nextInRange := navigable.inRange start inRange _ listed
        simp only [makeDirFrom, searched, ok_bind, node_eq_ok _ nextInRange]
        by_cases directory : (s.nodeTab (s.elemAt place).inodeId).type = .directory
        · simp only [directory, if_true]
          obtain ⟨out, followed⟩ := ih _ nextInRange
          refine ⟨warnInvalid name ++ out, ?_⟩
          rw [followed]
          cases s.perform (s.missing rest (s.elemAt place).inodeId) with
          | error fault => rfl
          | ok result => simp [Except.map]
        · simp only [directory, if_false]
          exact .nothing _

theorem findDirInode_target (navigable : s.Navigable chain) (path : CString) :
    ∃ out, s.findDirInode path = .ok (out, s.target path) := by
  obtain ⟨⟨out, found⟩, walked⟩ := findDirInodeFrom_ok navigable.pool navigable.inRange (components path)
    navigable.inodes
  refine ⟨out, ?_⟩
  rw [target, findDirInode, walked]

theorem directory_of_target (navigable : s.Navigable chain) (reaches : s.target path = some dir) :
    dir < s.inodesNum ∧ (s.nodeTab dir).type = .directory := by
  obtain ⟨out, found⟩ := findDirInode_target navigable path
  rw [reaches] at found
  exact directory_of_findDirInode navigable.pool navigable.inodes navigable.root found

theorem findInDir_lookup (navigable : s.Navigable chain) (inRange : dir < s.inodesNum) (filename : CString) :
    s.findInDir dir filename = .ok (s.lookup dir filename) := by
  rw [lookup, findInDir_eq navigable.pool inRange]

theorem listed_of_lookup (navigable : s.Navigable chain) (inRange : dir < s.inodesNum)
    (found : s.lookup dir filename = some file) :
    ∃ place, s.placeOn filename (chain dir) = some place ∧ (s.elemAt place).inodeId = file ∧
      (s.nodeTab dir).type = .directory ∧ s.elemAt place ∈ s.entries chain dir := by
  apply mem_entries_of_findInDir navigable.pool
  rw [findInDir_lookup navigable inRange, found]

theorem inRange_of_lookup (navigable : s.Navigable chain) (inRange : dir < s.inodesNum)
    (found : s.lookup dir filename = some file) : file < s.inodesNum := by
  obtain ⟨place, _, rfl, _, listed⟩ := listed_of_lookup navigable inRange found
  exact navigable.inRange dir inRange _ listed

def locating (s : VirtualDisc) (path filename : CString) (found : List Output → Nat → Nat → Outcome) :
    Outcome := do
  let (out, dir) ← s.findDirInode path
  match dir with
  | none => .ok (out ++ [.cerr "Invalid path"], s)
  | some dir =>
    match ← s.findInDir dir filename with
    | none => .ok (out ++ [.cerr "Invalid filename"], s)
    | some file => found out dir file

theorem link_eq (s : VirtualDisc) (pathToDir filename pathToLinkDir linkFilename : CString) :
    s.link pathToDir filename pathToLinkDir linkFilename = s.locating pathToDir filename (fun out _ file => do
      let (more, linkDir) ← s.findDirInode pathToLinkDir
      match linkDir with
      | none => .ok (out ++ more ++ [.cerr "Invalid path"], s)
      | some linkDir => s.linkInto linkDir linkFilename file >>= fun r => .ok (out ++ more ++ r.1, r.2)) := rfl

theorem unlink_eq (s : VirtualDisc) (pathToDir filename : CString) :
    s.unlink pathToDir filename = s.locating pathToDir filename fun out dir file =>
      s.unlinkFrom dir filename file >>= fun s => .ok (out, s) := rfl

theorem decreaseFileSize_eq (s : VirtualDisc) (pathToDir filename : CString) (sizeAmount : UInt32) :
    s.decreaseFileSize pathToDir filename sizeAmount = s.locating pathToDir filename (fun out _ file => do
      let node ← s.node file
      if node.type ≠ .file then .ok (out ++ [.cerr "Invalid filename"], s)
      else if sizeAmount.toNat > node.size then .ok (out ++ [.cerr "Too much size to decrease"], s)
      else s.decrease file sizeAmount.toNat >>= fun s => .ok (out, s)) := rfl

theorem increaseFileSize_eq (s : VirtualDisc) (pathToDir filename : CString) (sizeAmount : UInt32) :
    s.increaseFileSize pathToDir filename sizeAmount = s.locating pathToDir filename (fun out _ file => do
      let node ← s.node file
      if node.type ≠ .file then .ok (out ++ [.cerr "Invalid filename"], s)
      else s.increase file sizeAmount.toNat >>= fun r => .ok (out ++ r.1, r.2)) := rfl

theorem locating_prefixed (navigable : s.Navigable chain) {found : List Output → Nat → Nat → Outcome}
    {effect : Effect} (absent : s.locate path filename = none → effect = .nothing)
    (there : ∀ out dir file, s.locate path filename = some (dir, file) →
      Prefixed (found out dir file) (s.perform effect)) :
    Prefixed (s.locating path filename found) (s.perform effect) := by
  obtain ⟨out, walked⟩ := findDirInode_target navigable path
  cases reached : s.target path with
  | none =>
    rw [absent (by rw [locate, reached]; rfl)]
    simp only [locating, walked, ok_bind, reached]
    exact .nothing _
  | some dir =>
    have inRange := (directory_of_target navigable reached).1
    simp only [locating, walked, ok_bind, reached, findInDir_lookup navigable inRange]
    cases looked : s.lookup dir filename with
    | none =>
      rw [absent (by rw [locate, reached, Option.bind_some, looked]; rfl)]
      exact .nothing _
    | some file => exact there out dir file (by rw [locate, reached, Option.bind_some, looked]; rfl)

theorem Prefixed.after (out : List Output) (effect : Outcome) :
    Prefixed (effect >>= fun r => .ok (out ++ r.1, r.2)) effect := by
  refine ⟨out, ?_⟩
  cases effect <;> rfl

theorem Prefixed.after_disc (out : List Output) (effect : Except Fault VirtualDisc) :
    Prefixed (effect >>= fun s => .ok (out, s)) (effect.map fun s => ([], s)) := by
  refine ⟨out, ?_⟩
  cases effect with
  | error fault => rfl
  | ok s => simp [Except.map]

theorem inRange_of_locate (navigable : s.Navigable chain) (located : s.locate path filename = some (dir, file)) :
    file < s.inodesNum := by
  obtain ⟨d, reaches, located⟩ := Option.bind_eq_some_iff.mp located
  obtain ⟨f, looked, same⟩ := Option.map_eq_some_iff.mp located
  cases same
  exact inRange_of_lookup navigable (directory_of_target navigable reaches).1 looked

/-- A command is its effect, but for what it prints first. -/
theorem exec_prefixed (navigable : s.Navigable chain) (command : Command) :
    Prefixed (s.exec command) (s.perform (s.effect command)) := by
  -- the walks print and leave the disc, so only what follows them is the effect
  cases command with
  | makeDir path => exact missing_prefixed navigable _ _ navigable.inodes
  | copyFileToDisc filename path content =>
    obtain ⟨out, walked⟩ := findDirInode_target navigable path
    simp only [exec, copyFileToDisc, walked, ok_bind, effect]
    cases reached : s.target path with
    | none => exact .nothing _
    | some dir =>
      have inRange := (directory_of_target navigable reached).1
      simp only [findInDir_lookup navigable inRange, ok_bind]
      cases s.lookup dir filename with
      | some file => exact .nothing _
      | none =>
        simp only [if_true]
        exact .after out _
  | link pathToDir filename pathToLinkDir linkFilename =>
    rw [exec, link_eq]
    refine locating_prefixed navigable (fun none_ => ?_) fun out dir file located => ?_
    · simp only [effect, none_]
    · obtain ⟨more, linkWalked⟩ := findDirInode_target navigable pathToLinkDir
      simp only [linkWalked, ok_bind, effect, located]
      cases s.target pathToLinkDir with
      | none => exact .nothing _
      | some linkDir => exact .after (out ++ more) _
  | unlink pathToDir filename =>
    rw [exec, unlink_eq]
    refine locating_prefixed navigable (fun none_ => ?_) fun out dir file located => ?_
    · simp only [effect, none_]
    · simp only [effect, located]
      exact .after_disc out _
  | decreaseFileSize pathToDir filename sizeAmount =>
    rw [exec, decreaseFileSize_eq]
    refine locating_prefixed navigable (fun none_ => ?_) fun out dir file located => ?_
    · simp only [effect, none_]
    · simp only [effect, located, node_eq_ok _ (inRange_of_locate navigable located), ok_bind]
      by_cases isFile : (s.nodeTab file).type = .file
      · by_cases fits : sizeAmount.toNat ≤ (s.nodeTab file).size
        · simp only [isFile, fits, ne_eq, not_true_eq_false, if_false, and_self, if_true, Nat.not_lt.mpr fits]
          exact .after_disc out _
        · simp only [isFile, fits, ne_eq, not_true_eq_false, if_false, and_false, Nat.lt_of_not_le fits, if_true]
          exact .nothing _
      · simp only [isFile, ne_eq, not_false_eq_true, if_true, false_and, if_false]
        exact .nothing _
  | increaseFileSize pathToDir filename sizeAmount =>
    rw [exec, increaseFileSize_eq]
    refine locating_prefixed navigable (fun none_ => ?_) fun out dir file located => ?_
    · simp only [effect, none_]
    · simp only [effect, located, node_eq_ok _ (inRange_of_locate navigable located), ok_bind]
      by_cases isFile : (s.nodeTab file).type = .file
      · simp only [isFile, ne_eq, not_true_eq_false, if_false, if_true]
        exact .after out _
      · simp only [isFile, ne_eq, not_false_eq_true, if_true, if_false]
        exact .nothing _

/-! ## What effects are about -/

def Named (s : VirtualDisc) (chain : Nat → List Nat) (i : Nat) : Prop :=
  ∃ d < s.inodesNum, ∃ e ∈ s.entries chain d, e.inodeId = i

inductive FromRoot (s : VirtualDisc) (chain : Nat → List Nat) : Nat → Prop where
  | root : FromRoot s chain 0
  | entry {d : Nat} {e : DirectoryElement} : d < s.inodesNum → FromRoot s chain d → e ∈ s.entries chain d →
      e.inodeId < s.inodesNum → (s.nodeTab e.inodeId).type = .directory → FromRoot s chain e.inodeId

structure Found (s : VirtualDisc) (chain : Nat → List Nat) (dir : Nat) : Prop where
  inRange : dir < s.inodesNum
  directory : (s.nodeTab dir).type = .directory
  fromRoot : s.FromRoot chain dir

theorem FromRoot.found (navigable : s.Navigable chain) (fromRoot : s.FromRoot chain dir) : s.Found chain dir := by
  refine ⟨?_, ?_, fromRoot⟩
  · cases fromRoot with
    | root => exact navigable.inodes
    | entry _ _ _ inRange _ => exact inRange
  · cases fromRoot with
    | root => exact navigable.root
    | entry _ _ _ _ directory => exact directory

def Valid (s : VirtualDisc) (chain : Nat → List Nat) : Effect → Prop
  | .nothing => True
  | .makeDir dir names => s.Found chain dir ∧ ∃ name rest, names = name :: rest ∧ s.findInDir dir name = .ok none
  | .copy dir filename _ => s.Found chain dir ∧ s.findInDir dir filename = .ok none
  | .link dir _ file => s.Found chain dir ∧ s.Named chain file
  | .unlink dir filename file => s.Found chain dir ∧
      ∃ place, s.placeOn filename (chain dir) = some place ∧ (s.elemAt place).inodeId = file
  | .decrease file sizeAmount =>
      s.Named chain file ∧ (s.nodeTab file).type = .file ∧ sizeAmount ≤ (s.nodeTab file).size
  | .increase file _ => s.Named chain file ∧ (s.nodeTab file).type = .file

theorem found_of_target (navigable : s.Navigable chain) (reaches : s.target path = some dir) :
    s.Found chain dir := by
  obtain ⟨inRange, directory⟩ := directory_of_target navigable reaches
  obtain ⟨out, walked⟩ := findDirInode_target navigable path
  rw [reaches] at walked
  refine ⟨inRange, directory, ?_⟩
  exact findDirInodeFrom_induct (Q := s.FromRoot chain) navigable.pool
    (fun d bounded from_ e listed inTable type => .entry bounded from_ listed inTable type) walked .root

theorem found_of_locate (navigable : s.Navigable chain) (located : s.locate path filename = some (dir, file)) :
    s.Found chain dir ∧ ∃ place, s.placeOn filename (chain dir) = some place ∧ (s.elemAt place).inodeId = file ∧
      s.elemAt place ∈ s.entries chain dir := by
  obtain ⟨d, reaches, located⟩ := Option.bind_eq_some_iff.mp located
  obtain ⟨f, looked, same⟩ := Option.map_eq_some_iff.mp located
  cases same
  have found := found_of_target navigable reaches
  obtain ⟨place, searched, named, _, listed⟩ := listed_of_lookup navigable found.inRange looked
  exact ⟨found, place, searched, named, listed⟩

theorem missing_valid (navigable : s.Navigable chain) (names : List CString) (start : Nat)
    (found : s.Found chain start) : s.Valid chain (s.missing names start) := by
  induction names generalizing start with
  | nil => simp only [missing, Valid]
  | cons name rest ih =>
    cases searched : s.findInDir start name with
    | error fault => simp only [missing, searched, Valid]
    | ok result =>
      cases result with
      | none =>
        simp only [missing, searched, Valid]
        exact ⟨found, name, rest, rfl, searched⟩
      | some next =>
        obtain ⟨place, _, rfl, _, listed⟩ := mem_entries_of_findInDir navigable.pool searched
        have inRange := navigable.inRange start found.inRange _ listed
        by_cases directory : (s.nodeTab (s.elemAt place).inodeId).type = .directory
        · simp only [missing, searched, directory, if_true]
          exact ih _ ⟨inRange, directory, .entry found.inRange found.fromRoot listed inRange directory⟩
        · simp only [missing, searched, directory, if_false, Valid]

theorem effect_valid (navigable : s.Navigable chain) (command : Command) :
    s.Valid chain (s.effect command) := by
  -- a look-up that fails leaves no effect
  cases command with
  | makeDir path => exact missing_valid navigable _ _ ⟨navigable.inodes, navigable.root, .root⟩
  | copyFileToDisc filename path content =>
    cases reached : s.target path with
    | none => simp only [effect, reached, Valid]
    | some dir =>
      have found := found_of_target navigable reached
      by_cases absent : s.lookup dir filename = none
      · simp only [effect, reached, absent, if_true, Valid]
        exact ⟨found, by rw [findInDir_lookup navigable found.inRange, absent]⟩
      · simp only [effect, reached, absent, if_false, Valid]
  | link pathToDir filename pathToLinkDir linkFilename =>
    cases located : s.locate pathToDir filename with
    | none => simp only [effect, located, Valid]
    | some result =>
      obtain ⟨dir, file⟩ := result
      cases reached : s.target pathToLinkDir with
      | none => simp only [effect, located, reached, Valid]
      | some linkDir =>
        obtain ⟨found, place, _, named, listed⟩ := found_of_locate navigable located
        simp only [effect, located, reached, Valid]
        exact ⟨found_of_target navigable reached, dir, found.inRange, _, listed, named⟩
  | unlink pathToDir filename =>
    cases located : s.locate pathToDir filename with
    | none => simp only [effect, located, Valid]
    | some result =>
      obtain ⟨dir, file⟩ := result
      obtain ⟨found, place, searched, named, _⟩ := found_of_locate navigable located
      simp only [effect, located, Valid]
      exact ⟨found, place, searched, named⟩
  | decreaseFileSize pathToDir filename sizeAmount =>
    cases located : s.locate pathToDir filename with
    | none => simp only [effect, located, Valid]
    | some result =>
      obtain ⟨dir, file⟩ := result
      obtain ⟨found, place, _, named, listed⟩ := found_of_locate navigable located
      by_cases fits : (s.nodeTab file).type = .file ∧ sizeAmount.toNat ≤ (s.nodeTab file).size
      · simp only [effect, located, if_pos fits, Valid]
        exact ⟨⟨dir, found.inRange, _, listed, named⟩, fits⟩
      · simp only [effect, located, if_neg fits, Valid]
  | increaseFileSize pathToDir filename sizeAmount =>
    cases located : s.locate pathToDir filename with
    | none => simp only [effect, located, Valid]
    | some result =>
      obtain ⟨dir, file⟩ := result
      obtain ⟨found, place, _, named, listed⟩ := found_of_locate navigable located
      by_cases isFile : (s.nodeTab file).type = .file
      · simp only [effect, located, if_pos isFile, Valid]
        exact ⟨⟨dir, found.inRange, _, listed, named⟩, isFile⟩
      · simp only [effect, located, if_neg isFile, Valid]

/-! ## What effects need -/

def blocksNeeded (s : VirtualDisc) : Effect → Nat
  | .makeDir dir names => s.dirNeed (s.chainOf dir) + (names.length - 1)
  | .copy dir _ content => s.dirNeed (s.chainOf dir) + blocksRead content.length
  | .link dir _ _ => s.dirNeed (s.chainOf dir)
  | .increase file sizeAmount =>
    blocksFor ((s.nodeTab file).size + sizeAmount) - blocksFor (s.nodeTab file).size
  | _ => 0

def inodesNeeded : Effect → Nat
  | .makeDir _ names => names.length
  | .copy _ _ _ => 1
  | _ => 0

/-- There are the free blocks and inodes that the effect needs. -/
def Enough (s : VirtualDisc) (effect : Effect) : Prop :=
  s.blocksNeeded effect ≤ s.freeBlocks.length ∧ inodesNeeded effect ≤ s.freeNodes.length

instance (effect : Effect) : Decidable (s.Enough effect) := inferInstanceAs (Decidable (_ ∧ _))

end VirtualDisc
end SoiStud.FileSystem
