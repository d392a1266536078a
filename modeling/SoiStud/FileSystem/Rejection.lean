import SoiStud.FileSystem.Faults
import SoiStud.FileSystem.Listing
import SoiStud.FileSystem.Shortage

/-! What the commands do with wrong arguments. -/

set_option autoImplicit false

namespace SoiStud.FileSystem

/-- The commands on an existing disc, with what the host makes of their files. -/
inductive Request where
  /-- `content` is what the host file holds, `none` if it cannot be opened. -/
  | cpto (filename path : CString) (content : Option (List UInt8))
  /-- The host file can be opened for writing if `opens`. -/
  | cpfrom (path nameOnVd : CString) (opens : Bool)
  | mkdir (path : CString)
  | rm (path filename : CString)
  | link (pathToDir filename pathToLinkDir linkFilename : CString)
  | unlink (path filename : CString)
  | ls (path : CString)
  | inc (path filename : CString) (size : UInt32)
  | dec (path filename : CString) (size : UInt32)

def Output.isError : Output → Bool
  | .cerr _ => true
  | .cout text => text = "Invalid path"

def InvalidPath (path : CString) : Prop := ∃ name ∈ components path, validateFilename name = false

instance (path : CString) : Decidable (InvalidPath path) :=
  inferInstanceAs (Decidable (∃ name ∈ components path, validateFilename name = false))

def Reports (out : List Output) : Prop := ∃ message ∈ out, message.isError = true

namespace VirtualDisc

open Library

def run (s : VirtualDisc) : Request → Outcome
  | .cpto filename path content => s.copyFileToDisc filename path content
  | .cpfrom path nameOnVd opens => do
    let (out, _) ← s.copyFileFromDisc path nameOnVd opens
    .ok (out, s)
  | .mkdir path => s.makeDir path
  | .rm path filename | .unlink path filename => s.unlink path filename
  | .link pathToDir filename pathToLinkDir linkFilename => s.link pathToDir filename pathToLinkDir linkFilename
  | .ls path => do
    let out ← s.ls path
    .ok (out, s)
  | .inc path filename size => s.increaseFileSize path filename size
  | .dec path filename size => s.decreaseFileSize path filename size

/-- A component names something that is not a directory. -/
def Blocked (s : VirtualDisc) : List CString → Nat → Prop
  | [], _ => False
  | name :: rest, dir =>
    match s.findInDir dir name with
    | .ok (some next) => if (s.nodeTab next).type = .directory then s.Blocked rest next else True
    | _ => False

def Absent (s : VirtualDisc) (path filename : CString) : Prop := s.locate path filename = none

instance (path filename : CString) (s : VirtualDisc) : Decidable (s.Absent path filename) :=
  inferInstanceAs (Decidable (_ = _))

def Locates (s : VirtualDisc) (path filename : CString) (P : Nat → Prop) : Prop :=
  ∃ dir file, s.locate path filename = some (dir, file) ∧ P file

def Wrong (s : VirtualDisc) : Request → Prop
  | .cpto filename path content =>
    InvalidPath path ∨ s.target path = none ∨ validateFilename filename = false ∨ content = none
  | .cpfrom path nameOnVd opens => InvalidPath path ∨ s.Absent path nameOnVd ∨
    s.Locates path nameOnVd (fun file => (s.nodeTab file).type = .directory) ∨ opens = false
  | .mkdir path => InvalidPath path ∨ s.Blocked (components path) 0
  | .rm path filename | .unlink path filename => InvalidPath path ∨ s.Absent path filename
  | .link pathToDir filename pathToLinkDir linkFilename => InvalidPath pathToDir ∨ s.Absent pathToDir filename ∨
    InvalidPath pathToLinkDir ∨ s.target pathToLinkDir = none ∨ validateFilename linkFilename = false
  | .ls path => InvalidPath path ∨ s.target path = none
  | .inc path filename _ => InvalidPath path ∨ s.Absent path filename ∨
    s.Locates path filename fun file => (s.nodeTab file).type = .directory
  | .dec path filename size => InvalidPath path ∨ s.Absent path filename ∨
    s.Locates path filename fun file => (s.nodeTab file).type = .directory ∨ (s.nodeTab file).size < size.toNat

/-- An error is reported and the disc is as it was, or the program exits with a message. -/
def Rejects (s : VirtualDisc) (request : Request) : Prop :=
  (∃ out, s.run request = .ok (out, s) ∧ Reports out) ∨ ∃ message, s.run request = .error (.exit message)

/-- A check stops the command before it changes anything. -/
def Checked (s : VirtualDisc) : Request → Prop
  | .cpto filename path _ => s.target path = none ∨ ¬ s.Absent path filename ∨ s.freeNodes = []
  | .cpfrom path nameOnVd opens => s.Absent path nameOnVd ∨ s.Locates path nameOnVd fun file =>
    (opens = true ∨ s.chainOf file = []) ∧
      (InvalidPath path ∨ blocksFor (s.nodeTab file).size < (s.chainOf file).length)
  | .mkdir path => s.missing (components path) 0 = .nothing ∨ s.freeNodes = []
  | .rm path filename | .unlink path filename => s.Absent path filename
  | .link pathToDir filename pathToLinkDir _ => s.Absent pathToDir filename ∨ s.target pathToLinkDir = none
  | .ls path => s.target path ≠ none
  | .inc path filename size => s.Absent path filename ∨ s.Locates path filename fun file =>
    (s.nodeTab file).type ≠ .file ∨ size = 0 ∧ 0 < (s.nodeTab file).size
  | .dec path filename size => s.Absent path filename ∨ s.Locates path filename fun file =>
    (s.nodeTab file).type ≠ .file ∨ (s.nodeTab file).size < size.toNat ∨ size = 0

variable {s s' : VirtualDisc} {chain : Nat → List Nat} {dir file : Nat} {filename path : CString} {out : List Output}

/-! ## What is printed -/

theorem reports_append {more : List Output} : Reports (out ++ more) ↔ Reports out ∨ Reports more := by
  simp [Reports, or_and_right, exists_or]

theorem not_reports_nil : ¬ Reports [] := fun ⟨_, printed, _⟩ => by cases printed

theorem reports_cerr (text : String) : Reports [.cerr text] := ⟨_, List.mem_singleton_self _, rfl⟩

theorem reports_warnInvalid (name : CString) : Reports (warnInvalid name) ↔ validateFilename name = false := by
  unfold warnInvalid
  cases validateFilename name <;> simp [Reports, Output.isError]

def warnings (path : CString) : List Output := (components path).flatMap warnInvalid

theorem reports_flatMap (names : List CString) :
    Reports (names.flatMap warnInvalid) ↔ ∃ name ∈ names, validateFilename name = false := by
  induction names with
  | nil => simp [Reports]
  | cons name rest ih => rw [List.flatMap_cons, reports_append, reports_warnInvalid, ih, List.exists_mem_cons_iff]

theorem reports_warnings : Reports (warnings path) ↔ InvalidPath path := reports_flatMap _

/-- On the way to a directory the rejected components are reported, and nothing else. -/
theorem findDirInodeFrom_prints {names : List CString} {start : Nat}
    (walked : s.findDirInodeFrom names start = .ok (out, some dir)) : out = names.flatMap warnInvalid := by
  induction names generalizing start out with
  | nil =>
    cases walked
    rfl
  | cons name rest ih =>
    obtain ⟨found, _, walked⟩ := bind_eq_ok.mp walked
    cases found with
    | none => cases walked
    | some next =>
      obtain ⟨node, _, walked⟩ := bind_eq_ok.mp walked
      dsimp only at walked
      split at walked
      next =>
        obtain ⟨⟨more, reached⟩, followed, same⟩ := bind_eq_ok.mp walked
        cases same
        rw [ih followed]
        rfl
      next => cases walked

theorem findDirInode_some (navigable : s.Navigable chain) (reaches : s.target path = some dir) :
    s.findDirInode path = .ok (warnings path, some dir) := by
  obtain ⟨out, walked⟩ := findDirInode_target navigable path
  rw [reaches] at walked
  rw [walked, findDirInodeFrom_prints walked]
  rfl

theorem target_of_locate (located : s.locate path filename = some (dir, file)) :
    s.target path = some dir ∧ s.lookup dir filename = some file := by
  obtain ⟨d, reaches, located⟩ := Option.bind_eq_some_iff.mp located
  obtain ⟨f, looked, same⟩ := Option.map_eq_some_iff.mp located
  cases same
  exact ⟨reaches, looked⟩

theorem locating_some (navigable : s.Navigable chain) {found : List Output → Nat → Nat → Outcome}
    (located : s.locate path filename = some (dir, file)) :
    s.locating path filename found = found (warnings path) dir file := by
  obtain ⟨reaches, looked⟩ := target_of_locate located
  simp only [locating, findDirInode_some navigable reaches, ok_bind,
    findInDir_lookup navigable (directory_of_target navigable reaches).1, looked]

theorem locating_none (navigable : s.Navigable chain) {found : List Output → Nat → Nat → Outcome}
    (absent : s.Absent path filename) : ∃ out, s.locating path filename found = .ok (out, s) ∧ Reports out := by
  obtain ⟨out, walked⟩ := findDirInode_target navigable path
  cases reached : s.target path with
  | none =>
    refine ⟨out ++ [.cerr "Invalid path"], ?_, reports_append.mpr (.inr (reports_cerr _))⟩
    simp only [locating, walked, reached, ok_bind]
  | some dir =>
    have none_ : s.lookup dir filename = none := by
      rw [Absent, locate, reached, Option.bind_some] at absent
      exact Option.map_eq_none_iff.mp absent
    refine ⟨out ++ [.cerr "Invalid filename"], ?_, reports_append.mpr (.inr (reports_cerr _))⟩
    simp only [locating, walked, reached, ok_bind, findInDir_lookup navigable (directory_of_target navigable reached).1,
      none_]

/-! ## Effects that leave the disc as it is -/

theorem decrease_zero (blocks : s.BlockConsistent chain) (inRange : file < s.inodesNum)
    (isFile : (s.nodeTab file).type = .file) : s.decrease file 0 = .ok s := by
  have whole : (chain file).length = blocksFor (s.nodeTab file).size := blocks.sized file inRange isFile
  have linked := blocks.pool.linked file inRange
  rw [decrease_eq inRange linked (blocks.pool.bounded file inRange) (Nat.sub_zero _) whole.ge, ← whole,
    List.take_length, List.drop_length, shrunk, List.foldl_nil, withSize_self, endedAfter]
  cases last : (chain file).getLast? with
  | none =>
    have start : nil64 = s.first file := (linked.list_eq_nil_iff.mp (List.getLast?_eq_none_iff.mp last)).symm
    rw [start]
    exact congrArg Except.ok (withFirst_self s file)
  | some z =>
    obtain ⟨q, tail⟩ := List.getLast?_eq_some_iff.mp last
    rw [tail] at linked
    obtain ⟨_, ending⟩ := linked.suffix
    have ended : nil64 = s.next z := ending.tail.eq_nil.symm
    rw [ended]
    exact congrArg Except.ok (withNext_self s z)

theorem increase_zero (blocks : s.BlockConsistent chain) (inRange : file < s.inodesNum)
    (isFile : (s.nodeTab file).type = .file) (nonEmpty : 0 < (s.nodeTab file).size) :
    s.increase file 0 = .ok ([], s) := by
  have sized := blocks.sized file inRange isFile
  have some_ : chain file ≠ [] := by
    intro none_
    rw [none_] at sized
    simp only [List.length_nil, blocksFor, blockSize] at sized
    omega
  obtain ⟨q, z, tail⟩ := (List.eq_nil_or_concat' (chain file)).resolve_left some_
  rw [increase_eq blocks.pool inRange tail, spare_zero, toppedUp_zero]
  rfl

theorem perform_keeps (blocks : s.BlockConsistent chain) (navigable : s.Navigable chain) {effect : Effect}
    (valid : s.Valid chain effect) (keeps : s.Keeps effect) : ∃ out, s.perform effect = .ok (out, s) := by
  cases effect with
  | nothing => exact ⟨[], rfl⟩
  | makeDir dir names =>
    obtain ⟨out, refused⟩ := perform_refused valid (by
      obtain ⟨_, name, rest, rfl, _⟩ := valid
      exact Nat.succ_ne_zero _) keeps
    exact ⟨_, refused⟩
  | copy dir filename content =>
    obtain ⟨out, refused⟩ := perform_refused valid Nat.one_ne_zero keeps
    exact ⟨_, refused⟩
  | link dir filename file => exact keeps.elim
  | unlink dir filename file => exact keeps.elim
  | decrease file sizeAmount =>
    obtain rfl : sizeAmount = 0 := keeps
    have unchanged := decrease_zero blocks (navigable.inRange_of_named valid.1) valid.2.1
    exact ⟨[], by rw [perform, unchanged]; rfl⟩
  | increase file sizeAmount =>
    obtain ⟨rfl, nonEmpty⟩ := keeps
    exact ⟨[], increase_zero blocks (navigable.inRange_of_named valid.1) valid.2 nonEmpty⟩

theorem exec_keeps_iff (blocks : s.BlockConsistent chain) (navigable : s.Navigable chain) (command : Command) :
    (∃ out, s.exec command = .ok (out, s)) ↔ s.Keeps (s.effect command) := by
  have valid := effect_valid navigable command
  rw [(exec_prefixed navigable command).ok_iff]
  constructor
  · rintro ⟨out, returned⟩
    exact keeps_of_unchanged blocks navigable valid returned (.refl s)
  · exact perform_keeps blocks navigable valid

/-! ## Command by command -/

/-- A command that changes discs rejects its arguments if it leaves the disc as
it is, provided that it then says something. -/
theorem rejects_iff_keeps (blocks : s.BlockConsistent chain) (navigable : s.Navigable chain) {request : Request}
    {command : Command} (same : s.run request = s.exec command)
    (reports : s.Keeps (s.effect command) → ∀ out s', s.exec command = .ok (out, s') → Reports out) :
    s.Rejects request ↔ s.Keeps (s.effect command) := by
  unfold Rejects
  rw [same, ← exec_keeps_iff blocks navigable]
  constructor
  · rintro (⟨out, returned, _⟩ | ⟨message, exits⟩)
    · exact ⟨out, returned⟩
    · exact absurd exits (exec_neverExits navigable command message)
  · rintro ⟨out, returned⟩
    exact .inl ⟨out, returned, reports ((exec_keeps_iff blocks navigable command).mp ⟨out, returned⟩) out s returned⟩

theorem makeDirFrom_reports {names : List CString} {start : Nat}
    (wrong : (∃ name ∈ names, validateFilename name = false) ∨ s.Blocked names start)
    (keeps : s.missing names start = .nothing ∨ s.freeNodes = [])
    (returned : makeDirFrom names s start = .ok (out, s')) : Reports out := by
  induction names generalizing start out s' with
  | nil => simp [Blocked] at wrong
  | cons name rest ih =>
    obtain ⟨found, searched, returned⟩ := bind_eq_ok.mp returned
    cases found with
    | none =>
      -- a missing component is entered unless there is no inode for it
      have noNode : s.findFreeNode = none32 := by
        refine findFreeNode_eq_none32_iff.mpr (keeps.resolve_left fun done => ?_)
        rw [missing, searched] at done
        cases done
      simp only [noNode, if_true] at returned
      cases returned
      exact reports_append.mpr (.inr (reports_cerr _))
    | some next =>
      obtain ⟨node, read, returned⟩ := bind_eq_ok.mp returned
      obtain ⟨_, rfl⟩ := node_ok_iff.mp read
      dsimp only at returned
      split at returned
      next directory =>
        obtain ⟨⟨more, t⟩, made, same⟩ := bind_eq_ok.mp returned
        cases same
        rw [missing, searched] at keeps
        simp only [directory, if_true] at keeps
        rw [reports_append, reports_warnInvalid]
        by_cases invalid : validateFilename name = false
        · exact .inl invalid
        · refine .inr (ih ?_ keeps made)
          rw [List.exists_mem_cons_iff, Blocked, searched] at wrong
          simpa [invalid, directory] using wrong
      next =>
        cases returned
        exact reports_append.mpr (.inr (reports_cerr _))

theorem missing_eq (s : VirtualDisc) (names : List CString) (start : Nat) :
    s.missing names start = .nothing ∨ ∃ dir more, s.missing names start = .makeDir dir more := by
  induction names generalizing start with
  | nil => exact .inl rfl
  | cons name rest ih =>
    rw [missing]
    split
    · split
      · exact ih _
      · exact .inl rfl
    · exact .inr ⟨_, _, rfl⟩
    · exact .inl rfl

theorem mkdir_rejects (blocks : s.BlockConsistent chain) (navigable : s.Navigable chain)
    (wrong : s.Wrong (.mkdir path)) : s.Rejects (.mkdir path) ↔ s.Checked (.mkdir path) := by
  have keeps_iff : s.Keeps (s.effect (.makeDir path)) ↔ s.Checked (.mkdir path) := by
    rw [effect, Checked]
    rcases missing_eq s (components path) 0 with done | ⟨dir, names, more⟩
    · simp [done, Keeps]
    · simp [more, Keeps]
  rw [← keeps_iff]
  refine rejects_iff_keeps blocks navigable rfl fun keeps out s' returned => ?_
  exact makeDirFrom_reports wrong (keeps_iff.mp keeps) returned

theorem unlink_rejects (blocks : s.BlockConsistent chain) (navigable : s.Navigable chain) {request : Request}
    (same : s.run request = s.unlink path filename) : s.Rejects request ↔ s.Absent path filename := by
  have keeps_iff : s.Keeps (s.effect (.unlink path filename)) ↔ s.Absent path filename := by
    cases located : s.locate path filename <;> simp [effect, Absent, located, Keeps]
  rw [← keeps_iff]
  refine rejects_iff_keeps blocks navigable same fun keeps out s' returned => ?_
  obtain ⟨printed, stopped, reports⟩ := locating_none navigable (keeps_iff.mp keeps)
  rw [exec, unlink_eq, stopped] at returned
  cases returned
  exact reports

theorem link_rejects (blocks : s.BlockConsistent chain) (navigable : s.Navigable chain)
    {pathToDir pathToLinkDir linkFilename : CString} :
    s.Rejects (.link pathToDir filename pathToLinkDir linkFilename) ↔
      s.Checked (.link pathToDir filename pathToLinkDir linkFilename) := by
  have keeps_iff : s.Keeps (s.effect (.link pathToDir filename pathToLinkDir linkFilename)) ↔
      s.Absent pathToDir filename ∨ s.target pathToLinkDir = none := by
    cases located : s.locate pathToDir filename <;> cases reached : s.target pathToLinkDir <;>
      simp [effect, Absent, located, reached, Keeps]
  rw [Checked, ← keeps_iff]
  refine rejects_iff_keeps blocks navigable rfl fun keeps out s' returned => ?_
  by_cases absent : s.Absent pathToDir filename
  · obtain ⟨printed, stopped, reports⟩ := locating_none navigable absent
    rw [exec, link_eq, stopped] at returned
    cases returned
    exact reports
  · obtain ⟨⟨dir, file⟩, located⟩ := Option.ne_none_iff_exists'.mp absent
    have nowhere := (keeps_iff.mp keeps).resolve_left absent
    obtain ⟨more, walked⟩ := findDirInode_target navigable pathToLinkDir
    rw [exec, link_eq, locating_some navigable located, walked, nowhere] at returned
    cases returned
    exact reports_append.mpr (.inr (reports_cerr _))

theorem locates_iff {P : Nat → Prop} (located : s.locate path filename = some (dir, file)) :
    s.Locates path filename P ↔ P file := by
  constructor
  · rintro ⟨d, f, again, holds⟩
    rw [located] at again
    cases again
    exact holds
  · intro holds
    exact ⟨dir, file, located, holds⟩

theorem not_absent (located : s.locate path filename = some (dir, file)) : ¬ s.Absent path filename := by
  rw [Absent, located]
  exact Option.some_ne_none _

theorem toNat_eq_zero_iff {n : UInt32} : n.toNat = 0 ↔ n = 0 := by
  rw [← UInt32.toNat_inj, UInt32.toNat_zero]

theorem inc_rejects (blocks : s.BlockConsistent chain) (navigable : s.Navigable chain) {size : UInt32}
    (wrong : s.Wrong (.inc path filename size)) :
    s.Rejects (.inc path filename size) ↔ s.Checked (.inc path filename size) := by
  have keeps_iff : s.Keeps (s.effect (.increaseFileSize path filename size)) ↔ s.Checked (.inc path filename size) := by
    cases located : s.locate path filename with
    | none => simp [effect, Checked, Absent, located, Keeps]
    | some place =>
      rw [Checked, locates_iff located]
      by_cases isFile : (s.nodeTab place.2).type = .file <;>
        simp [effect, not_absent located, located, isFile, Keeps, toNat_eq_zero_iff]
  rw [← keeps_iff]
  refine rejects_iff_keeps blocks navigable rfl fun _ out s' returned => ?_
  rw [exec, increaseFileSize_eq] at returned
  cases located : s.locate path filename with
  | none =>
    obtain ⟨printed, stopped, reports⟩ := locating_none navigable located
    rw [stopped] at returned
    cases returned
    exact reports
  | some place =>
    rw [locating_some navigable located, node_eq_ok _ (inRange_of_locate navigable located), ok_bind] at returned
    split at returned
    next =>
      cases returned
      exact reports_append.mpr (.inr (reports_cerr _))
    -- the disc changes here, and the command has reported nothing but the warnings of the path
    next isFile =>
      obtain ⟨r, _, same⟩ := bind_eq_ok.mp returned
      cases same
      rw [Wrong, locates_iff located, not_not.mp isFile] at wrong
      have invalid : InvalidPath path := by simpa [not_absent located] using wrong
      exact reports_append.mpr (.inl (reports_warnings.mpr invalid))

theorem dec_rejects (blocks : s.BlockConsistent chain) (navigable : s.Navigable chain) {size : UInt32}
    (wrong : s.Wrong (.dec path filename size)) :
    s.Rejects (.dec path filename size) ↔ s.Checked (.dec path filename size) := by
  have keeps_iff : s.Keeps (s.effect (.decreaseFileSize path filename size)) ↔ s.Checked (.dec path filename size) := by
    cases located : s.locate path filename with
    | none => simp [effect, Checked, Absent, located, Keeps]
    | some place =>
      rw [Checked, locates_iff located]
      by_cases fits : (s.nodeTab place.2).type = .file ∧ size.toNat ≤ (s.nodeTab place.2).size
      · simp [effect, not_absent located, located, fits, Keeps, toNat_eq_zero_iff, Nat.not_lt.mpr fits.2]
      · simp only [effect, located, if_neg fits, Keeps, true_iff]
        rw [not_and_or, Nat.not_le] at fits
        exact .inr (fits.imp_right .inl)
  rw [← keeps_iff]
  refine rejects_iff_keeps blocks navigable rfl fun _ out s' returned => ?_
  rw [exec, decreaseFileSize_eq] at returned
  cases located : s.locate path filename with
  | none =>
    obtain ⟨printed, stopped, reports⟩ := locating_none navigable located
    rw [stopped] at returned
    cases returned
    exact reports
  | some place =>
    rw [locating_some navigable located, node_eq_ok _ (inRange_of_locate navigable located), ok_bind] at returned
    split at returned
    next =>
      cases returned
      exact reports_append.mpr (.inr (reports_cerr _))
    next isFile =>
      split at returned
      next =>
        cases returned
        exact reports_append.mpr (.inr (reports_cerr _))
      -- the file has got shorter by the amount, and nothing but a warning has been printed
      next fits =>
        obtain ⟨r, _, same⟩ := bind_eq_ok.mp returned
        cases same
        rw [Wrong, locates_iff located, not_not.mp isFile] at wrong
        have invalid : InvalidPath path := by simpa [not_absent located, fits] using wrong
        exact reports_warnings.mpr invalid

/-- A copy that has an inode to take never leaves the disc as it is, and without
a host file it stops at a null pointer. -/
theorem copyInto_changes (blocks : s.BlockConsistent chain) (inRange : dir < s.inodesNum)
    (directory : (s.nodeTab dir).type = .directory) (free : s.freeNodes ≠ []) (content : Option (List UInt8))
    (out : List Output) : s.copyInto dir filename content ≠ .ok (out, s) := by
  intro returned
  cases content with
  | some content =>
    obtain ⟨chain', extra, _, isFile, _⟩ := copyInto_entered blocks inRange directory free returned
    have empty := (mem_freeNodes.mp (findFreeNode_mem free)).2
    rw [empty] at isFile
    cases isFile
  | none =>
    simp only [copyInto, mt findFreeNode_eq_none32_iff.mp free, if_false] at returned
    obtain ⟨⟨added, t⟩, _, returned⟩ := bind_eq_ok.mp returned
    simp [findFreeDatablock_ne_nil64] at returned

theorem cpto_rejects (blocks : s.BlockConsistent chain) (navigable : s.Navigable chain) {content : Option (List UInt8)} :
    s.Rejects (.cpto filename path content) ↔ s.Checked (.cpto filename path content) := by
  obtain ⟨printed, walked⟩ := findDirInode_target navigable path
  simp only [Rejects, run, copyFileToDisc, Checked, Absent, locate, walked, ok_bind]
  cases reached : s.target path with
  | none => simpa using reports_append.mpr (.inr (reports_cerr _))
  | some dir =>
    obtain ⟨inRange, directory⟩ := directory_of_target navigable reached
    simp only [findInDir_lookup navigable inRange, ok_bind, Option.bind_some, Option.map_eq_none_iff]
    cases looked : s.lookup dir filename with
    | some file => simpa using reports_append.mpr (.inr (reports_cerr _))
    | none =>
      by_cases free : s.freeNodes = []
      · have noNode : s.findFreeNode = none32 := findFreeNode_eq_none32_iff.mpr free
        simp only [copyInto, noNode, if_true, ok_bind]
        simpa [free] using reports_append.mpr (.inr (reports_cerr _))
      · simp only [free, not_true_eq_false, or_self, iff_false, reduceCtorEq, not_or, not_exists]
        refine ⟨fun out returned => ?_, fun message => ?_⟩
        · obtain ⟨⟨copied, t⟩, copying, same⟩ := bind_eq_ok.mp returned.1
          cases same
          exact copyInto_changes blocks inRange directory free content copied copying
        · exact NeverExits.bind (s.copyInto_neverExits dir filename content) (fun _ => .ok _) message

/-- The reader fails exactly on a chain that is longer than the size needs. -/
theorem outputLoop_ends {fuel idx : Nat} (size : Nat) {l : List Nat} (linked : Chain s.next nil64 idx l)
    (bounded : ∀ b ∈ l, b < s.datablocksNum) (enough : l.length < fuel) :
    if blocksFor size < l.length then s.outputLoop fuel idx size = .error (.exit "Error while saving to file")
    else ∃ bytes, s.outputLoop fuel idx size = .ok bytes := by
  induction l generalizing fuel idx size with
  | nil =>
    obtain ⟨fuel, rfl⟩ := Nat.exists_eq_add_of_lt enough
    exact ⟨[], by simp [outputLoop, linked.eq_nil]⟩
  | cons b rest ih =>
    cases fuel with
    | zero => simp at enough
    | succ fuel =>
      obtain rfl := linked.head_eq
      simp only [outputLoop, linked.ne_nil, if_false, block_eq_ok (bounded idx List.mem_cons_self), ok_bind]
      -- the loop writes nothing of a block that is one too many, and takes that for an error
      by_cases done : size = 0
      · have short : blocksFor size < (idx :: rest).length := by simp [done, blocksFor_zero]
        rw [if_pos short, done]
        rfl
      · generalize amount : (if size < blockSize then size else blockSize) = n
        have some_ : n ≠ 0 := by
          rw [← amount]
          split
          · exact done
          · decide
        have shorter : blocksFor (size - n) + 1 = blocksFor size := by
          rw [← amount]
          split <;> simp only [blocksFor, blockSize] at * <;> omega
        have tail : if blocksFor (size - n) < rest.length then
            s.outputLoop fuel (s.datablockTab idx).next (size - n) = .error (.exit "Error while saving to file")
            else ∃ bytes, s.outputLoop fuel (s.datablockTab idx).next (size - n) = .ok bytes :=
          ih _ linked.tail (fun c member => bounded c (List.mem_cons_of_mem _ member)) (Nat.lt_of_succ_lt_succ enough)
        rw [if_neg some_, List.length_cons, ← shorter]
        by_cases longer : blocksFor (size - n) < rest.length
        · rw [if_pos longer] at tail
          rw [if_pos (Nat.succ_lt_succ longer), tail]
          rfl
        · rw [if_neg longer] at tail
          obtain ⟨bytes, read⟩ := tail
          rw [if_neg (mt Nat.lt_of_succ_lt_succ longer), read]
          exact ⟨_, rfl⟩

theorem cpfrom_rejects (blocks : s.BlockConsistent chain) (navigable : s.Navigable chain) {opens : Bool} :
    s.Rejects (.cpfrom path filename opens) ↔ s.Checked (.cpfrom path filename opens) := by
  obtain ⟨printed, walked⟩ := findDirInode_target navigable path
  cases reached : s.target path with
  | none =>
    have absent : s.Absent path filename := by rw [Absent, locate, reached]; rfl
    simp only [Rejects, run, copyFileFromDisc, Checked, walked, reached, ok_bind, absent, true_or, iff_true]
    exact .inl ⟨_, rfl, reports_append.mpr (.inr (reports_cerr _))⟩
  | some dir =>
    obtain ⟨inRange, directory⟩ := directory_of_target navigable reached
    cases looked : s.lookup dir filename with
    | none =>
      have absent : s.Absent path filename := by rw [Absent, locate, reached, Option.bind_some, looked]; rfl
      simp only [Rejects, run, copyFileFromDisc, Checked, walked, reached, ok_bind, findInDir_lookup navigable inRange,
        looked, absent, true_or, iff_true]
      exact .inl ⟨_, rfl, reports_append.mpr (.inr (reports_cerr _))⟩
    | some file =>
      have located : s.locate path filename = some (dir, file) := by
        rw [locate, reached, Option.bind_some, looked]
        rfl
      have fileInRange := inRange_of_locate navigable located
      have linked := blocks.pool.linked file fileInRange
      have few := blocks.pool.length_le fileInRange
      have ends := outputLoop_ends (s.nodeTab file).size linked (blocks.pool.bounded file fileInRange)
        (Nat.lt_succ_of_le few)
      have empty_iff : chain file = [] ↔ s.first file = nil64 := linked.list_eq_nil_iff
      have start : (s.nodeTab file).firstDataBlock = s.first file := rfl
      rw [Checked, locates_iff located, or_iff_right (not_absent located), blocks.pool.chainOf_eq fileInRange, empty_iff]
      simp only [Rejects, run, copyFileFromDisc, findDirInode_some navigable reached, ok_bind,
        findInDir_lookup navigable inRange, looked, node_eq_ok _ fileInRange, start]
      -- that the file outside did not open is seen only where there is a block to write
      by_cases stuck : opens = false ∧ s.first file ≠ nil64
      · simp [stuck]
      · have goesOn : opens = true ∨ s.first file = nil64 := by
          cases opens <;> simp_all
        have passes : (!opens && decide (s.first file ≠ nil64)) = false := by
          rcases goesOn with h | h <;> simp [h]
        simp only [passes, Bool.false_eq_true, if_false, goesOn, true_and]
        by_cases longer : blocksFor (s.nodeTab file).size < (chain file).length
        · rw [if_pos longer] at ends
          simp [ends, longer]
        · rw [if_neg longer] at ends
          obtain ⟨bytes, read⟩ := ends
          simp [read, longer, ← reports_warnings]

theorem ls_rejects (navigable : s.Navigable chain) (wrong : s.Wrong (.ls path)) :
    s.Rejects (.ls path) ↔ s.Checked (.ls path) := by
  obtain ⟨printed, walked⟩ := findDirInode_target navigable path
  cases reached : s.target path with
  | none => simp [Rejects, run, ls, Checked, walked, reached, printDirContent]
  | some dir =>
    obtain ⟨inRange, directory⟩ := directory_of_target navigable reached
    obtain ⟨content, listed⟩ := printDirContent_ok navigable inRange directory
    have invalid : InvalidPath path := wrong.resolve_right (by simp [reached])
    simp only [Rejects, run, ls, Checked, findDirInode_some navigable reached, reached, ok_bind, listed, ne_eq,
      reduceCtorEq, not_false_eq_true, iff_true]
    exact .inl ⟨_, rfl, reports_append.mpr (.inl (reports_warnings.mpr invalid))⟩

/-- On a consistent disc a command with a wrong argument is rejected exactly if a
check stops it before it changes anything. -/
theorem rejects_iff_checked (consistent : s.Consistent) (request : Request) (wrong : s.Wrong request) :
    s.Rejects request ↔ s.Checked request := by
  obtain ⟨chain, blocks, directories⟩ := consistent
  have navigable := directories.navigable blocks
  cases request with
  | cpto filename path content => exact cpto_rejects blocks navigable
  | cpfrom path nameOnVd opens => exact cpfrom_rejects blocks navigable
  | mkdir path => exact mkdir_rejects blocks navigable wrong
  | rm path filename => exact unlink_rejects blocks navigable rfl
  | link pathToDir filename pathToLinkDir linkFilename => exact link_rejects blocks navigable
  | unlink path filename => exact unlink_rejects blocks navigable rfl
  | ls path => exact ls_rejects navigable wrong
  | inc path filename size => exact inc_rejects blocks navigable wrong
  | dec path filename size => exact dec_rejects blocks navigable wrong

theorem rejects_iff_checked_mkdir : smallDisc.Rejects (.mkdir ⟨List.replicate 16 97, by decide⟩) ↔
    smallDisc.Checked (.mkdir ⟨List.replicate 16 97, by decide⟩) :=
  rejects_iff_checked (blank_consistent (by decide +kernel)) _ (.inl (by decide +kernel))

/-- Nothing tests the directory that is to be listed. -/
theorem ls_nullPointer (navigable : s.Navigable chain) (nowhere : s.target path = none) :
    s.run (.ls path) = .error .nullPointer := by
  obtain ⟨printed, walked⟩ := findDirInode_target navigable path
  simp only [run, ls, walked, nowhere, ok_bind, printDirContent, error_bind]

/-- The listing of a directory that is not there. -/
theorem missing_listed : ∃ (s : VirtualDisc) (request : Request), s.Consistent ∧ s.Wrong request ∧
    s.run request = .error .nullPointer ∧ ¬ s.Rejects request := by
  have consistent : smallDisc.Consistent := blank_consistent (by decide +kernel)
  have nowhere : smallDisc.target ⟨[97], by decide⟩ = none := by decide +kernel
  have listed : smallDisc.run (.ls ⟨[97], by decide⟩) = .error .nullPointer := by
    obtain ⟨chain, blocks, directories⟩ := consistent
    exact ls_nullPointer (directories.navigable blocks) nowhere
  refine ⟨smallDisc, .ls ⟨[97], by decide⟩, consistent, .inr nowhere, listed, ?_⟩
  rintro (⟨out, returned, _⟩ | ⟨message, exits⟩)
  · rw [listed] at returned
    cases returned
  · rw [listed] at exits
    cases exits

end VirtualDisc
end SoiStud.FileSystem
