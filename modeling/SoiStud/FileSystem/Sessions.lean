import SoiStud.FileSystem.Saving

/-! The program run again and again on one host file.

Every invocation opens the disc, does one request and saves the disc over the
file, so that a run of invocations does to the tree what a run of commands does.
-/

set_option autoImplicit false

namespace SoiStud.FileSystem

open Library

variable {s s' : VirtualDisc} {out : List Output} {room : Nat}

/-- The command that a request is, unless it only reads the disc. -/
def Request.command : Request → Option Command
  | .cpto filename path (some content) => some (.copyFileToDisc filename path content)
  | .cpto _ _ none | .cpfrom _ _ _ | .ls _ => none
  | .mkdir path => some (.makeDir path)
  | .rm path filename | .unlink path filename => some (.unlink path filename)
  | .link pathToDir filename pathToLinkDir linkFilename =>
    some (.link pathToDir filename pathToLinkDir linkFilename)
  | .inc path filename size => some (.increaseFileSize path filename size)
  | .dec path filename size => some (.decreaseFileSize path filename size)

/-- The disc is opened, asked and saved, as `main` does for every request. -/
def session (room : Nat) (image : List UInt8) (request : Request) : Except Fault (List Output × List UInt8) := do
  let s ← openImage image
  let (out, s) ← s.run request
  let image ← s.save image room
  .ok (out, image)

/-- Invocations one after the other, the first one `create` with room for an inode. -/
def sessions (room : Nat) : System (List UInt8) Request where
  init image := ∃ fileName size, (inodesOf size).toNat ≠ 0 ∧
    createImage true (imageOf fileName size).length fileName size = .ok image
  step image request image' := ∃ out, session room image request = .ok (out, image')

def Request.opens : Request → Bool
  | .cpto _ _ none => false
  | _ => true

def VirtualDisc.Admits (s : VirtualDisc) (request : Request) : Prop :=
  request.opens = true ∧ ∀ command ∈ request.command, s.Enough (s.effect command) ∧ s.Plain command s

instance (request : Request) : Decidable (s.Admits request) :=
  inferInstanceAs (Decidable (_ ∧ ∀ command ∈ request.command, s.Enough (s.effect command) ∧ s.Plain command s))

def Admitted (image : List UInt8) (request : Request) (_ : List UInt8) : Prop :=
  match openImage image with
  | .ok s => s.Admits request
  | .error _ => True

instance (image image' : List UInt8) (request : Request) : Decidable (Admitted image request image') := by
  unfold Admitted
  exact match openImage image with
    | .ok s => inferInstanceAs (Decidable (s.Admits request))
    | .error _ => .isTrue trivial

namespace VirtualDisc

/-- A request that a disc admits is admitted when the disc is opened again. -/
theorem Agrees.admits {request : Request} (agrees : s.Agrees s') (proper : s.Proper) (admits : s.Admits request) :
    s'.Admits request := by
  refine ⟨admits.1, fun command member => ?_⟩
  obtain ⟨enough, new, once, fits⟩ := admits.2 command member
  have tree := agrees.tree proper
  obtain ⟨chain, blocks, directories, distinct, _⟩ := proper
  have navigable := directories.navigable blocks
  have effect : s'.effect command = s.effect command := by
    rw [← effect_tree blocks navigable, ← effect_tree (agrees.blocks blocks)
      ((agrees.directories blocks.pool directories).navigable (agrees.blocks blocks)), tree]
  obtain ⟨enough', new', once', fits'⟩ :=
    agrees.plain blocks distinct (effect_valid navigable command) navigable enough new once fits
  rw [← effect] at enough' new' once' fits'
  exact ⟨enough', new', once', fits'⟩

structure Holds (image : List UInt8) (s : VirtualDisc) : Prop where
  opened : openImage image = .ok s
  same : s.image = image
  proper : s.Proper
  weightless : s.Weightless
  fits : s.superblock.Fits

theorem holds_image (proper : s.Proper) (weightless : s.Weightless) (fits : s.superblock.Fits) :
    ∃ s', Holds s.image s' ∧ s'.tree = s.tree := by
  obtain ⟨s', opened, agrees, beyond⟩ := (proper.storable weightless fits).openImage
  refine ⟨s', ⟨opened, agrees.image, agrees.proper proper, ?_, by rwa [agrees.superblock]⟩, agrees.tree proper⟩
  intro i other
  by_cases bounded : i < s.inodesNum
  · rw [agrees.nodes i bounded] at other ⊢
    exact weightless i other
  · rw [beyond i bounded]

theorem Holds.admits {image image' : List UInt8} {request : Request} (holds : Holds image s)
    (admitted : Admitted image request image') : s.Admits request := by
  rwa [Admitted, holds.opened] at admitted

theorem run_of_command {request : Request} {command : Command} (is_ : request.command = some command) :
    s.run request = s.exec command := by
  cases request with
  | cpto filename path content =>
    cases content with
    | none => cases is_
    | some content =>
      cases is_
      rfl
  | cpfrom | ls => cases is_
  | mkdir | rm | unlink | link | inc | dec =>
    cases is_
    rfl

theorem run_of_reading {request : Request} (reads : request.command = none)
    (opens : request.opens = true) (returned : s.run request = .ok (out, s')) :
    s' = s := by
  cases request with
  | cpto filename path content =>
    cases content with
    | none => cases opens
    | some content => cases reads
  | cpfrom path name opens =>
    obtain ⟨r, _, ends⟩ := bind_eq_ok.mp returned
    cases ends
    rfl
  | ls path =>
    obtain ⟨r, _, ends⟩ := bind_eq_ok.mp returned
    cases ends
    rfl
  | mkdir | rm | unlink | link | inc | dec => cases reads

theorem Holds.exec {image : List UInt8} {command : Command} (holds : Holds image s) (plain : Plain s command s')
    (enough : s.Enough (s.effect command)) (executed : s.exec command = .ok (out, s')) :
    s'.superblock = s.superblock ∧ s'.Proper ∧ s'.Weightless ∧ Tree.trees.step s.tree command s'.tree := by
  obtain ⟨proper', stepped⟩ := holds.proper.step plain enough executed
  obtain ⟨chain, blocks, directories, _⟩ := holds.proper
  have navigable := directories.navigable blocks
  have valid := effect_valid navigable command
  obtain ⟨out', returned⟩ := (exec_prefixed navigable command).ok_iff.mp ⟨out, executed⟩
  obtain ⟨chain', done⟩ := performed blocks navigable valid enough returned
  exact ⟨done.superblock, proper', holds.weightless.performed blocks.pool valid enough.supplied returned done, stepped⟩

theorem Holds.invoked {image image' : List UInt8} {request : Request} (holds : Holds image s) (admits : s.Admits request)
    (invoked : session room image request = .ok (out, image')) : ∃ s', Holds image' s' ∧
      (request.command = none → image' = image) ∧
      ∀ command ∈ request.command, Tree.trees.step s.tree command s'.tree := by
  rw [FileSystem.session, holds.opened, ok_bind] at invoked
  obtain ⟨⟨more, t⟩, returned, invoked⟩ := bind_eq_ok.mp invoked
  obtain ⟨saved, written, ends⟩ := bind_eq_ok.mp invoked
  cases ends
  -- an invocation that only reads writes the bytes it has read
  cases is_ : request.command with
  | none =>
    obtain rfl := run_of_reading is_ admits.1 returned
    rw [save_of_length (by rw [holds.same])] at written
    cases written
    refine ⟨t, by rwa [holds.same], fun _ => holds.same, ?_⟩
    intro command member
    cases member
  | some command =>
    rw [run_of_command is_] at returned
    obtain ⟨enough, plain⟩ := admits.2 command is_
    have plainT : s.Plain command t := plain
    obtain ⟨superblock, proper, weightless, stepped⟩ := holds.exec plainT enough returned
    have fits : t.superblock.Fits := superblock ▸ holds.fits
    have length : image.length = t.image.length := by
      rw [← holds.same, length_image holds.fits, length_image fits, inodesNum, inodesNum, datablocksNum, datablocksNum,
        superblock]
    rw [save_of_length length] at written
    cases written
    obtain ⟨s', holds', tree⟩ := holds_image proper weightless fits
    refine ⟨s', holds', fun reads => (by cases reads), ?_⟩
    intro again member
    cases member
    rwa [tree]

theorem holds_of_reachable {image : List UInt8} (reached : ((sessions room).restrict Admitted).Reachable image) :
    ∃ s, Holds image s := by
  apply reached.invariant
  · rintro image ⟨fileName, size, some_, written⟩
    rw [createImage_eq] at written
    simp only [Bool.not_true, Bool.false_eq_true, if_false, le_refl, if_true] at written
    cases written
    rw [← create_image some_]
    have inodes : 0 < (create fileName size).inodesNum := Nat.pos_of_ne_zero some_
    obtain ⟨s, holds, _⟩ := holds_image (create_proper inodes) (create_weightless fileName size)
      (createSuperblock_fits fileName size)
    exact ⟨s, holds⟩
  · rintro image request image' ⟨s, holds⟩ ⟨⟨out, invoked⟩, admitted⟩
    obtain ⟨s', holds', _⟩ := holds.invoked (holds.admits admitted) invoked
    exact ⟨s', holds'⟩

end VirtualDisc

def treeOf (image : List UInt8) : Tree :=
  match openImage image with
  | .ok s => s.tree
  | .error _ => fun _ => none

theorem VirtualDisc.Holds.treeOf {image : List UInt8} (holds : VirtualDisc.Holds image s) : treeOf image = s.tree := by
  simp only [FileSystem.treeOf, holds.opened]

theorem treeOf_init {image : List UInt8} (room : Nat) (initial : (sessions room).init image) : Tree.trees.init (treeOf image) := by
  obtain ⟨fileName, size, some_, written⟩ := initial
  rw [createImage_eq] at written
  simp only [Bool.not_true, Bool.false_eq_true, if_false, le_refl, if_true] at written
  cases written
  rw [← VirtualDisc.create_image some_]
  have inodes : 0 < (VirtualDisc.create fileName size).inodesNum := Nat.pos_of_ne_zero some_
  obtain ⟨s, holds, tree⟩ := VirtualDisc.holds_image (VirtualDisc.create_proper inodes)
    (VirtualDisc.create_weightless fileName size) (createSuperblock_fits fileName size)
  rw [holds.treeOf, tree]
  exact VirtualDisc.create_tree inodes

/-- A run of invocations on one host file is a run of its commands on the tree.
The file is the image of a disc throughout, and an invocation that only reads
leaves it byte for byte as it was. -/
theorem sessions_run {history : List Request} {image : List UInt8}
    (run : ((sessions room).restrict Admitted).Run history image) :
    (∃ s, openImage image = .ok s ∧ s.image = image ∧ Tree.trees.Run (history.filterMap Request.command) s.tree) ∧
    ∀ request out image', request.command = none → Admitted image request image' →
      session room image request = .ok (out, image') → image' = image := by
  obtain ⟨s, holds⟩ := VirtualDisc.holds_of_reachable ⟨history, run⟩
  constructor
  · refine ⟨s, holds.opened, holds.same, ?_⟩
    rw [← holds.treeOf]
    apply run.refines
    · intro image initial
      exact treeOf_init room initial
    · rintro image request image' reached ⟨⟨out, invoked⟩, admitted⟩ reads
      obtain ⟨s, holds⟩ := VirtualDisc.holds_of_reachable reached
      obtain ⟨_, _, kept, _⟩ := holds.invoked (holds.admits admitted) invoked
      rw [kept reads]
    · rintro image request image' command reached ⟨⟨out, invoked⟩, admitted⟩ is_
      obtain ⟨s, holds⟩ := VirtualDisc.holds_of_reachable reached
      obtain ⟨s', holds', _, stepped⟩ := holds.invoked (holds.admits admitted) invoked
      rw [holds.treeOf, holds'.treeOf]
      exact stepped command is_
  · intro request out image' reads admitted invoked
    obtain ⟨_, _, kept, _⟩ := holds.invoked (holds.admits admitted) invoked
    exact kept reads

namespace VirtualDisc

theorem Holds.invoke {image : List UInt8} {request : Request} (holds : Holds image s) (admits : s.Admits request)
    (returned : s.run request = .ok (out, s')) : ∃ image', session room image request = .ok (out, image') := by
  have superblock : s'.superblock = s.superblock := by
    cases is_ : request.command with
    | none => rw [run_of_reading is_ admits.1 returned]
    | some command =>
      rw [run_of_command is_] at returned
      obtain ⟨enough, plain⟩ := admits.2 command is_
      have plainT : s.Plain command s' := plain
      exact (holds.exec plainT enough returned).1
  have length : image.length = s'.image.length := by
    have fits : s'.superblock.Fits := superblock ▸ holds.fits
    rw [← holds.same, length_image holds.fits, length_image fits, inodesNum, inodesNum, datablocksNum, datablocksNum,
      superblock]
  refine ⟨s'.image, ?_⟩
  simp only [FileSystem.session, holds.opened, ok_bind, returned, save_of_length length]

end VirtualDisc

open VirtualDisc in
theorem sessions_run_copied : ∃ image, (∃ s, openImage image = .ok s ∧ s.image = image ∧
      Tree.trees.Run [.copyFileToDisc fileName rootPath [1, 2, 3]] s.tree) ∧
    ∀ request out image', request.command = none → Admitted image request image' →
      session 0 image request = .ok (out, image') → image' = image := by
  have some_ : (inodesOf 30000).toNat ≠ 0 := by decide
  have proper : smallDisc.Proper := create_proper (by decide +kernel)
  have weightless : smallDisc.Weightless := create_weightless _ _
  have fits : smallDisc.superblock.Fits := createSuperblock_fits _ _
  obtain ⟨s, opened, agrees, beyond⟩ := (proper.storable weightless fits).openImage
  obtain ⟨s', holds, _⟩ := holds_image proper weightless fits
  have same : s' = s := by simpa [opened] using holds.opened.symm
  subst same
  have admits : s'.Admits (.cpto fileName rootPath (some [1, 2, 3])) := agrees.admits proper (by decide +kernel)
  obtain ⟨enough, _, once, room⟩ := admits.2 _ rfl
  have consistent : s'.Consistent := by
    obtain ⟨chain, blocks, directories, _⟩ := holds.proper
    exact ⟨chain, blocks, directories⟩
  have nonEmpty : s'.OnNonEmpty (s'.effect (.copyFileToDisc fileName rootPath [1, 2, 3])) := by
    simp only [VirtualDisc.effect]
    split
    next =>
      split
      next => trivial
      next => trivial
    next => trivial
  obtain ⟨out, t, executed, _⟩ := exec_consistent consistent _ enough nonEmpty once room
  obtain ⟨image, invoked⟩ := holds.invoke admits executed
  have start : ((sessions 0).restrict Admitted).Run [] smallDisc.image :=
    .start ⟨⟨[100], by decide⟩, 30000, some_, by rw [createImage_eq, smallDisc, create_image some_]; simp⟩
  refine ⟨image, sessions_run (start.next ⟨⟨out, invoked⟩, ?_⟩)⟩
  rw [Admitted, opened]
  exact admits

end SoiStud.FileSystem
