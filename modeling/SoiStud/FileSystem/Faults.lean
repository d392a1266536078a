import SoiStud.FileSystem.Commands

/-! No command that changes a disc ends the program: what stops one is an access
outside a table or through a null pointer. -/

set_option autoImplicit false

namespace SoiStud.FileSystem

section
variable {α β : Type} {x : Except Fault α}

def NeverExits (x : Except Fault α) : Prop := ∀ message, x ≠ .error (.exit message)

theorem NeverExits.ok (a : α) : NeverExits (.ok a : Except Fault α) := fun _ same => by cases same

theorem NeverExits.outOfBounds (i : Nat) : NeverExits (.error (.outOfBounds i) : Except Fault α) :=
  fun _ same => by cases same

theorem NeverExits.nullPointer : NeverExits (.error .nullPointer : Except Fault α) := fun _ same => by cases same

theorem NeverExits.diverges : NeverExits (.error .diverges : Except Fault α) := fun _ same => by cases same

theorem NeverExits.bind {f : α → Except Fault β} (first : NeverExits x) (after : ∀ a, NeverExits (f a)) :
    NeverExits (x >>= f) := by
  cases x with
  | ok a => exact after a
  | error fault =>
    intro message same
    cases same
    exact first message rfl

theorem NeverExits.map {f : α → β} (first : NeverExits x) : NeverExits (x.map f) := by
  cases x with
  | ok a => exact .ok _
  | error fault =>
    intro message same
    cases same
    exact first message rfl

end

namespace VirtualDisc

variable (s : VirtualDisc)

theorem node_neverExits (i : Nat) : NeverExits (s.node i) := by
  unfold node
  split
  · exact .ok _
  · exact .outOfBounds i

theorem block_neverExits (b : Nat) : NeverExits (s.block b) := by
  unfold block
  split
  · exact .ok _
  · exact .outOfBounds b

theorem setNext_neverExits (b c : Nat) : NeverExits (s.setNext b c) := by
  unfold setNext
  split
  · exact .ok _
  · exact .outOfBounds b

theorem setData_neverExits (b : Nat) (data : Nat → UInt8) : NeverExits (s.setData b data) := by
  unfold setData
  split
  · exact .ok _
  · exact .outOfBounds b

theorem setMark_neverExits (b : Nat) (v : Bool) : NeverExits (s.setMark b v) := by
  unfold setMark
  split
  · exact .ok _
  · exact .outOfBounds b

theorem findElemFrom_neverExits (filename : CString) (fuel idx : Nat) :
    NeverExits (s.findElemFrom filename fuel idx) := by
  induction fuel generalizing idx with
  | zero => exact .diverges
  | succ fuel ih =>
    unfold findElemFrom
    split
    · exact .ok _
    · refine .bind (s.block_neverExits idx) fun block => ?_
      split
      · exact .ok _
      · exact ih _

theorem findElemInDir_neverExits (dir : Nat) (filename : CString) : NeverExits (s.findElemInDir dir filename) := by
  refine .bind (s.node_neverExits dir) fun node => ?_
  split
  · exact .ok _
  · exact s.findElemFrom_neverExits _ _ _

theorem findInDir_neverExits (dir : Nat) (filename : CString) : NeverExits (s.findInDir dir filename) :=
  .bind (s.findElemInDir_neverExits dir filename) fun _ => .ok _

/-! ## Entering names -/

theorem scanDir_neverExits (elem : DirectoryElement) (fuel idx last : Nat) (success : Bool) :
    NeverExits (scanDir elem fuel s idx last success) := by
  induction fuel generalizing s idx last success with
  | zero => exact .diverges
  | succ fuel ih =>
    unfold scanDir
    split
    · exact .ok _
    · refine .bind (s.block_neverExits idx) fun block => ?_
      dsimp only
      split
      · exact .bind (s.setData_neverExits _ _) fun t => ih t _ _ _
      · exact ih s _ _ _

theorem appendElem_neverExits (last : Nat) (elem : DirectoryElement) : NeverExits (s.appendElem last elem) := by
  refine .bind (s.setNext_neverExits _ _) fun t => ?_
  dsimp only
  split
  · exact .ok _
  · refine .bind (t.block_neverExits _) fun block => ?_
    refine .bind (t.setData_neverExits _ _) fun u => ?_
    exact .bind (u.setMark_neverExits _ _) fun _ => .ok _

theorem insertElem_neverExits (dir : Nat) (elem : DirectoryElement) : NeverExits (s.insertElem dir elem) := by
  refine .bind (s.scanDir_neverExits _ _ _ _ _) fun r => ?_
  dsimp only
  split
  · exact .ok _
  · exact appendElem_neverExits _ _ _

theorem addElemToDir_neverExits (dir : Nat) (name : CString) (nodeId : Nat) :
    NeverExits (s.addElemToDir dir name nodeId) := by
  refine .bind (s.node_neverExits dir) fun node => ?_
  split
  · dsimp only
    split
    · exact .ok _
    · refine .bind (setMark_neverExits _ _ _) fun t => ?_
      exact .bind (t.insertElem_neverExits _ _) fun _ => .ok _
  · exact .bind (s.insertElem_neverExits _ _) fun _ => .ok _

theorem insertDir_neverExits (dir : Nat) (elem : DirectoryElement) : NeverExits (s.insertDir dir elem) := by
  unfold insertDir
  split
  · dsimp only
    split
    · exact .ok _
    · refine .bind (block_neverExits _ _) fun block => ?_
      refine .bind (setData_neverExits _ _ _) fun t => ?_
      exact .bind (t.setMark_neverExits _ _) fun _ => .ok _
  · exact s.insertElem_neverExits dir elem

theorem makeDirFrom_neverExits (names : List CString) (start : Nat) : NeverExits (makeDirFrom names s start) := by
  induction names generalizing s start with
  | nil => exact .ok _
  | cons name rest ih =>
    refine .bind (s.findInDir_neverExits _ _) fun found => ?_
    cases found with
    | some next =>
      refine .bind (s.node_neverExits next) fun node => ?_
      split
      · exact .bind (ih s next) fun _ => .ok _
      · exact .ok _
    | none =>
      dsimp only
      split
      · exact .ok _
      · refine .bind (insertDir_neverExits _ _ _) fun r => ?_
        split
        · exact .ok _
        · exact .bind (ih _ _) fun _ => .ok _

theorem linkInto_neverExits (linkDir : Nat) (linkFilename : CString) (file : Nat) :
    NeverExits (s.linkInto linkDir linkFilename file) :=
  .bind (s.node_neverExits file) fun _ => addElemToDir_neverExits _ _ _ _

/-! ## Removing -/

theorem blockIds_neverExits (fuel id : Nat) : NeverExits (s.blockIds fuel id) := by
  induction fuel generalizing id with
  | zero => exact .diverges
  | succ fuel ih =>
    unfold blockIds
    split
    · exact .ok _
    · refine .bind (s.block_neverExits id) fun block => ?_
      exact .bind (ih _) fun _ => .ok _

theorem deallocDatablocks_neverExits (firstDbId : Nat) : NeverExits (s.deallocDatablocks firstDbId) :=
  .bind (s.blockIds_neverExits _ _) fun _ => .ok _

section
variable {remove : VirtualDisc → Nat → Except Fault VirtualDisc}

theorem removeSlots_neverExits (each : ∀ t i, NeverExits (remove t i)) (idx : Nat) (slots : List Nat) :
    NeverExits (removeSlots remove idx slots s) := by
  induction slots generalizing s with
  | nil => exact .ok _
  | cons i rest ih =>
    unfold removeSlots
    dsimp only
    split
    · exact .bind (each _ _) fun t => ih t
    · exact ih s

theorem removeBlocks_neverExits (each : ∀ t i, NeverExits (remove t i)) (fuel idx : Nat) :
    NeverExits (removeBlocks remove fuel idx s) := by
  induction fuel generalizing s idx with
  | zero => exact .diverges
  | succ fuel ih =>
    unfold removeBlocks
    split
    · exact .ok _
    · refine .bind (s.block_neverExits idx) fun _ => ?_
      exact .bind (s.removeSlots_neverExits each _ _) fun t => ih t _

end

theorem removeFile_neverExits (fuel file : Nat) : NeverExits (removeFile fuel s file) := by
  induction fuel generalizing s file with
  | zero => exact .diverges
  | succ fuel ih =>
    refine .bind (s.node_neverExits file) fun node => ?_
    dsimp only
    split
    · exact .ok _
    · refine .bind ?_ fun t => ?_
      · unfold removeEntries
        split
        · exact removeBlocks_neverExits _ ih _ _
        · exact .ok _
      · exact .bind (t.deallocDatablocks_neverExits _) fun _ => .ok _

theorem unlinkFrom_neverExits (dir : Nat) (filename : CString) (file : Nat) :
    NeverExits (s.unlinkFrom dir filename file) := by
  refine .bind (s.removeFile_neverExits _ _) fun t => ?_
  refine .bind (t.findElemInDir_neverExits _ _) fun found => ?_
  cases found with
  | none => exact .nullPointer
  | some place => exact .ok _

/-! ## Contents and sizes -/

theorem unhookFrom_neverExits (idx fuel curr : Nat) : NeverExits (s.unhookFrom idx fuel curr) := by
  induction fuel generalizing curr with
  | zero => exact .diverges
  | succ fuel ih =>
    unfold unhookFrom
    split
    · exact .ok _
    · refine .bind (s.block_neverExits curr) fun block => ?_
      split
      · exact s.setNext_neverExits _ _
      · exact ih _

theorem removeDatablockFromInode_neverExits (node idx : Nat) :
    NeverExits (s.removeDatablockFromInode node idx) := by
  unfold removeDatablockFromInode
  split
  · exact .ok _
  · exact s.unhookFrom_neverExits _ _ _

theorem fillBlock_neverExits (file curr fuel : Nat) (host : Host) (amount : Nat) :
    NeverExits (fillBlock file curr fuel s host amount) := by
  induction fuel generalizing s host amount with
  | zero => exact .diverges
  | succ fuel ih =>
    unfold fillBlock
    split
    · refine .bind (s.block_neverExits curr) fun block => ?_
      dsimp only
      split
      · exact .ok _
      · exact .bind (s.setData_neverExits _ _) fun t => ih _ _ _
    · exact .ok _

theorem writeLoop_neverExits (file fuel : Nat) (host : Host) (curr : Nat) :
    NeverExits (writeLoop file fuel s host curr) := by
  induction fuel generalizing s host curr with
  | zero => exact .diverges
  | succ fuel ih =>
    refine .bind (s.fillBlock_neverExits _ _ _ _ _) fun r => ?_
    dsimp only
    split
    · exact .ok _
    · split
      · exact .bind (removeDatablockFromInode_neverExits _ _ _) fun _ => .ok _
      · split
        · refine .bind (setMark_neverExits _ _ _) fun t => ?_
          exact .bind (t.setNext_neverExits _ _) fun _ => .ok _
        · refine .bind (setMark_neverExits _ _ _) fun t => ?_
          refine .bind (t.setNext_neverExits _ _) fun u => ?_
          split
          · exact .ok _
          · exact ih _ _ _

theorem copyInto_neverExits (dir : Nat) (filename : CString) (content : Option (List UInt8)) :
    NeverExits (s.copyInto dir filename content) := by
  unfold copyInto
  dsimp only
  split
  · exact .ok _
  · refine .bind (addElemToDir_neverExits _ _ _ _) fun r => ?_
    split
    · exact .ok _
    · split
      · exact .nullPointer
      · exact .bind (writeLoop_neverExits _ _ _ _ _) fun _ => .ok _

theorem skipBlocks_neverExits (n dbId prevDbId : Nat) : NeverExits (s.skipBlocks n dbId prevDbId) := by
  induction n generalizing dbId prevDbId with
  | zero => exact .ok _
  | succ n ih => exact .bind (s.block_neverExits dbId) fun _ => ih _ _

theorem decrease_neverExits (file sizeAmount : Nat) : NeverExits (s.decrease file sizeAmount) := by
  refine .bind (s.node_neverExits file) fun node => ?_
  refine .bind (skipBlocks_neverExits _ _ _ _) fun r => ?_
  refine .bind (deallocDatablocks_neverExits _ _) fun t => ?_
  split
  · exact .ok _
  · exact t.setNext_neverExits _ _

theorem lastBlock_neverExits (fuel lastDbId : Nat) : NeverExits (s.lastBlock fuel lastDbId) := by
  induction fuel generalizing lastDbId with
  | zero => exact .diverges
  | succ fuel ih =>
    refine .bind (s.block_neverExits lastDbId) fun block => ?_
    split
    · exact ih _
    · exact .ok _

theorem growLoop_neverExits (file fuel lastDbId sizeAmount : Nat) :
    NeverExits (growLoop file fuel s lastDbId sizeAmount) := by
  induction fuel generalizing s lastDbId sizeAmount with
  | zero => exact .diverges
  | succ fuel ih =>
    unfold growLoop
    split
    · exact .ok _
    · refine .bind (s.setNext_neverExits _ _) fun t => ?_
      dsimp only
      split
      · exact .ok _
      · refine .bind (t.setMark_neverExits _ _) fun u => ?_
        refine .bind (u.block_neverExits _) fun block => ?_
        exact .bind (u.setData_neverExits _ _) fun _ => ih _ _ _

theorem increase_neverExits (file sizeAmount : Nat) : NeverExits (s.increase file sizeAmount) := by
  refine .bind (s.node_neverExits file) fun node => ?_
  refine .bind (s.lastBlock_neverExits _ _) fun last => ?_
  dsimp only
  split
  · refine .bind (s.block_neverExits last) fun block => ?_
    exact .bind (s.setData_neverExits _ _) fun t => growLoop_neverExits _ _ _ _ _
  · exact s.growLoop_neverExits _ _ _ _

/-! ## Commands -/

theorem perform_neverExits (effect : Effect) : NeverExits (s.perform effect) := by
  cases effect with
  | nothing => exact .ok _
  | makeDir dir names => exact s.makeDirFrom_neverExits names dir
  | copy dir filename content => exact s.copyInto_neverExits dir filename (some content)
  | link dir filename file => exact s.linkInto_neverExits dir filename file
  | unlink dir filename file => exact .map (s.unlinkFrom_neverExits dir filename file)
  | decrease file sizeAmount => exact .map (s.decrease_neverExits file sizeAmount)
  | increase file sizeAmount => exact s.increase_neverExits file sizeAmount

variable {s} in
theorem exec_neverExits {chain : Nat → List Nat} (navigable : s.Navigable chain) (command : Command) :
    NeverExits (s.exec command) := by
  obtain ⟨out, same⟩ := exec_prefixed navigable command
  rw [same]
  exact .map (s.perform_neverExits _)

end VirtualDisc
end SoiStud.FileSystem
