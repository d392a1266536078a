import SoiStud.FileSystem.Contents
import SoiStud.FileSystem.Freeing
import SoiStud.FileSystem.Naming
import SoiStud.Library.FileTree

/-! The disc as a tree of directories and files.

Inodes, blocks and slots are left out: a directory gives an index for a name, a
file has its bytes. On a disc whose names are distinct every command is one step
of this tree, so that a run of commands is a run of the tree.
-/

set_option autoImplicit false

namespace SoiStud.FileSystem

open Library

abbrev Tree := FileTree CString Nat UInt8

/-! ## What the commands do to a tree -/

namespace Tree

def target (t : Tree) (path : CString) : Option Nat := FileTree.resolve t (components path) 0

def locate (t : Tree) (pathToDir filename : CString) : Option (Nat × Nat) :=
  (t.target pathToDir).bind fun dir => (FileTree.find t dir filename).map fun file => (dir, file)

def size (t : Tree) (file : Nat) : Option Nat :=
  match t file with
  | some (.file content) => some content.length
  | _ => none

def missing (t : Tree) : List CString → Nat → Effect
  | [], _ => .nothing
  | name :: rest, dir =>
    match FileTree.find t dir name with
    | some next => if FileTree.isDirectory t next then t.missing rest next else .nothing
    | none => .makeDir dir (name :: rest)

def effect (t : Tree) : Command → Effect
  | .makeDir path => t.missing (components path) 0
  | .copyFileToDisc filename path content =>
    match t.target path with
    | some dir => if FileTree.find t dir filename = none then .copy dir filename content else .nothing
    | none => .nothing
  | .link pathToDir filename pathToLinkDir linkFilename =>
    match t.locate pathToDir filename, t.target pathToLinkDir with
    | some (_, file), some linkDir => .link linkDir linkFilename file
    | _, _ => .nothing
  | .unlink pathToDir filename =>
    match t.locate pathToDir filename with
    | some (dir, file) => .unlink dir filename file
    | none => .nothing
  | .decreaseFileSize pathToDir filename sizeAmount =>
    match t.locate pathToDir filename with
    | some (_, file) => if ∃ n ∈ t.size file, sizeAmount.toNat ≤ n then .decrease file sizeAmount.toNat else .nothing
    | none => .nothing
  | .increaseFileSize pathToDir filename sizeAmount =>
    match t.locate pathToDir filename with
    | some (_, file) => if (t.size file).isSome then .increase file sizeAmount.toNat else .nothing
    | none => .nothing

inductive Performs (t : Tree) : Effect → Tree → Prop where
  | nothing : Performs t .nothing t
  | makeDir {dir : Nat} {names : List CString} {ids : List Nat} : ids.length = names.length → ids.Nodup →
      (∀ i ∈ ids, t i = none) → (∀ name ∈ names.head?, FileTree.find t dir name.stored = none) →
      Performs t (.makeDir dir names) (FileTree.addDirs t dir (names.map CString.stored) ids)
  | copy {dir i : Nat} {filename : CString} {content : List UInt8} : t i = none →
      FileTree.find t dir filename.stored = none →
      Performs t (.copy dir filename content) (FileTree.add t dir filename.stored i (.file content))
  | link {dir file : Nat} {filename : CString} : FileTree.find t dir filename.stored = none →
      Performs t (.link dir filename file) (FileTree.setEntry t dir filename.stored (some file))
  | unlink {dir file : Nat} {filename : CString} :
      Performs t (.unlink dir filename file) (FileTree.remove t dir filename)
  | decrease {file sizeAmount : Nat} : Performs t (.decrease file sizeAmount)
      (FileTree.rewrite t file fun content => content.take (content.length - sizeAmount))
  | increase {file sizeAmount : Nat} : Performs t (.increase file sizeAmount)
      (FileTree.rewrite t file fun content => content ++ List.replicate sizeAmount 0)

def trees : System Tree Command where
  init t := t = fun i => if i = 0 then some (.directory fun _ => none) else none
  step t command t' := Performs t (t.effect command) t'

end Tree

namespace VirtualDisc

variable {s s' : VirtualDisc} {chain chain' : Nat → List Nat} {dir file i j : Nat} {name filename : CString}
  {elem : DirectoryElement} {effect : Effect} {content : List UInt8}

def item (s : VirtualDisc) (i : Nat) : Option (Item CString Nat UInt8) :=
  match (s.nodeTab i).type with
  | .empty => none
  | .file => some (.file (s.content i))
  | .directory => some (.directory (s.lookup i))

/-- The tree that is on the disc. -/
def tree (s : VirtualDisc) : Tree := fun i => if i < s.inodesNum then s.item i else none

/-! ## What is read of the tree is read of the disc -/

theorem tree_of_lt (inRange : i < s.inodesNum) : s.tree i = s.item i := if_pos inRange

theorem item_eq_none_iff : s.item i = none ↔ (s.nodeTab i).type = .empty := by
  unfold item
  split <;> simp [*]

theorem tree_eq_none_iff (inRange : i < s.inodesNum) : s.tree i = none ↔ (s.nodeTab i).type = .empty := by
  rw [tree_of_lt inRange, item_eq_none_iff]

theorem tree_directory (inRange : i < s.inodesNum) (directory : (s.nodeTab i).type = .directory) :
    s.tree i = some (.directory (s.lookup i)) := by
  simp only [tree_of_lt inRange, item, directory]

theorem tree_file (inRange : i < s.inodesNum) (isFile : (s.nodeTab i).type = .file) :
    s.tree i = some (.file (s.content i)) := by
  simp only [tree_of_lt inRange, item, isFile]

theorem file_of_tree (held : s.tree i = some (.file content)) :
    i < s.inodesNum ∧ (s.nodeTab i).type = .file ∧ s.content i = content := by
  unfold tree at held
  split at held
  next inRange =>
    unfold item at held
    split at held
    next => cases held
    next isFile =>
      cases held
      exact ⟨inRange, isFile, rfl⟩
    next => cases held
  next => cases held

theorem isDirectory_tree (inRange : i < s.inodesNum) :
    FileTree.isDirectory s.tree i = true ↔ (s.nodeTab i).type = .directory := by
  rw [FileTree.isDirectory_iff, tree_of_lt inRange]
  unfold item
  split <;> simp [*]

theorem lookup_of_other (other : dir < s.inodesNum → (s.nodeTab dir).type ≠ .directory) :
    s.lookup dir filename = none := by
  by_cases inRange : dir < s.inodesNum
  · simp only [lookup, findInDir, findElemInDir, node_eq_ok _ inRange, ok_bind, if_pos (other inRange), Option.map_none]
  · simp only [lookup, findInDir, findElemInDir, node, if_neg inRange, error_bind]

theorem find_tree (s : VirtualDisc) (dir : Nat) (name : CString) : FileTree.find s.tree dir name = s.lookup dir name := by
  by_cases found : dir < s.inodesNum ∧ (s.nodeTab dir).type = .directory
  · exact FileTree.find_eq (tree_directory found.1 found.2) name
  · rw [not_and] at found
    rw [lookup_of_other found]
    unfold FileTree.find
    split
    next entry here =>
      by_cases inRange : dir < s.inodesNum
      · rw [tree_of_lt inRange, item] at here
        split at here <;> simp_all
      · rw [tree, if_neg inRange] at here
        cases here
    next => rfl

theorem resolve_tree (navigable : s.Navigable chain) (names : List CString) {start : Nat} {out : List Output}
    {found : Option Nat} (inRange : start < s.inodesNum) (walked : s.findDirInodeFrom names start = .ok (out, found)) :
    FileTree.resolve s.tree names start = found := by
  induction names generalizing start out with
  | nil =>
    cases walked
    rfl
  | cons name rest ih =>
    rw [findDirInodeFrom] at walked
    obtain ⟨next, searched, walked⟩ := bind_eq_ok.mp walked
    have looked : s.lookup start name = next := by rw [lookup, searched]
    rw [FileTree.resolve, find_tree, looked]
    cases next with
    | none =>
      cases walked
      rfl
    | some next =>
      have bounded := inRange_of_lookup navigable inRange looked
      simp only [node_eq_ok _ bounded, ok_bind] at walked
      split at walked
      next directory =>
        obtain ⟨⟨more, found'⟩, further, ends⟩ := bind_eq_ok.mp walked
        cases ends
        simp only [(isDirectory_tree bounded).mpr directory, if_true]
        exact ih bounded further
      next other =>
        cases walked
        have no : FileTree.isDirectory s.tree next ≠ true := fun yes => other ((isDirectory_tree bounded).mp yes)
        simp only [if_neg no]

theorem target_tree (navigable : s.Navigable chain) (path : CString) : s.tree.target path = s.target path := by
  obtain ⟨out, walked⟩ := findDirInode_target navigable path
  exact resolve_tree navigable _ navigable.inodes walked

theorem locate_tree (navigable : s.Navigable chain) (pathToDir filename : CString) :
    s.tree.locate pathToDir filename = s.locate pathToDir filename := by
  simp only [Tree.locate, locate, target_tree navigable, find_tree]

theorem missing_tree (navigable : s.Navigable chain) (names : List CString) {start : Nat}
    (inRange : start < s.inodesNum) : s.tree.missing names start = s.missing names start := by
  induction names generalizing start with
  | nil => rfl
  | cons name rest ih =>
    rw [Tree.missing, missing, find_tree, findInDir_lookup navigable inRange]
    cases looked : s.lookup start name with
    | none => rfl
    | some next =>
      have bounded := inRange_of_lookup navigable inRange looked
      simp only [isDirectory_tree bounded]
      split
      next => exact ih bounded
      next => rfl

theorem size_tree_of_other (inRange : i < s.inodesNum) (other : (s.nodeTab i).type ≠ .file) : s.tree.size i = none := by
  unfold Tree.size
  rw [tree_of_lt inRange, item]
  split
  next content found => split at found <;> simp_all
  next => rfl

theorem size_tree (blocks : s.BlockConsistent chain) (inRange : i < s.inodesNum) (isFile : (s.nodeTab i).type = .file) :
    s.tree.size i = some (s.nodeTab i).size := by
  have regular : s.FileOn i (chain i) :=
    ⟨inRange, isFile, blocks.pool.linked i inRange, blocks.pool.bounded i inRange, blocks.sized i inRange isFile⟩
  simp only [Tree.size, tree_file inRange isFile, regular.length_content]

theorem effect_tree (blocks : s.BlockConsistent chain) (navigable : s.Navigable chain) (command : Command) :
    s.tree.effect command = s.effect command := by
  -- the look-ups of the code are those of the tree
  cases command with
  | makeDir path => exact missing_tree navigable _ navigable.inodes
  | copyFileToDisc filename path content =>
    unfold Tree.effect VirtualDisc.effect
    dsimp only
    rw [target_tree navigable]
    cases s.target path with
    | none => rfl
    | some dir => exact if_congr (by rw [find_tree]) rfl rfl
  | link pathToDir filename pathToLinkDir linkFilename =>
    rcases located : s.locate pathToDir filename with _ | ⟨dir, file⟩ <;> cases reached : s.target pathToLinkDir <;>
      simp only [Tree.effect, VirtualDisc.effect, target_tree navigable, locate_tree navigable, located, reached]
  | unlink pathToDir filename =>
    rcases located : s.locate pathToDir filename with _ | ⟨dir, file⟩ <;>
      simp only [Tree.effect, VirtualDisc.effect, locate_tree navigable, located]
  | decreaseFileSize pathToDir filename sizeAmount =>
    simp only [Tree.effect, VirtualDisc.effect, locate_tree navigable]
    cases located : s.locate pathToDir filename with
    | none => rfl
    | some found =>
      have bounded := inRange_of_locate navigable located
      by_cases isFile : (s.nodeTab found.2).type = .file
      · simp only [size_tree blocks bounded isFile, isFile, Option.mem_some_iff, exists_eq_left', true_and]
      · simp [size_tree_of_other bounded isFile, isFile]
  | increaseFileSize pathToDir filename sizeAmount =>
    simp only [Tree.effect, VirtualDisc.effect, locate_tree navigable]
    cases located : s.locate pathToDir filename with
    | none => rfl
    | some found =>
      have bounded := inRange_of_locate navigable located
      by_cases isFile : (s.nodeTab found.2).type = .file
      · simp [size_tree blocks bounded isFile, isFile]
      · simp [size_tree_of_other bounded isFile, isFile]

end VirtualDisc
end SoiStud.FileSystem
