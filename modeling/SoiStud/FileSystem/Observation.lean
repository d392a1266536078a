import SoiStud.FileSystem.Listing
import SoiStud.FileSystem.Refinement

/-! What the program shows of a disc is what the tree has.

`copy_file_from_disc` writes the content of the file, `ls` prints every name of
the directory once.
-/

set_option autoImplicit false

namespace SoiStud.FileSystem

open Library

variable {s s' : VirtualDisc} {chain : Nat → List Nat} {dir file i : Nat} {path filename : CString}
  {content : List UInt8} {out : List Output} {history : List Command}

namespace Tree

def kind (t : Tree) (i : Nat) : String :=
  match t i with
  | some (.file _) => "file"
  | some (.directory _) => "directory"
  | none => "unknown"

def lines (t : Tree) (entry : CString × Nat) : List Output :=
  [.cout ("- " ++ String.ofList (entry.1.bytes.map fun byte => Char.ofNat byte.toNat)),
    .cout ("\tinode id: " ++ toString entry.2), .cout ("\ttype: " ++ t.kind entry.2)]

end Tree

namespace VirtualDisc

/-! ## copy_file_from_disc -/

theorem Proper.copyFileFromDisc (proper : s.Proper) (reaches : s.tree.target path = some dir)
    (held : FileTree.read s.tree dir filename = some content) :
    ∃ out, s.copyFileFromDisc path filename true = .ok (out, some content) := by
  obtain ⟨chain, blocks, directories, distinct, _⟩ := proper
  have navigable := directories.navigable blocks
  rw [target_tree navigable] at reaches
  obtain ⟨out, walked⟩ := findDirInode_of_target reaches
  obtain ⟨inRange, directory⟩ := directory_of_target navigable reaches
  -- the entry, and the file it is for
  unfold FileTree.read at held
  split at held
  next _ bytes there =>
    cases held
    obtain ⟨file, found, isFile⟩ := Option.bind_eq_some_iff.mp there
    rw [find_tree] at found
    obtain ⟨bounded, type, rfl⟩ := file_of_tree isFile
    have regular := blocks.fileOn bounded type
    have output : s.outputLoop (s.datablocksNum + 1) (s.nodeTab file).firstDataBlock (s.nodeTab file).size =
        .ok (s.contentOn (chain file) (s.nodeTab file).size) :=
      outputLoop_eq regular.linked regular.bounded (Nat.lt_succ_of_le (blocks.pool.length_le bounded)) regular.sized
    rw [content_of_linked regular.linked regular.bounded]
    refine ⟨out, ?_⟩
    simp only [VirtualDisc.copyFileFromDisc, walked, ok_bind, findInDir_of_lookup found, node_eq_ok _ bounded,
      Bool.not_true, Bool.false_and, Bool.false_eq_true, if_false, output]
  next => cases held

/-- After any run of plain commands the disc holds the tree that the commands
make, and every file is read back as the tree has it. -/
theorem files_of_run (run : (commands.restrict Plain).Run history s) : Tree.trees.Run history s.tree ∧
    ∀ path filename dir content, s.tree.target path = some dir → FileTree.read s.tree dir filename = some content →
      ∃ out, s.copyFileFromDisc path filename true = .ok (out, some content) :=
  ⟨tree_run run, fun _ _ _ _ reaches held => (proper_of_reachable ⟨history, run⟩).copyFileFromDisc reaches held⟩

theorem linkedDisc_run : (commands.restrict Plain).Run
    [.copyFileToDisc fileName rootPath [1, 2, 3], .link rootPath fileName rootPath linkName] linkedDisc := by
  have start : (commands.restrict Plain).Run [] smallDisc := .start ⟨_, _, rfl, by decide +kernel⟩
  have copied := start.next (t := smallDisc.after (.copyFileToDisc fileName rootPath [1, 2, 3]))
    ⟨⟨by decide +kernel, exec_after (by decide +kernel)⟩, by decide +kernel⟩
  exact copied.next ⟨⟨by decide +kernel, exec_after (by decide +kernel)⟩, by decide +kernel⟩

theorem files_of_run_linkedDisc : Tree.trees.Run
      [.copyFileToDisc fileName rootPath [1, 2, 3], .link rootPath fileName rootPath linkName] linkedDisc.tree ∧
    ∀ path filename dir content, linkedDisc.tree.target path = some dir →
      FileTree.read linkedDisc.tree dir filename = some content →
      ∃ out, linkedDisc.copyFileFromDisc path filename true = .ok (out, some content) :=
  files_of_run linkedDisc_run

/-! ## ls -/

def entryLines (s : VirtualDisc) (e : DirectoryElement) : List Output :=
  [.cout ("- " ++ e.shown), .cout ("\tinode id: " ++ toString e.inodeId),
    .cout ("\ttype: " ++ (s.nodeTab e.inodeId).type.shown)]

theorem printSlots_eq {idx : Nat} (slots : List Nat)
    (inRange : ∀ i ∈ slots, (s.elemAt (idx, i)).used ≠ 0 → (s.elemAt (idx, i)).inodeId < s.inodesNum) :
    s.printSlots idx slots =
      .ok (((slots.map fun i => s.elemAt (idx, i)).filter fun e => e.used ≠ 0).flatMap s.entryLines) := by
  induction slots with
  | nil => rfl
  | cons i rest ih =>
    have later := ih fun j member => inRange j (List.mem_cons_of_mem _ member)
    rw [printSlots]
    by_cases unused : (s.elemAt (idx, i)).used = 0
    · simp only [unused, if_true, later, List.map_cons, List.filter_cons, ne_eq, not_true_eq_false, decide_false,
        Bool.false_eq_true, if_false]
    · simp only [unused, if_false, node_eq_ok _ (inRange i List.mem_cons_self unused), ok_bind, later, List.map_cons,
        List.filter_cons, ne_eq, not_false_eq_true, decide_true, if_true, List.flatMap_cons, entryLines, List.cons_append,
        List.nil_append]

theorem printBlocks_eq {fuel idx : Nat} {l : List Nat} (linked : Chain s.next nil64 idx l)
    (bounded : ∀ b ∈ l, b < s.datablocksNum) (resolves : s.Resolves l) (enough : l.length < fuel) :
    s.printBlocks fuel idx = .ok ((s.usedElems l).flatMap s.entryLines) := by
  induction l generalizing fuel idx with
  | nil =>
    obtain ⟨fuel, rfl⟩ := Nat.exists_eq_add_of_lt enough
    simp [printBlocks, linked.eq_nil, usedElems]
  | cons b rest ih =>
    cases fuel with
    | zero => simp at enough
    | succ fuel =>
      obtain rfl := linked.head_eq
      have slots := printSlots_eq (s := s) (List.range dirElemsPerBlock) fun i slot used =>
        resolves _ (mem_usedElems_of_slot List.mem_cons_self slot used)
      have later := ih linked.tail (fun c member => bounded c (List.mem_cons_of_mem _ member)) resolves.tail
        (Nat.lt_of_succ_lt_succ enough)
      simp only [printBlocks, linked.ne_nil, if_false, block_eq_ok (bounded idx List.mem_cons_self), ok_bind, slots]
      rw [show (s.datablockTab idx).next = s.next idx from rfl, later, ok_bind, ← List.singleton_append,
        usedElems_append, usedElems_singleton, List.flatMap_append]
      rfl

theorem printDirContent_eq (navigable : s.Navigable chain) (inRange : dir < s.inodesNum)
    (directory : (s.nodeTab dir).type = .directory) : ∃ sums : List Output, sums.length = 3 ∧
      s.printDirContent (some dir) = .ok (sums ++ (s.entries chain dir).flatMap s.entryLines) := by
  have walkable := navigable.walkable
  have linked := walkable.linked dir inRange directory
  have all : s.unchecked [] < s.inodesNum + 1 := by simp [unchecked]
  obtain ⟨found, summedDeep, _⟩ := getSumFilesInDirRecursive_searches walkable _ [] dir inRange directory all
  have bounded := walkable.bounded dir inRange directory
  have printed := printBlocks_eq linked bounded (walkable.resolves inRange directory)
    (Nat.lt_succ_of_le (linked.length_le bounded))
  have first : (s.nodeTab dir).firstDataBlock = s.first dir := rfl
  simp only [printDirContent, getSumFilesInDir_eq walkable inRange directory, summedDeep, node_eq_ok dir inRange, ok_bind,
    first, directory, ne_eq, not_true_eq_false, if_false, printed]
  rw [entries_of_directory directory]
  exact ⟨_, rfl, rfl⟩

theorem kind_tree (inRange : i < s.inodesNum) : s.tree.kind i = (s.nodeTab i).type.shown := by
  unfold Tree.kind
  rw [tree_of_lt inRange, item]
  cases (s.nodeTab i).type <;> rfl

theorem entryLines_eq {e : DirectoryElement} (inRange : e.inodeId < s.inodesNum) :
    s.entryLines e = s.tree.lines (e.filename, e.inodeId) := by
  rw [entryLines, Tree.lines, kind_tree inRange]
  rfl

/-- In every state of a run `ls` lists each name of the directory once, with
what the tree has for it. -/
theorem ls_of_run (reached : (commands.restrict Plain).Reachable s) (path : CString) (dir : Nat)
    (reaches : s.tree.target path = some dir) : ∃ (out sums : List Output) (listed : List (CString × Nat)),
      s.findDirInode path = .ok (out, some dir) ∧ sums.length = 3 ∧
      s.ls path = .ok (out ++ (sums ++ listed.flatMap s.tree.lines)) ∧ (listed.map Prod.fst).Nodup ∧
      ∀ name i, (name, i) ∈ listed ↔ FileTree.find s.tree dir name = some i := by
  obtain ⟨chain, blocks, directories, distinct, _⟩ := proper_of_reachable reached
  have navigable := directories.navigable blocks
  rw [target_tree navigable] at reaches
  obtain ⟨out, walked⟩ := findDirInode_of_target reaches
  obtain ⟨inRange, directory⟩ := directory_of_target navigable reaches
  -- the sums come first, then the lines of the entries in their order
  obtain ⟨sums, three, printed⟩ := printDirContent_eq navigable inRange directory
  refine ⟨out, sums, (s.entries chain dir).map fun e => (e.filename, e.inodeId), walked, three, ?_, ?_, ?_⟩
  · have lines : (s.entries chain dir).flatMap s.entryLines =
        ((s.entries chain dir).map fun e => (e.filename, e.inodeId)).flatMap s.tree.lines := by
      rw [List.flatMap_map]
      apply List.flatMap_congr
      intro e listed
      exact entryLines_eq (navigable.inRange dir inRange e listed)
    simp only [ls, walked, ok_bind, printed, lines]
  · -- names that are the same have the same bytes
    rw [List.map_map]
    apply List.Nodup.of_map CString.bytes
    rw [List.map_map]
    exact distinct.nodup dir inRange
  · intro name i
    rw [find_tree, distinct.lookup_iff blocks.pool inRange, List.mem_map]
    constructor
    · rintro ⟨e, listed, same⟩
      cases same
      exact ⟨e, listed, rfl, rfl⟩
    · rintro ⟨e, listed, named, rfl⟩
      exact ⟨e, listed, Prod.ext (CString.eq_of_bytes named) rfl⟩

theorem ls_of_run_linkedDisc : ∃ (out sums : List Output) (listed : List (CString × Nat)),
    linkedDisc.findDirInode rootPath = .ok (out, some 0) ∧ sums.length = 3 ∧
    linkedDisc.ls rootPath = .ok (out ++ (sums ++ listed.flatMap linkedDisc.tree.lines)) ∧
    (listed.map Prod.fst).Nodup ∧ ∀ name i, (name, i) ∈ listed ↔ FileTree.find linkedDisc.tree 0 name = some i :=
  ls_of_run ⟨_, linkedDisc_run⟩ rootPath 0 rfl

end VirtualDisc
end SoiStud.FileSystem
