import SoiStud.FileSystem.Commands
import SoiStud.Library.DepthFirst
import Mathlib.Algebra.BigOperators.Ring.Finset

/-! What `ls` prints: the two sums, and that the listing comes to an end. -/

set_option autoImplicit false

namespace SoiStud.FileSystem

def DirectoryElement.shown (e : DirectoryElement) : String :=
  String.ofList (e.cname.map fun byte => Char.ofNat byte.toNat)

def InodeType.shown : InodeType → String
  | .file => "file"
  | .directory => "directory"
  | .empty => "unknown"

namespace VirtualDisc

/-! ## The sums -/

def sumSlots (s : VirtualDisc) (idx : Nat) : List Nat → Nat → Except Fault Nat
  | [], sum => .ok sum
  | i :: rest, sum =>
    let elem := s.elemAt (idx, i)
    if elem.used = 0 then s.sumSlots idx rest sum
    else do
      let node ← s.node elem.inodeId
      s.sumSlots idx rest ((sum + node.size) % 2 ^ 64)

def sumBlocks (s : VirtualDisc) : Nat → Nat → Nat → Except Fault Nat
  | 0, _, _ => .error .diverges
  | fuel + 1, idx, sum =>
    if idx = nil64 then .ok sum
    else do
      let block ← s.block idx
      let sum ← s.sumSlots idx (List.range dirElemsPerBlock) sum
      s.sumBlocks fuel block.next sum

def getSumFilesInDir (s : VirtualDisc) (dir : Nat) : Except Fault Nat := do
  let node ← s.node dir
  s.sumBlocks (s.datablocksNum + 1) node.firstDataBlock 0

/-- The inner loop of `get_sum_files_in_dir_recursive`, with `checked_inodes_ids` and the sum. -/
def deepSlots (s : VirtualDisc) (deeper : List Nat → Nat → Except Fault (List Nat × Nat)) (idx : Nat) :
    List Nat → List Nat → Nat → Except Fault (List Nat × Nat)
  | [], checked, sum => .ok (checked, sum)
  | i :: rest, checked, sum =>
    let elem := s.elemAt (idx, i)
    if elem.used = 0 ∨ elem.inodeId ∈ checked then s.deepSlots deeper idx rest checked sum
    else do
      let checked := checked ++ [elem.inodeId]
      let node ← s.node elem.inodeId
      match node.type with
      | .directory =>
        let (checked, more) ← deeper checked elem.inodeId
        s.deepSlots deeper idx rest checked ((sum + more) % 2 ^ 64)
      | .file => s.deepSlots deeper idx rest checked ((sum + node.size) % 2 ^ 64)
      | .empty => s.deepSlots deeper idx rest checked sum

def deepBlocks (s : VirtualDisc) (deeper : List Nat → Nat → Except Fault (List Nat × Nat)) :
    Nat → Nat → List Nat → Nat → Except Fault (List Nat × Nat)
  | 0, _, _, _ => .error .diverges
  | fuel + 1, idx, checked, sum =>
    if idx = nil64 then .ok (checked, sum)
    else do
      let block ← s.block idx
      let (checked, sum) ← s.deepSlots deeper idx (List.range dirElemsPerBlock) checked sum
      s.deepBlocks deeper fuel block.next checked sum

/-- `get_sum_files_in_dir_recursive`; `fuel` bounds the depth of its recursion. -/
def getSumFilesInDirRecursive (s : VirtualDisc) : Nat → List Nat → Nat → Except Fault (List Nat × Nat)
  | 0, _, _ => .error .diverges
  | fuel + 1, checked, dir => do
    let node ← s.node dir
    s.deepBlocks (s.getSumFilesInDirRecursive fuel) (s.datablocksNum + 1) node.firstDataBlock checked 0

def getFreeSpace (s : VirtualDisc) : Nat := s.freeBlocks.length * blockSize

/-! ## The listing -/

def printSlots (s : VirtualDisc) (idx : Nat) : List Nat → Except Fault (List Output)
  | [] => .ok []
  | i :: rest =>
    let elem := s.elemAt (idx, i)
    if elem.used = 0 then s.printSlots idx rest
    else do
      let node ← s.node elem.inodeId
      let out ← s.printSlots idx rest
      .ok (.cout ("- " ++ elem.shown) :: .cout ("\tinode id: " ++ toString elem.inodeId) ::
        .cout ("\ttype: " ++ node.type.shown) :: out)

def printBlocks (s : VirtualDisc) : Nat → Nat → Except Fault (List Output)
  | 0, _ => .error .diverges
  | fuel + 1, idx =>
    if idx = nil64 then .ok []
    else do
      let block ← s.block idx
      let here ← s.printSlots idx (List.range dirElemsPerBlock)
      let out ← s.printBlocks fuel block.next
      .ok (here ++ out)

/-- `print_dir_content`; it starts without checked inodes and reads through the
pointer it is given. -/
def printDirContent (s : VirtualDisc) : Option Nat → Except Fault (List Output)
  | none => .error .nullPointer
  | some dir => do
    let sum ← s.getSumFilesInDir dir
    let (_, deepSum) ← s.getSumFilesInDirRecursive (s.inodesNum + 1) [] dir
    let node ← s.node dir
    let sums := [.cout ("Size of files in this directory: " ++ toString sum),
      .cout ("Size of files in this direcotry and subdirectories: " ++ toString deepSum),
      .cout ("Free space on disk: " ++ toString s.getFreeSpace)]
    if node.type ≠ .directory then .ok (sums ++ [.cerr "Not a directory"])
    else
      let out ← s.printBlocks (s.datablocksNum + 1) node.firstDataBlock
      .ok (sums ++ out)

def ls (s : VirtualDisc) (path : CString) : Except Fault (List Output) := do
  let (out, dir) ← s.findDirInode path
  let content ← s.printDirContent dir
  .ok (out ++ content)

/-! ## What is summed -/

open Library

variable {s : VirtualDisc} {chain : Nat → List Nat} {dir : Nat}

structure Walkable (s : VirtualDisc) (chain : Nat → List Nat) : Prop where
  linked : ∀ d < s.inodesNum, (s.nodeTab d).type = .directory → Chain s.next nil64 (s.first d) (chain d)
  bounded : ∀ d < s.inodesNum, (s.nodeTab d).type = .directory → ∀ b ∈ chain d, b < s.datablocksNum
  inRange : ∀ d < s.inodesNum, ∀ e ∈ s.entries chain d, e.inodeId < s.inodesNum

theorem Navigable.walkable (navigable : s.Navigable chain) : s.Walkable chain where
  linked d inRange _ := navigable.pool.linked d inRange
  bounded d inRange _ := navigable.pool.bounded d inRange
  inRange := navigable.inRange

def Resolves (s : VirtualDisc) (blocks : List Nat) : Prop := ∀ e ∈ s.usedElems blocks, e.inodeId < s.inodesNum

theorem Resolves.tail {b : Nat} {rest : List Nat} (resolves : s.Resolves (b :: rest)) : s.Resolves rest := by
  intro e listed
  apply resolves e
  rw [usedElems, List.flatMap_cons]
  exact List.mem_append_right _ listed

theorem Walkable.resolves (walkable : s.Walkable chain) (inRange : dir < s.inodesNum)
    (directory : (s.nodeTab dir).type = .directory) : s.Resolves (chain dir) := by
  intro e listed
  apply walkable.inRange dir inRange
  rwa [entries_of_directory directory]

def inodesOn (s : VirtualDisc) (blocks : List Nat) : List Nat := (s.usedElems blocks).map DirectoryElement.inodeId

def inodesIn (s : VirtualDisc) (chain : Nat → List Nat) (d : Nat) : List Nat :=
  (s.entries chain d).map DirectoryElement.inodeId

theorem inodesIn_of_directory (directory : (s.nodeTab dir).type = .directory) :
    s.inodesIn chain dir = s.inodesOn (chain dir) := by
  rw [inodesIn, entries_of_directory directory, inodesOn]

theorem inodesIn_of_ne (other : (s.nodeTab dir).type ≠ .directory) : s.inodesIn chain dir = [] := by
  rw [inodesIn, entries_of_ne other, List.map_nil]

def inodesOfSlots (s : VirtualDisc) (idx : Nat) (slots : List Nat) : List Nat :=
  ((slots.map fun i => s.elemAt (idx, i)).filter fun e => e.used ≠ 0).map DirectoryElement.inodeId

theorem inodesOn_cons (s : VirtualDisc) (b : Nat) (rest : List Nat) :
    s.inodesOn (b :: rest) = s.inodesOfSlots b (List.range dirElemsPerBlock) ++ s.inodesOn rest := by
  unfold inodesOn usedElems
  rw [List.flatMap_cons, List.map_append]
  rfl

theorem inodesOfSlots_of_unused {idx i : Nat} (rest : List Nat) (unused : (s.elemAt (idx, i)).used = 0) :
    s.inodesOfSlots idx (i :: rest) = s.inodesOfSlots idx rest := by
  simp [inodesOfSlots, unused]

theorem inodesOfSlots_of_used {idx i : Nat} (rest : List Nat) (used : (s.elemAt (idx, i)).used ≠ 0) :
    s.inodesOfSlots idx (i :: rest) = (s.elemAt (idx, i)).inodeId :: s.inodesOfSlots idx rest := by
  simp [inodesOfSlots, used]

theorem mem_usedElems_of_slot {blocks : List Nat} {b i : Nat} (member : b ∈ blocks)
    (slot : i ∈ List.range dirElemsPerBlock) (used : (s.elemAt (b, i)).used ≠ 0) :
    s.elemAt (b, i) ∈ s.usedElems blocks :=
  List.mem_flatMap.mpr ⟨b, member, List.mem_filter.mpr ⟨List.mem_map_of_mem slot, decide_eq_true used⟩⟩

def sizes (s : VirtualDisc) (inodes : List Nat) : Nat := (inodes.map fun i => (s.nodeTab i).size).sum

theorem sizes_cons (s : VirtualDisc) (i : Nat) (l : List Nat) : s.sizes (i :: l) = (s.nodeTab i).size + s.sizes l :=
  List.sum_cons

theorem sizes_append (s : VirtualDisc) (l m : List Nat) : s.sizes (l ++ m) = s.sizes l + s.sizes m := by
  rw [sizes, List.map_append, List.sum_append, sizes, sizes]

theorem sumSlots_eq {idx : Nat} (slots : List Nat) (sum : Nat)
    (inRange : ∀ i ∈ slots, (s.elemAt (idx, i)).used ≠ 0 → (s.elemAt (idx, i)).inodeId < s.inodesNum) :
    s.sumSlots idx slots (sum % 2 ^ 64) = .ok ((sum + s.sizes (s.inodesOfSlots idx slots)) % 2 ^ 64) := by
  induction slots generalizing sum with
  | nil => rfl
  | cons i rest ih =>
    have later := fun j member => inRange j (List.mem_cons_of_mem _ member)
    rw [sumSlots]
    by_cases unused : (s.elemAt (idx, i)).used = 0
    · simp only [unused, if_true]
      rw [ih sum later, inodesOfSlots_of_unused rest unused]
    · simp only [unused, if_false, node_eq_ok _ (inRange i List.mem_cons_self unused), ok_bind]
      rw [Nat.mod_add_mod, ih _ later, inodesOfSlots_of_used rest unused, sizes_cons, Nat.add_assoc]

theorem sumBlocks_eq {fuel idx : Nat} {l : List Nat} (sum : Nat) (linked : Chain s.next nil64 idx l)
    (bounded : ∀ b ∈ l, b < s.datablocksNum) (resolves : s.Resolves l) (enough : l.length < fuel) :
    s.sumBlocks fuel idx (sum % 2 ^ 64) = .ok ((sum + s.sizes (s.inodesOn l)) % 2 ^ 64) := by
  induction l generalizing fuel idx sum with
  | nil =>
    obtain ⟨fuel, rfl⟩ := Nat.exists_eq_add_of_lt enough
    simp [sumBlocks, linked.eq_nil, sizes, inodesOn, usedElems]
  | cons b rest ih =>
    cases fuel with
    | zero => simp at enough
    | succ fuel =>
      obtain rfl := linked.head_eq
      have slots := sumSlots_eq (List.range dirElemsPerBlock) sum fun i slot used =>
        resolves _ (mem_usedElems_of_slot List.mem_cons_self slot used)
      have later := ih (sum + s.sizes (s.inodesOfSlots idx (List.range dirElemsPerBlock))) linked.tail
        (fun c member => bounded c (List.mem_cons_of_mem _ member)) resolves.tail (Nat.lt_of_succ_lt_succ enough)
      simp only [sumBlocks, linked.ne_nil, if_false, block_eq_ok (bounded idx List.mem_cons_self), ok_bind, slots]
      rw [show (s.datablockTab idx).next = s.next idx from rfl, later, inodesOn_cons, sizes_append, Nat.add_assoc]

/-- The first of the two sums takes every entry. -/
theorem getSumFilesInDir_eq (walkable : s.Walkable chain) (inRange : dir < s.inodesNum)
    (directory : (s.nodeTab dir).type = .directory) :
    s.getSumFilesInDir dir = .ok (s.sizes (s.inodesIn chain dir) % 2 ^ 64) := by
  have linked := walkable.linked dir inRange directory
  have bounded := walkable.bounded dir inRange directory
  have summed := sumBlocks_eq 0 linked bounded (walkable.resolves inRange directory)
    (Nat.lt_succ_of_le (linked.length_le bounded))
  rw [getSumFilesInDir, node_eq_ok dir inRange, ok_bind, inodesIn_of_directory directory]
  rwa [Nat.zero_add] at summed

/-! ## The sum over directories below -/

def unchecked (s : VirtualDisc) (checked : List Nat) : Nat := (Finset.range s.inodesNum \ checked.toFinset).card

theorem unchecked_mono {checked checked' : List Nat} (more : checked ⊆ checked') :
    s.unchecked checked' ≤ s.unchecked checked := by
  apply Finset.card_le_card
  apply Finset.sdiff_subset_sdiff (Finset.Subset.refl _)
  intro i member
  rw [List.mem_toFinset] at member ⊢
  exact more member

theorem unchecked_push {checked : List Nat} {i : Nat} (bounded : i < s.inodesNum) (new : i ∉ checked) :
    s.unchecked (checked ++ [i]) < s.unchecked checked := by
  apply Finset.card_lt_card
  refine ⟨?_, fun same => ?_⟩
  · apply Finset.sdiff_subset_sdiff (Finset.Subset.refl _)
    intro j member
    rw [List.mem_toFinset] at member ⊢
    exact List.mem_append_left _ member
  · have before : i ∈ Finset.range s.inodesNum \ checked.toFinset := by simp [bounded, new]
    have after := same before
    simp at after

def fileSizes (s : VirtualDisc) (inodes : List Nat) : Nat :=
  (inodes.map fun i => if (s.nodeTab i).type = .file then (s.nodeTab i).size else 0).sum

theorem fileSizes_append (s : VirtualDisc) (l m : List Nat) :
    s.fileSizes (l ++ m) = s.fileSizes l + s.fileSizes m := by
  rw [fileSizes, List.map_append, List.sum_append, fileSizes, fileSizes]

/-- A routine that searches depth first, as long as fewer than `n` inodes are
unchecked, and sums the files it finds. -/
def Searches (s : VirtualDisc) (chain : Nat → List Nat) (n : Nat)
    (deeper : List Nat → Nat → Except Fault (List Nat × Nat)) : Prop :=
  ∀ checked d, d < s.inodesNum → (s.nodeTab d).type = .directory → s.unchecked checked < n →
    ∃ found, deeper checked d = .ok (checked ++ found, s.fileSizes found % 2 ^ 64) ∧
      DepthFirst (s.inodesIn chain) checked (s.inodesIn chain d) found

section
variable {n : Nat} {deeper : List Nat → Nat → Except Fault (List Nat × Nat)}

/-- An inode is checked before the sum goes deeper, so there are fewer left there. -/
theorem deepSlots_found (searches : s.Searches chain n deeper) {idx : Nat} (slots checked : List Nat) (sum : Nat)
    (inRange : ∀ i ∈ slots, (s.elemAt (idx, i)).used ≠ 0 → (s.elemAt (idx, i)).inodeId < s.inodesNum)
    (few : s.unchecked checked ≤ n) :
    ∃ found, s.deepSlots deeper idx slots checked (sum % 2 ^ 64) =
        .ok (checked ++ found, (sum + s.fileSizes found) % 2 ^ 64) ∧
      DepthFirst (s.inodesIn chain) checked (s.inodesOfSlots idx slots) found := by
  induction slots generalizing checked sum with
  | nil => exact ⟨[], by simp [deepSlots, fileSizes], .done⟩
  | cons i rest ih =>
    have later := fun j member => inRange j (List.mem_cons_of_mem _ member)
    rw [deepSlots]
    by_cases unused : (s.elemAt (idx, i)).used = 0
    · rw [if_pos (.inl unused), inodesOfSlots_of_unused rest unused]
      exact ih checked sum later few
    · rw [inodesOfSlots_of_used rest unused]
      by_cases old : (s.elemAt (idx, i)).inodeId ∈ checked
      · obtain ⟨found, returned, search⟩ := ih checked sum later few
        rw [if_pos (.inr old)]
        exact ⟨found, returned, .skip old search⟩
      · have bounded := inRange i List.mem_cons_self unused
        generalize (s.elemAt (idx, i)).inodeId = v at old bounded ⊢
        have fewer := unchecked_push bounded old
        simp only [unused, old, or_self, if_false, node_eq_ok _ bounded, ok_bind]
        -- what is found below the inode, and what its visit adds to the sum
        have visit (inside : List Nat) (below : DepthFirst (s.inodesIn chain) (checked ++ [v]) (s.inodesIn chain v) inside) :
            ∃ found, s.deepSlots deeper idx rest (checked ++ [v] ++ inside) ((sum + s.fileSizes (v :: inside)) % 2 ^ 64) =
                .ok (checked ++ found, (sum + s.fileSizes found) % 2 ^ 64) ∧
              DepthFirst (s.inodesIn chain) checked (v :: s.inodesOfSlots idx rest) found := by
          have fewT : s.unchecked (checked ++ [v] ++ inside) ≤ n :=
            (unchecked_mono (List.subset_append_left _ _)).trans (fewer.le.trans few)
          obtain ⟨after, returned, search⟩ := ih (checked ++ [v] ++ inside) (sum + s.fileSizes (v :: inside)) later fewT
          rw [List.append_assoc, List.singleton_append] at search
          refine ⟨v :: inside ++ after, ?_, .enter old below search⟩
          rw [returned, fileSizes_append, Nat.add_assoc]
          simp
        cases type : (s.nodeTab v).type with
        | directory =>
          obtain ⟨inside, returned, below⟩ := searches _ _ bounded type (fewer.trans_le few)
          obtain ⟨found, rest_, search⟩ := visit inside below
          have size : s.fileSizes (v :: inside) = s.fileSizes inside := by simp [fileSizes, type]
          rw [size] at rest_
          refine ⟨found, ?_, search⟩
          simp only [returned, ok_bind, ← Nat.add_mod, rest_]
        | file =>
          have none_ : s.inodesIn chain v = [] := inodesIn_of_ne (by simp [type])
          obtain ⟨found, rest_, search⟩ := visit [] (by rw [none_]; exact .done)
          have size : s.fileSizes [v] = (s.nodeTab v).size := by simp [fileSizes, type]
          rw [size, List.append_nil] at rest_
          refine ⟨found, ?_, search⟩
          simp only [Nat.mod_add_mod, rest_]
        | empty =>
          have none_ : s.inodesIn chain v = [] := inodesIn_of_ne (by simp [type])
          obtain ⟨found, rest_, search⟩ := visit [] (by rw [none_]; exact .done)
          have size : s.fileSizes [v] = 0 := by simp [fileSizes, type]
          rw [size, List.append_nil, Nat.add_zero] at rest_
          exact ⟨found, rest_, search⟩

theorem deepBlocks_found (searches : s.Searches chain n deeper) {fuel idx : Nat} {l : List Nat} (checked : List Nat)
    (sum : Nat) (linked : Chain s.next nil64 idx l) (bounded : ∀ b ∈ l, b < s.datablocksNum) (resolves : s.Resolves l)
    (enough : l.length < fuel) (few : s.unchecked checked ≤ n) :
    ∃ found, s.deepBlocks deeper fuel idx checked (sum % 2 ^ 64) =
        .ok (checked ++ found, (sum + s.fileSizes found) % 2 ^ 64) ∧
      DepthFirst (s.inodesIn chain) checked (s.inodesOn l) found := by
  induction l generalizing fuel idx checked sum with
  | nil =>
    obtain ⟨fuel, rfl⟩ := Nat.exists_eq_add_of_lt enough
    exact ⟨[], by simp [deepBlocks, linked.eq_nil, fileSizes], .done⟩
  | cons b rest ih =>
    cases fuel with
    | zero => simp at enough
    | succ fuel =>
      obtain rfl := linked.head_eq
      obtain ⟨here, slots, search⟩ := deepSlots_found searches (List.range dirElemsPerBlock) checked sum
        (fun i slot used => resolves _ (mem_usedElems_of_slot List.mem_cons_self slot used)) few
      obtain ⟨after, later, searchLater⟩ := ih (checked ++ here) (sum + s.fileSizes here) linked.tail
        (fun c member => bounded c (List.mem_cons_of_mem _ member)) resolves.tail (Nat.lt_of_succ_lt_succ enough)
        ((unchecked_mono (List.subset_append_left _ _)).trans few)
      refine ⟨here ++ after, ?_, ?_⟩
      · simp only [deepBlocks, linked.ne_nil, if_false, block_eq_ok (bounded idx List.mem_cons_self), ok_bind, slots]
        rw [show (s.datablockTab idx).next = s.next idx from rfl, later, fileSizes_append, List.append_assoc, Nat.add_assoc]
      · rw [inodesOn_cons]
        exact search.append searchLater

end

theorem getSumFilesInDirRecursive_searches (walkable : s.Walkable chain) (fuel : Nat) :
    s.Searches chain fuel (s.getSumFilesInDirRecursive fuel) := by
  induction fuel with
  | zero =>
    intro checked dir _ _ few
    cases few
  | succ fuel ih =>
    intro checked dir inRange directory few
    have linked := walkable.linked dir inRange directory
    have bounded := walkable.bounded dir inRange directory
    obtain ⟨found, returned, search⟩ := deepBlocks_found ih checked 0 linked bounded
      (walkable.resolves inRange directory) (Nat.lt_succ_of_le (linked.length_le bounded)) (Nat.le_of_lt_succ few)
    rw [Nat.zero_add] at returned
    rw [getSumFilesInDirRecursive, node_eq_ok dir inRange, ok_bind, inodesIn_of_directory directory]
    exact ⟨found, returned, search⟩

/-! ## The listing ends -/

theorem printSlots_ok {idx : Nat} (slots : List Nat)
    (inRange : ∀ i ∈ slots, (s.elemAt (idx, i)).used ≠ 0 → (s.elemAt (idx, i)).inodeId < s.inodesNum) :
    ∃ out, s.printSlots idx slots = .ok out := by
  induction slots with
  | nil => exact ⟨[], rfl⟩
  | cons i rest ih =>
    obtain ⟨out, later⟩ := ih fun j member => inRange j (List.mem_cons_of_mem _ member)
    rw [printSlots]
    by_cases unused : (s.elemAt (idx, i)).used = 0
    · simp only [unused, if_true]
      exact ⟨out, later⟩
    · simp only [unused, if_false, node_eq_ok _ (inRange i List.mem_cons_self unused), ok_bind, later]
      exact ⟨_, rfl⟩

theorem printBlocks_ok {fuel idx : Nat} {l : List Nat} (linked : Chain s.next nil64 idx l)
    (bounded : ∀ b ∈ l, b < s.datablocksNum) (resolves : s.Resolves l) (enough : l.length < fuel) :
    ∃ out, s.printBlocks fuel idx = .ok out := by
  induction l generalizing fuel idx with
  | nil =>
    obtain ⟨fuel, rfl⟩ := Nat.exists_eq_add_of_lt enough
    exact ⟨[], by simp [printBlocks, linked.eq_nil]⟩
  | cons b rest ih =>
    cases fuel with
    | zero => simp at enough
    | succ fuel =>
      obtain rfl := linked.head_eq
      obtain ⟨here, slots⟩ := printSlots_ok (List.range dirElemsPerBlock) fun i slot used =>
        resolves _ (mem_usedElems_of_slot List.mem_cons_self slot used)
      obtain ⟨out, later⟩ := ih linked.tail (fun c member => bounded c (List.mem_cons_of_mem _ member))
        resolves.tail (Nat.lt_of_succ_lt_succ enough)
      refine ⟨here ++ out, ?_⟩
      simp only [printBlocks, linked.ne_nil, if_false, block_eq_ok (bounded idx List.mem_cons_self), ok_bind, slots]
      rw [show (s.datablockTab idx).next = s.next idx from rfl, later, ok_bind]

/-- A directory can always be listed, however directories are linked into each other. -/
theorem printDirContent_ok (navigable : s.Navigable chain) (inRange : dir < s.inodesNum)
    (directory : (s.nodeTab dir).type = .directory) : ∃ out, s.printDirContent (some dir) = .ok out := by
  have walkable := navigable.walkable
  have linked := walkable.linked dir inRange directory
  have bounded := walkable.bounded dir inRange directory
  have all : s.unchecked [] < s.inodesNum + 1 := by simp [unchecked]
  obtain ⟨found, summedDeep, _⟩ := getSumFilesInDirRecursive_searches walkable _ [] dir inRange directory all
  obtain ⟨out, printed⟩ := printBlocks_ok linked bounded (walkable.resolves inRange directory)
    (Nat.lt_succ_of_le (linked.length_le bounded))
  have first : (s.nodeTab dir).firstDataBlock = s.first dir := rfl
  simp only [printDirContent, getSumFilesInDir_eq walkable inRange directory, summedDeep, node_eq_ok dir inRange, ok_bind,
    first, directory, ne_eq, not_true_eq_false, if_false, printed]
  exact ⟨_, rfl⟩

end VirtualDisc
end SoiStud.FileSystem
