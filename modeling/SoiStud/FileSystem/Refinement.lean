import SoiStud.FileSystem.Additions
import SoiStud.FileSystem.Orphans
import SoiStud.FileSystem.Tree

/-! Every command is a step of the tree on the disc. -/

set_option autoImplicit false

namespace SoiStud.FileSystem

theorem CString.eq_of_bytes {a b : CString} (same : a.bytes = b.bytes) : a = b := by
  cases a
  cases b
  cases same
  rfl

def DirectoryElement.filename (e : DirectoryElement) : CString :=
  ⟨e.cname, fun zero => by simpa using List.mem_takeWhile_imp zero⟩

namespace VirtualDisc

open Library

variable {s s' : VirtualDisc} {chain chain' : Nat → List Nat} {dir file i j : Nat} {name filename : CString}
  {elem : DirectoryElement} {place : Nat × Nat} {effect : Effect} {content : List UInt8} {out : List Output}

/-! ## What a directory has for a name -/

theorem Distinct.lookup_iff (distinct : s.Distinct chain) (pool : s.PoolOf chain) (inRange : dir < s.inodesNum) :
    s.lookup dir name = some i ↔ ∃ e ∈ s.entries chain dir, e.cname = name.bytes ∧ e.inodeId = i := by
  constructor
  · intro found
    obtain ⟨place, placed, index, _, listed⟩ := mem_entries_of_findInDir pool (findInDir_of_lookup found)
    exact ⟨_, listed, (DirectoryElement.is_iff.mp (placeOn_eq_some placed).2.2).2, index⟩
  · rintro ⟨e, listed, named, rfl⟩
    exact distinct.lookup pool inRange listed named

theorem lookup_of_chain_nil (pool : s.PoolOf chain) (inRange : dir < s.inodesNum) (none_ : chain dir = []) :
    s.lookup dir name = none := by
  apply lookup_eq_none pool inRange
  rw [entries_of_chain_nil none_]
  exact List.forall_mem_nil _

theorem Distinct.lookup_congr (distinct : s.Distinct chain) (distinct' : s'.Distinct chain') (pool : s.PoolOf chain)
    (pool' : s'.PoolOf chain') (size : s'.inodesNum = s.inodesNum) (inRange : dir < s.inodesNum)
    (same : s'.entries chain' dir = s.entries chain dir) : s'.lookup dir = s.lookup dir := by
  funext name
  apply Option.ext
  intro i
  rw [distinct.lookup_iff pool inRange, distinct'.lookup_iff pool' (by rwa [size]), same]

theorem Distinct.lookup_inserted (distinct : s.Distinct chain) (distinct' : s'.Distinct chain') (pool : s.PoolOf chain)
    (pool' : s'.PoolOf chain') (size : s'.inodesNum = s.inodesNum) (inRange : dir < s.inodesNum)
    (inserted : (s'.entries chain' dir).Perm (s.entries chain dir ++ [elem])) (named : elem.cname = name.bytes) :
    s'.lookup dir = Function.update (s.lookup dir) name (some elem.inodeId) := by
  have inRange' : dir < s'.inodesNum := by rwa [size]
  have mem (e : DirectoryElement) : e ∈ s'.entries chain' dir ↔ e ∈ s.entries chain dir ∨ e = elem := by
    rw [inserted.mem_iff, List.mem_append, List.mem_singleton]
  funext other
  by_cases same : other = name
  · subst same
    rw [Function.update_self]
    exact distinct'.lookup pool' inRange' ((mem elem).mpr (.inr rfl)) named
  · rw [Function.update_of_ne same]
    apply Option.ext
    intro i
    rw [distinct.lookup_iff pool inRange, distinct'.lookup_iff pool' inRange']
    constructor
    · rintro ⟨e, listed, called, index⟩
      rcases (mem e).mp listed with old | rfl
      · exact ⟨e, old, called, index⟩
      · exact absurd (CString.eq_of_bytes (called.symm.trans named)) same
    · rintro ⟨e, listed, called, index⟩
      exact ⟨e, (mem e).mpr (.inl listed), called, index⟩

theorem Distinct.lookup_removed (distinct : s.Distinct chain) (distinct' : s'.Distinct chain') (pool : s.PoolOf chain)
    (pool' : s'.PoolOf chain') (size : s'.inodesNum = s.inodesNum) (inRange : dir < s.inodesNum)
    (removed : (s.entries chain dir).Perm (elem :: s'.entries chain' dir)) (named : elem.cname = name.bytes) :
    s'.lookup dir = Function.update (s.lookup dir) name none := by
  have inRange' : dir < s'.inodesNum := by rwa [size]
  have unique := distinct.nodup dir inRange
  rw [(removed.map _).nodup_iff, List.map_cons, List.nodup_cons] at unique
  funext other
  by_cases same : other = name
  · subst same
    rw [Function.update_self]
    apply lookup_eq_none pool' inRange'
    intro e listed is_
    exact unique.1 (List.mem_map.mpr ⟨e, listed, by rw [(DirectoryElement.is_iff.mp is_).2, named]⟩)
  · rw [Function.update_of_ne same]
    apply Option.ext
    intro i
    rw [distinct.lookup_iff pool inRange, distinct'.lookup_iff pool' inRange']
    constructor
    · rintro ⟨e, listed, called, index⟩
      exact ⟨e, removed.mem_iff.mpr (List.mem_cons_of_mem _ listed), called, index⟩
    · rintro ⟨e, listed, called, index⟩
      rcases List.mem_cons.mp (removed.mem_iff.mp listed) with rfl | kept
      · exact absurd (CString.eq_of_bytes (called.symm.trans named)) same
      · exact ⟨e, kept, called, index⟩

/-! ## What an operation leaves alone -/

theorem Kept.item (kept : Kept s chain s' chain' i) (pool : s.PoolOf chain) (pool' : s'.PoolOf chain')
    (size : s'.inodesNum = s.inodesNum) (inRange : i < s.inodesNum) : s'.item i = s.item i := by
  have inRange' : i < s'.inodesNum := by rwa [size]
  unfold VirtualDisc.item
  rw [kept.type]
  cases type : (s.nodeTab i).type with
  | empty => rfl
  | file => rw [kept.content pool pool' inRange inRange']
  | directory =>
    have same : s'.lookup i = s.lookup i := by
      funext name
      rw [lookup_eq pool inRange, lookup_eq pool' inRange', kept.type, kept.blocks, placeOn_congr kept.data]
      cases placed : s.placeOn name (chain i) with
      | none => rfl
      | some place => simp only [Option.map_some, elemAt, kept.data _ (placeOn_eq_some placed).1]
    rw [same]

theorem Entered.tree_of_ne (entered : s.Entered chain dir j elem [] s' chain') (pool : s.PoolOf chain)
    (other : i ≠ dir) (old : (s.nodeTab i).type ≠ .empty ∨ i ≠ j) : s'.tree i = s.tree i := by
  have size := inodesNum_eq entered.superblock
  unfold tree
  rw [size]
  split
  next inRange =>
    by_cases live : (s.nodeTab i).type = .empty
    · have empty := entered.types i (old.resolve_left (not_not.mpr live))
      rw [item_eq_none_iff.mpr live, item_eq_none_iff.mpr (empty.trans live)]
    · exact (entered.kept i inRange other live).item pool entered.blocks.pool size inRange
  next => rfl

/-! ## The steps -/

theorem Entered.lookup (entered : s.Entered chain dir j (newElem filename j) [] s' chain')
    (distinct : s.Distinct chain) (distinct' : s'.Distinct chain') (pool : s.PoolOf chain)
    (inRange : dir < s.inodesNum) (small : j < 2 ^ 16) :
    s'.lookup dir = Function.update (s.lookup dir) filename.stored (some j) := by
  have named : (newElem filename j).cname = filename.stored.bytes := cname_newElem filename j
  have inserted := distinct.lookup_inserted distinct' pool entered.blocks.pool (inodesNum_eq entered.superblock)
    inRange entered.inserted named
  rwa [newElem_inodeId filename small] at inserted

theorem Entered.tree_add (entered : s.Entered chain dir j (newElem filename j) [] s' chain')
    (distinct : s.Distinct chain) (distinct' : s'.Distinct chain') (pool : s.PoolOf chain)
    (inRange : dir < s.inodesNum) (directory : (s.nodeTab dir).type = .directory) (small : j < 2 ^ 16)
    (empty : (s.nodeTab j).type = .empty) {item : Item CString Nat UInt8} (new : s'.tree j = some item) :
    s'.tree = FileTree.add s.tree dir filename.stored j item := by
  have size := inodesNum_eq entered.superblock
  have apart : dir ≠ j := fun same => by
    rw [same, empty] at directory
    cases directory
  have directory' := (entered.types dir apart).trans directory
  funext i
  by_cases isNew : i = j
  · subst isNew
    rw [FileTree.add_self, new]
  · rw [FileTree.add_of_ne isNew]
    by_cases here : i = dir
    · subst here
      rw [FileTree.setEntry_self (tree_directory inRange directory), tree_directory (by rwa [size]) directory',
        entered.lookup distinct distinct' pool inRange small]
    · rw [FileTree.setEntry_of_ne here, entered.tree_of_ne pool here (.inr isNew)]

theorem Entered.tree_setEntry (entered : s.Entered chain dir j (newElem filename j) [] s' chain')
    (distinct : s.Distinct chain) (distinct' : s'.Distinct chain') (pool : s.PoolOf chain)
    (inRange : dir < s.inodesNum) (directory : (s.nodeTab dir).type = .directory) (small : j < 2 ^ 16)
    (live : (s.nodeTab j).type ≠ .empty) (type : (s'.nodeTab j).type = (s.nodeTab j).type) :
    s'.tree = FileTree.setEntry s.tree dir filename.stored (some j) := by
  have size := inodesNum_eq entered.superblock
  have directory' : (s'.nodeTab dir).type = .directory := by
    by_cases same : dir = j
    · rw [same] at directory ⊢
      exact type.trans directory
    · exact (entered.types dir same).trans directory
  funext i
  by_cases here : i = dir
  · subst here
    rw [FileTree.setEntry_self (tree_directory inRange directory), tree_directory (by rwa [size]) directory',
      entered.lookup distinct distinct' pool inRange small]
  · rw [FileTree.setEntry_of_ne here]
    apply entered.tree_of_ne pool here
    by_cases same : i = j
    · exact .inl (same ▸ live)
    · exact .inr same

theorem Made.tree {names : List CString} {extra : List DirectoryElement} (made : Made s chain dir names extra s' chain')
    (none_ : extra = []) (distinct : s.Distinct chain) (blocks : s.BlockConsistent chain) (inRange : dir < s.inodesNum)
    (directory : (s.nodeTab dir).type = .directory) (nodes : names.length ≤ s.freeNodes.length)
    (small : ∀ i ∈ s.freeNodes.take names.length, i < 2 ^ 16)
    (new : ∀ name ∈ names.head?, name.stored.bytes ∉ (s.entries chain dir).map DirectoryElement.cname) :
    s'.tree = FileTree.addDirs s.tree dir (names.map CString.stored) (s.freeNodes.take names.length) := by
  -- each directory is entered into the one before it, and is empty then
  induction made with
  | @stop s chain dir names ended =>
    rcases ended with rfl | full
    · rfl
    · have noNames : names = [] := by simpa [full] using nodes
      subst noNames
      rfl
  | @next s t s' chain chainT chain' dir j name rest extra created run ih =>
    rw [List.append_eq_nil_iff, extraDir_eq_nil_iff] at none_
    have entered := created.entered
    rw [extraDir_eq_nil_iff.mpr none_.1] at entered
    have size := inodesNum_eq entered.superblock
    obtain ⟨bounded, empty⟩ := created.fresh
    have bounded' : j < t.inodesNum := by rwa [size]
    rw [created.nodes, List.length_cons] at nodes
    rw [created.nodes, List.length_cons, List.take_succ_cons] at small
    have smallJ := small j (List.mem_cons_self ..)
    have distinctT : t.Distinct chainT := by
      apply distinct.entered entered inRange rfl
      rw [cname_newElem]
      exact new name rfl
    have emptyDir : t.tree j = some (.directory fun _ => none) := by
      rw [tree_directory bounded' created.directory]
      congr 2
      funext name
      exact lookup_of_chain_nil entered.blocks.pool bounded' created.empty
    rw [created.nodes, List.length_cons, List.take_succ_cons, List.map_cons, FileTree.addDirs,
      ← entered.tree_add distinct distinctT blocks.pool inRange directory smallJ empty emptyDir]
    apply ih none_.2 distinctT entered.blocks bounded' created.directory (Nat.le_of_succ_le_succ nodes)
    · intro i member
      exact small i (List.mem_cons_of_mem _ member)
    · intro next _
      rw [entries_of_chain_nil created.empty]
      exact List.not_mem_nil

theorem content_of_linked {blocks : List Nat} (linked : Chain s.next nil64 (s.first i) blocks)
    (bounded : ∀ b ∈ blocks, b < s.datablocksNum) : s.content i = s.contentOn blocks (s.nodeTab i).size := by
  rw [VirtualDisc.content, chainOf_eq_of_linked linked bounded]

theorem copyInto_content (blocks : s.BlockConsistent chain) (inRange : dir < s.inodesNum) (free : s.freeNodes ≠ [])
    (returned : s.copyInto dir filename (some content) = .ok (out, s')) : s'.content s.findFreeNode = content := by
  have allocated := (touched_allocated blocks free).blocks
  rcases addElemToDir_spec allocated.pool inRange filename s.findFreeNode with
    ⟨t, taken, extra, added, inserted, _⟩ | ⟨failed, _⟩
  · have enough := blocksRead_of_copyInto free added returned
    obtain ⟨s'', copied, written⟩ := copyInto_spec content free added enough
    rw [copied] at returned
    cases returned
    have linked := written.linked
    rw [List.nil_append] at linked
    have sizeT : (t.nodeTab s.findFreeNode).size = 0 := by
      rw [inserted.nodes]
      simp [VirtualDisc.allocated]
    have size : (s'.nodeTab s.findFreeNode).size = content.length := by
      rw [written.node]
      simp [sizeT]
    rw [content_of_linked linked, size, written.content]
    intro b member
    rw [datablocksNum, written.superblock]
    exact (mem_unmarked.mp (List.mem_of_mem_take member)).1
  · rw [copyInto, if_neg fun none_ => free (findFreeNode_eq_none32_iff.mp none_)] at returned
    obtain ⟨result, added, _⟩ := bind_eq_ok.mp returned
    exact absurd added (failed result)

theorem Resized.tree {blocks : List Nat} {size : Nat} {change : List UInt8 → List UInt8} (pool : s.PoolOf chain)
    (inRange : file < s.inodesNum) (isFile : (s.nodeTab file).type = .file)
    (resized : s.Resized chain file blocks size s') (changed : s'.content file = change (s.content file)) :
    s'.tree = FileTree.rewrite s.tree file change := by
  have inodes := inodesNum_eq resized.superblock
  have isFile' := (resized.type file).trans isFile
  funext i
  by_cases same : i = file
  · subst same
    rw [FileTree.rewrite_self (tree_file inRange isFile), tree_file (by rwa [inodes]) isFile', changed]
  · rw [FileTree.rewrite_of_ne same]
    unfold VirtualDisc.tree
    rw [inodes]
    split
    next bounded => exact (resized.kept bounded same).item pool resized.pool inodes bounded
    next => rfl

theorem BlockConsistent.fileOn (blocks : s.BlockConsistent chain) (inRange : file < s.inodesNum)
    (isFile : (s.nodeTab file).type = .file) : s.FileOn file (chain file) :=
  ⟨inRange, isFile, blocks.pool.linked file inRange, blocks.pool.bounded file inRange, blocks.sized file inRange isFile⟩

theorem FileOn.decrease_content {sizeAmount : Nat} {blocks : List Nat} (regular : s.FileOn file blocks)
    (returned : s.decrease file sizeAmount = .ok s') :
    s'.content file = (s.content file).take ((s.content file).length - sizeAmount) := by
  have fewer : blocksFor ((s.nodeTab file).size - sizeAmount) ≤ blocks.length := by
    rw [regular.sized]
    exact Nat.div_le_div_right (by omega)
  rw [decrease_eq regular.inRange regular.linked regular.bounded rfl fewer] at returned
  cases returned
  rw [regular.length_content]
  exact (regular.shrunk (Nat.sub_le _ _)).content

/-! ### unlink -/

theorem Distinct.names_iff (distinct : s.Distinct chain) (pool : s.PoolOf chain) :
    FileTree.Names s.tree i ↔ 0 < s.naming chain i := by
  rw [naming_pos_iff]
  constructor
  · rintro ⟨d, name, found⟩
    rw [find_tree] at found
    have inRange := inRange_of_findInDir (findInDir_of_lookup found)
    obtain ⟨e, listed, _, index⟩ := (distinct.lookup_iff pool inRange).mp found
    exact ⟨d, inRange, e, listed, index⟩
  · rintro ⟨d, inRange, e, listed, index⟩
    refine ⟨d, e.filename, ?_⟩
    rw [find_tree, distinct.lookup pool inRange listed rfl, index]

theorem left_iff (unlinked : s.Unlinked chain dir (s.elemAt place) s' chain') (distinct : s.Distinct chain)
    (distinct' : s'.Distinct chain') (pool : s.PoolOf chain) (found : s.Found chain dir)
    (placed : s.placeOn filename (chain dir) = some place) {d : Nat} (bounded : d < s.inodesNum)
    (directory : (s.nodeTab d).type = .directory) :
    (∃ name, FileTree.find (FileTree.setEntry s.tree dir filename none) d name = some i) ↔
      i ∈ s.namesWithout chain dir (s.elemAt place).inodeId d := by
  have size := inodesNum_eq unlinked.superblock
  have pool' := unlinked.blocks.pool
  -- the directory that loses the entry, and any other
  by_cases here : d = dir
  · subst here
    have named := (DirectoryElement.is_iff.mp (placeOn_eq_some placed).2.2).2
    have removed (name : CString) : FileTree.find (FileTree.setEntry s.tree d filename none) d name = s'.lookup d name := by
      rw [FileTree.find_setEntry_self (tree_directory bounded directory),
        distinct.lookup_removed distinct' pool pool' size bounded unlinked.removed named]
      congr 1
      funext name
      exact find_tree s d name
    rw [(unlinked.left rfl directory).mem_iff, List.mem_map]
    constructor
    · rintro ⟨name, there⟩
      rw [removed] at there
      obtain ⟨e, listed, _, index⟩ := (distinct'.lookup_iff pool' (by rwa [size])).mp there
      exact ⟨e, listed, index⟩
    · rintro ⟨e, listed, index⟩
      refine ⟨e.filename, ?_⟩
      rw [removed]
      exact (distinct'.lookup_iff pool' (by rwa [size])).mpr ⟨e, listed, rfl, index⟩
  · rw [namesWithout, if_neg here, ← entries_of_directory directory, List.mem_map]
    constructor
    · rintro ⟨name, there⟩
      rw [FileTree.find_setEntry_of_ne here, find_tree] at there
      obtain ⟨e, listed, _, index⟩ := (distinct.lookup_iff pool bounded).mp there
      exact ⟨e, listed, index⟩
    · rintro ⟨e, listed, index⟩
      refine ⟨e.filename, ?_⟩
      rw [FileTree.find_setEntry_of_ne here, find_tree]
      exact (distinct.lookup_iff pool bounded).mpr ⟨e, listed, rfl, index⟩

theorem lost_tree_iff (unlinked : s.Unlinked chain dir (s.elemAt place) s' chain') (distinct : s.Distinct chain)
    (distinct' : s'.Distinct chain') (pool : s.PoolOf chain) (found : s.Found chain dir)
    (placed : s.placeOn filename (chain dir) = some place) :
    FileTree.Lost s.tree dir filename i ↔ s.Lost chain dir (s.elemAt place).inodeId i := by
  constructor
  · intro lost
    induction lost with
    | @intro i named _ ih =>
      refine .intro (naming_pos_iff.mp ((distinct.names_iff pool).mp named)) fun d bounded directory listed => ?_
      obtain ⟨name, there⟩ := (left_iff unlinked distinct distinct' pool found placed bounded directory).mpr listed
      exact ih d name there
  · intro lost
    induction lost with
    | @intro i named _ ih =>
      refine .intro ((distinct.names_iff pool).mpr (naming_pos_iff.mpr named)) fun d name there => ?_
      have isDirectory : d < s.inodesNum ∧ (s.nodeTab d).type = .directory := by
        by_cases here : d = dir
        · exact here ▸ ⟨found.inRange, found.directory⟩
        · rw [FileTree.find_setEntry_of_ne here, find_tree] at there
          by_contra other
          rw [lookup_of_other (not_and.mp other)] at there
          cases there
      exact ih d isDirectory.1 isDirectory.2
        ((left_iff unlinked distinct distinct' pool found placed isDirectory.1 isDirectory.2).mp ⟨name, there⟩)

theorem Unlinked.tree (unlinked : s.Unlinked chain dir (s.elemAt place) s' chain') (distinct : s.Distinct chain)
    (distinct' : s'.Distinct chain') (pool : s.PoolOf chain) (found : s.Found chain dir)
    (placed : s.placeOn filename (chain dir) = some place)
    (emptied : ∀ i < s.inodesNum, s.TurnedEmpty s' i ↔ s.Lost chain dir (s.elemAt place).inodeId i) :
    s'.tree = FileTree.remove s.tree dir filename := by
  have size := inodesNum_eq unlinked.superblock
  have pool' := unlinked.blocks.pool
  funext i
  unfold FileTree.remove
  rw [lost_tree_iff unlinked distinct distinct' pool found placed]
  by_cases inRange : i < s.inodesNum
  · have inRange' : i < s'.inodesNum := by rwa [size]
    rw [← emptied i inRange]
    -- an inode has turned empty exactly if the tree loses it
    split
    next gone => exact (tree_eq_none_iff inRange').mpr gone.2
    next stays =>
      by_cases here : i = dir
      · subst here
        have named := (DirectoryElement.is_iff.mp (placeOn_eq_some placed).2.2).2
        rw [FileTree.setEntry_self (tree_directory inRange found.directory), tree_directory inRange' unlinked.directory,
          distinct.lookup_removed distinct' pool pool' size inRange unlinked.removed named]
      · rw [FileTree.setEntry_of_ne here, tree_of_lt inRange, tree_of_lt inRange']
        by_cases live : (s'.nodeTab i).type = .empty
        · have empty : (s.nodeTab i).type = .empty := by
            by_contra before
            exact stays ⟨before, live⟩
          rw [item_eq_none_iff.mpr live, item_eq_none_iff.mpr empty]
        · exact (unlinked.kept i inRange here live).item pool pool' size inRange
  · have other : i ≠ dir := fun same => inRange (same ▸ found.inRange)
    have outside : s'.tree i = none := if_neg (by rwa [size])
    have outsideS : s.tree i = none := if_neg inRange
    rw [FileTree.setEntry_of_ne other, outside, outsideS, ite_self]

/-! ## Every command -/

/-- An effect that enters new names, each once and counted, does to the tree what it says. -/
theorem tree_performs (blocks : s.BlockConsistent chain) (directories : s.DirectoryConsistent chain)
    (distinct : s.Distinct chain) (valid : s.Valid chain effect) (enough : s.Enough effect) (new : s.EntersNew effect)
    (returned : s.perform effect = .ok (out, s'))
    (performed : s.Performed chain effect s' chain') (referenced : s.Referenced) :
    Tree.Performs s.tree effect s'.tree := by
  have distinct' := distinct.performed blocks.pool valid new enough.supplied performed
  have navigable := directories.navigable blocks
  cases performed with
  | nothing => exact .nothing
  | @makeDir dir names extra _ _ made =>
    obtain ⟨found, name, rest, rfl, absent⟩ := valid
    have nodes : (name :: rest).length ≤ s.freeNodes.length := enough.2
    obtain ⟨none_, small⟩ := made.once blocks.pool found.inRange (by simp) (EntersNew.singly new)
    have free : s.freeNodes ≠ [] := List.ne_nil_of_length_pos (Nat.lt_of_lt_of_le (Nat.succ_pos _) nodes)
    obtain ⟨unnamed, _⟩ := new.resolve_left free
    rw [made.tree none_ distinct blocks found.inRange found.directory nodes small fun n first =>
      distinct.not_mem blocks.pool found.inRange (unnamed n first)]
    apply Tree.Performs.makeDir
    · -- the inodes taken are the first free ones, in their order
      rw [List.length_take, Nat.min_eq_left nodes]
    · exact ((List.nodup_range.filter _).sublist (List.take_sublist _ _))
    · intro i member
      obtain ⟨bounded, empty⟩ := mem_freeNodes.mp (List.mem_of_mem_take member)
      exact (tree_eq_none_iff bounded).mpr empty
    · intro n first
      rw [find_tree]
      exact unnamed n first
  | @copy dir filename content extra _ _ entered isFile _ adds =>
    obtain ⟨found, _⟩ := valid
    have free : s.freeNodes ≠ [] := List.length_pos_iff.mp enough.2
    obtain ⟨bounded, empty⟩ := findFreeNode_spec free
    obtain ⟨unnamed, addsOnly, small⟩ := new.resolve_left free
    rw [blocks.pool.chainOf_eq found.inRange] at addsOnly
    rw [adds.mpr addsOnly] at entered
    have written := tree_file (by rwa [inodesNum_eq entered.superblock]) isFile
    rw [copyInto_content blocks found.inRange free returned] at written
    rw [entered.tree_add distinct distinct' blocks.pool found.inRange found.directory small empty written]
    refine .copy ((tree_eq_none_iff bounded).mpr empty) ?_
    rw [find_tree]
    exact unnamed
  | @link dir filename file extra _ _ entered type _ adds =>
    obtain ⟨found, named⟩ := valid
    obtain ⟨_, live, _⟩ := directories.nameable_of_named named
    obtain ⟨unnamed, addsOnly⟩ := new
    rw [blocks.pool.chainOf_eq found.inRange] at addsOnly
    rw [adds.mpr addsOnly] at entered
    obtain ⟨d, _, e, listed, index⟩ := named
    have small : file < 2 ^ 16 := index ▸ entries_small listed
    rw [entered.tree_setEntry distinct distinct' blocks.pool found.inRange found.directory small live type]
    refine .link ?_
    rw [find_tree]
    exact unnamed
  | unlink placed named _ _ unlinked =>
    subst named
    obtain ⟨_, unlinking⟩ := silent_eq_ok.mp returned
    obtain ⟨u, again, emptied⟩ := unlinkFrom_lost blocks directories referenced valid.1 placed rfl
    rw [unlinking] at again
    cases again
    rw [unlinked.tree distinct distinct' blocks.pool valid.1 placed emptied]
    exact .unlink
  | @decrease file sizeAmount _ _ resized _ =>
    obtain ⟨named, isFile, _⟩ := valid
    have bounded := navigable.inRange_of_named named
    obtain ⟨_, decreased⟩ := silent_eq_ok.mp returned
    have rewritten : s'.tree = FileTree.rewrite s.tree file fun content => content.take (content.length - sizeAmount) :=
      resized.tree blocks.pool bounded isFile ((blocks.fileOn bounded isFile).decrease_content decreased)
    rw [rewritten]
    exact .decrease
  | @increase file sizeAmount _ _ resized _ =>
    obtain ⟨named, isFile⟩ := valid
    have bounded := navigable.inRange_of_named named
    have nonEmpty := nonEmpty_of_increase blocks bounded isFile returned
    obtain ⟨t, _, increased, _, _, lengthened⟩ := (blocks.fileOn bounded isFile).increase blocks.pool nonEmpty enough.1
    rw [perform, increased] at returned
    cases returned
    have rewritten : s'.tree = FileTree.rewrite s.tree file fun content => content ++ List.replicate sizeAmount 0 :=
      resized.tree blocks.pool bounded isFile lengthened.content
    rw [rewritten]
    exact .increase

/-! ## Runs -/

/-- The command enters new names, each once, and counts what it enters. -/
def Plain (s : VirtualDisc) (command : Command) (t : VirtualDisc) : Prop := New s command t ∧ Exact s command t

instance (s t : VirtualDisc) (command : Command) : Decidable (Plain s command t) :=
  inferInstanceAs (Decidable (New s command t ∧ s.EntersOnce (s.effect command) ∧ s.CountFits (s.effect command)))

/-- A disc that is consistent, whose names are distinct and whose inodes in use have references. -/
def Proper (s : VirtualDisc) : Prop :=
  ∃ chain, s.BlockConsistent chain ∧ s.DirectoryConsistent chain ∧ s.Distinct chain ∧ s.Referenced

theorem create_proper {fileName : CString} {size : UInt64} (inodes : 0 < (create fileName size).inodesNum) :
    (create fileName size).Proper := by
  refine ⟨fun _ => [], blank_blockConsistent, blank_directoryConsistent inodes, ⟨?_, ?_⟩, ?_⟩
  · intro d _ e listed
    rw [create, blank_entries] at listed
    cases listed
  · intro d _
    rw [create, blank_entries]
    exact .nil
  · intro i _ notRoot live
    exact absurd (blank_type notRoot) live

theorem create_tree {fileName : CString} {size : UInt64} (inodes : 0 < (create fileName size).inodesNum) :
    Tree.trees.init (create fileName size).tree := by
  funext i
  by_cases root : i = 0
  · subst root
    rw [if_pos rfl, tree_directory inodes rfl]
    congr 2
    funext name
    exact lookup_of_chain_nil blank_pool inodes rfl
  · rw [if_neg root, tree]
    split
    next => exact item_eq_none_iff.mpr (blank_type root)
    next => rfl

theorem Proper.step {command : Command} (proper : s.Proper) (plain : Plain s command s')
    (enough : s.Enough (s.effect command)) (executed : s.exec command = .ok (out, s')) :
    s'.Proper ∧ Tree.trees.step s.tree command s'.tree := by
  obtain ⟨chain, blocks, directories, distinct, referenced⟩ := proper
  obtain ⟨new, once, fits⟩ := plain
  have navigable := directories.navigable blocks
  have valid := effect_valid navigable command
  obtain ⟨out', returned⟩ := (exec_prefixed navigable command).ok_iff.mp ⟨out, executed⟩
  obtain ⟨chain', done⟩ := performed blocks navigable valid enough returned
  have consistent : s.Consistent := ⟨chain, blocks, directories⟩
  obtain ⟨_, _, again, consistent'⟩ := exec_consistent consistent command enough
    (onNonEmpty_of_returned consistent executed) once fits
  rw [executed] at again
  cases again
  have blocks' := done.blocks blocks valid
  have directories' := consistent'.directories blocks'.pool
  have distinct' := distinct.performed blocks.pool valid new enough.supplied done
  refine ⟨⟨chain', blocks', directories', distinct', referenced.performed done fits⟩, ?_⟩
  have performs := tree_performs blocks directories distinct valid enough new returned done referenced
  rwa [← effect_tree blocks navigable] at performs

theorem proper_of_reachable (reached : (commands.restrict Plain).Reachable s) : s.Proper := by
  apply reached.invariant
  · rintro s ⟨fileName, size, rfl, inodes⟩
    exact create_proper inodes
  · rintro s command t proper ⟨⟨enough, out, executed⟩, plain⟩
    exact (proper.step plain enough executed).1

/-- A run of commands on the disc is the same run on its tree. -/
theorem tree_run {history : List Command} (run : (commands.restrict Plain).Run history s) :
    Tree.trees.Run history s.tree := by
  have simulated : Tree.trees.Run (history.filterMap some) s.tree := by
    apply run.refines
    · rintro s ⟨fileName, size, rfl, inodes⟩
      exact create_tree inodes
    · intro s command t _ _ hidden
      cases hidden
    · rintro s command t command' reached ⟨⟨enough, out, executed⟩, plain⟩ shown
      cases shown
      exact ((proper_of_reachable reached).step plain enough executed).2
  rwa [List.filterMap_some] at simulated

end VirtualDisc
end SoiStud.FileSystem
