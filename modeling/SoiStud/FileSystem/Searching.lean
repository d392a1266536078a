import SoiStud.FileSystem.Consistency

/-! What the searches of the program find on chains that end. -/

set_option autoImplicit false

namespace SoiStud.FileSystem

theorem DirectoryElement.used_of_is {e : DirectoryElement} {filename : CString}
    (named : e.is filename = true) : e.used ≠ 0 := by
  simp only [DirectoryElement.is, Bool.and_eq_true, decide_eq_true_eq] at named
  simp [named.1]

namespace VirtualDisc

open Library

variable {s s' : VirtualDisc} {chain chain' : Nat → List Nat} {dir : Nat} {filename : CString}

def placeOn (s : VirtualDisc) (filename : CString) (blocks : List Nat) : Option (Nat × Nat) :=
  blocks.findSome? fun b =>
    ((List.range dirElemsPerBlock).find? fun i => (readElem (s.data b) i).is filename).map fun i => (b, i)

theorem findElemFrom_eq (filename : CString) {fuel idx : Nat} {l : List Nat} (linked : Chain s.next nil64 idx l)
    (bounded : ∀ b ∈ l, b < s.datablocksNum) (enough : l.length < fuel) :
    s.findElemFrom filename fuel idx = .ok (s.placeOn filename l) := by
  induction l generalizing fuel idx with
  | nil =>
    obtain ⟨fuel, rfl⟩ := Nat.exists_eq_add_of_lt enough
    simp [findElemFrom, placeOn, linked.eq_nil]
  | cons b rest ih =>
    cases fuel with
    | zero => simp at enough
    | succ fuel =>
      obtain rfl := linked.head_eq
      have tail : s.findElemFrom filename fuel (s.datablockTab idx).next = .ok (s.placeOn filename rest) :=
        ih linked.tail (fun c member => bounded c (List.mem_cons_of_mem _ member))
          (Nat.lt_of_succ_lt_succ enough)
      simp only [findElemFrom, linked.ne_nil, if_false, block_eq_ok (bounded idx List.mem_cons_self),
        ok_bind, placeOn, List.findSome?_cons, data]
      cases (List.range dirElemsPerBlock).find? fun i => (readElem (s.datablockTab idx).data i).is filename with
      | none => exact tail
      | some i => rfl

theorem findElemInDir_of_linked {l : List Nat} (inRange : dir < s.inodesNum)
    (linked : Chain s.next nil64 (s.first dir) l) (bounded : ∀ b ∈ l, b < s.datablocksNum) :
    s.findElemInDir dir filename =
      .ok (if (s.nodeTab dir).type = .directory then s.placeOn filename l else none) := by
  have walked := findElemFrom_eq filename linked bounded (Nat.lt_succ_of_le (linked.length_le bounded))
  simp only [findElemInDir, node_eq_ok dir inRange, ok_bind]
  split
  next => simp
  next directory =>
    rw [ne_eq, not_not] at directory
    simp only [directory, if_true]
    exact walked

theorem findElemInDir_eq (pool : s.PoolOf chain) (inRange : dir < s.inodesNum) :
    s.findElemInDir dir filename =
      .ok (if (s.nodeTab dir).type = .directory then s.placeOn filename (chain dir) else none) :=
  findElemInDir_of_linked inRange (pool.linked dir inRange) (pool.bounded dir inRange)

theorem findInDir_eq (pool : s.PoolOf chain) (inRange : dir < s.inodesNum) (filename : CString) :
    s.findInDir dir filename = .ok (if (s.nodeTab dir).type = .directory
      then (s.placeOn filename (chain dir)).map fun place => (s.elemAt place).inodeId else none) := by
  rw [findInDir, findElemInDir_eq pool inRange]
  split <;> rfl

theorem inRange_of_findElemInDir {found : Option (Nat × Nat)}
    (returned : s.findElemInDir dir filename = .ok found) : dir < s.inodesNum := by
  unfold findElemInDir node at returned
  split at returned
  next inRange => exact inRange
  next => cases returned

theorem inRange_of_findInDir {found : Option Nat} (returned : s.findInDir dir filename = .ok found) :
    dir < s.inodesNum := by
  obtain ⟨place, searched, _⟩ := bind_eq_ok.mp returned
  exact inRange_of_findElemInDir searched

theorem placeOn_eq_some {blocks : List Nat} {place : Nat × Nat}
    (found : s.placeOn filename blocks = some place) : place.1 ∈ blocks ∧ place.2 < dirElemsPerBlock ∧
      (s.elemAt place).is filename = true := by
  obtain ⟨b, member, here⟩ := List.exists_of_findSome?_eq_some found
  obtain ⟨i, searched, rfl⟩ := Option.map_eq_some_iff.mp here
  have named := List.find?_some searched
  exact ⟨member, List.mem_range.mp (List.mem_of_find?_eq_some searched), named⟩

theorem placeOn_congr {blocks : List Nat} (same : ∀ b ∈ blocks, s'.data b = s.data b) :
    s'.placeOn filename blocks = s.placeOn filename blocks := by
  induction blocks with
  | nil => rfl
  | cons b rest ih =>
    simp only [placeOn, List.findSome?_cons, same b List.mem_cons_self]
    rw [placeOn, placeOn] at ih
    rw [ih fun c member => same c (List.mem_cons_of_mem _ member)]

theorem elemAt_mem_usedElems {blocks : List Nat} {place : Nat × Nat}
    (found : s.placeOn filename blocks = some place) : s.elemAt place ∈ s.usedElems blocks := by
  obtain ⟨member, slot, named⟩ := placeOn_eq_some found
  refine List.mem_flatMap.mpr ⟨place.1, member, ?_⟩
  refine List.mem_filter.mpr ⟨List.mem_map_of_mem (List.mem_range.mpr slot), ?_⟩
  exact decide_eq_true (DirectoryElement.used_of_is named)

/-- A name that is there is found, though perhaps at another place. -/
theorem placeOn_of_is {blocks : List Nat} {e : DirectoryElement} (listed : e ∈ s.usedElems blocks)
    (named : e.is filename = true) : ∃ place, s.placeOn filename blocks = some place := by
  obtain ⟨b, member, onBlock⟩ := List.mem_flatMap.mp listed
  obtain ⟨i, slot, rfl⟩ := List.mem_map.mp (List.mem_of_mem_filter onBlock)
  rw [← Option.isSome_iff_exists, placeOn, List.findSome?_isSome_iff]
  refine ⟨b, member, ?_⟩
  rw [Option.isSome_map, List.find?_isSome]
  exact ⟨i, slot, named⟩

theorem mem_entries_of_findInDir (pool : s.PoolOf chain) {i : Nat}
    (found : s.findInDir dir filename = .ok (some i)) :
    ∃ place, s.placeOn filename (chain dir) = some place ∧ (s.elemAt place).inodeId = i ∧
      (s.nodeTab dir).type = .directory ∧ s.elemAt place ∈ s.entries chain dir := by
  rw [findInDir_eq pool (inRange_of_findInDir found)] at found
  split at found
  next directory =>
    obtain ⟨place, searched, rfl⟩ := Option.map_eq_some_iff.mp (Except.ok.inj found)
    exact ⟨place, searched, rfl, directory, by
      rw [entries_of_directory directory]
      exact elemAt_mem_usedElems searched⟩
  next => cases found

theorem findInDir_of_chain_nil (pool : s.PoolOf chain) (inRange : dir < s.inodesNum)
    (none_ : chain dir = []) : s.findInDir dir filename = .ok none := by
  rw [findInDir_eq pool inRange, none_]
  split <;> rfl

theorem findInDir_congr (pool : s.PoolOf chain) (pool' : s'.PoolOf chain') (size : s'.inodesNum = s.inodesNum)
    (types : ∀ i, (s'.nodeTab i).type = (s.nodeTab i).type)
    (kept : ∀ d < s.inodesNum, (s.nodeTab d).type = .directory → Kept s chain s' chain' d) (dir : Nat)
    (filename : CString) : s'.findInDir dir filename = s.findInDir dir filename := by
  by_cases inRange : dir < s.inodesNum
  · rw [findInDir_eq pool inRange, findInDir_eq pool' (by rwa [size]), types]
    by_cases directory : (s.nodeTab dir).type = .directory
    · have same := kept dir inRange directory
      rw [if_pos directory, if_pos directory, same.blocks, placeOn_congr same.data]
      cases searched : s.placeOn filename (chain dir) with
      | none => rfl
      | some place =>
        have here := same.data place.1 (placeOn_eq_some searched).1
        simp only [Option.map_some, elemAt, here]
    · rw [if_neg directory, if_neg directory]
  · have outside : ¬ dir < s'.inodesNum := by rwa [size]
    simp [findInDir, findElemInDir, node, inRange, outside]

/-! ## Paths -/

theorem findDirInodeFrom_congr (pool : s.PoolOf chain) (pool' : s'.PoolOf chain') (size : s'.inodesNum = s.inodesNum)
    (types : ∀ i, (s'.nodeTab i).type = (s.nodeTab i).type)
    (kept : ∀ d < s.inodesNum, (s.nodeTab d).type = .directory → Kept s chain s' chain' d) (names : List CString)
    (start : Nat) : s'.findDirInodeFrom names start = s.findDirInodeFrom names start := by
  induction names generalizing start with
  | nil => rfl
  | cons name rest ih =>
    simp only [findDirInodeFrom, findInDir_congr pool pool' size types kept]
    apply congrArg (s.findInDir start name >>= ·)
    funext found
    cases found with
    | none => rfl
    | some next =>
      by_cases inRange : next < s.inodesNum
      · have inRange' : next < s'.inodesNum := by rwa [size]
        simp only [node_eq_ok _ inRange, node_eq_ok _ inRange', ok_bind, types, ih]
      · have outside : ¬ next < s'.inodesNum := by rwa [size]
        simp only [node, inRange, outside, if_false, error_bind]

/-- What holds of the start and along the entries that name directories holds of
the directory a path leads to. -/
theorem findDirInodeFrom_induct {Q : Nat → Prop} (pool : s.PoolOf chain)
    (closed : ∀ d < s.inodesNum, Q d → ∀ e ∈ s.entries chain d, e.inodeId < s.inodesNum →
      (s.nodeTab e.inodeId).type = .directory → Q e.inodeId)
    {names : List CString} {start : Nat} {out : List Output}
    (found : s.findDirInodeFrom names start = .ok (out, some dir)) (initially : Q start) : Q dir := by
  induction names generalizing start out with
  | nil =>
    simp only [findDirInodeFrom, Except.ok.injEq, Prod.mk.injEq, Option.some.injEq] at found
    exact found.2 ▸ initially
  | cons name rest ih =>
    obtain ⟨next, searched, found⟩ := bind_eq_ok.mp found
    cases next with
    | none => simp at found
    | some next =>
      obtain ⟨node, read, found⟩ := bind_eq_ok.mp found
      obtain ⟨inRange, rfl⟩ := node_ok_iff.mp read
      split at found
      next directory =>
        obtain ⟨⟨more, reached⟩, walked, same⟩ := bind_eq_ok.mp found
        simp only [Except.ok.injEq, Prod.mk.injEq] at same
        obtain ⟨place, _, rfl, _, listed⟩ := mem_entries_of_findInDir pool searched
        rw [same.2] at walked
        exact ih walked (closed start (inRange_of_findInDir searched) initially _ listed inRange directory)
      next => simp at found

theorem directory_of_findDirInode (pool : s.PoolOf chain) (inodes : 0 < s.inodesNum)
    (root : (s.nodeTab 0).type = .directory) {path : CString} {out : List Output}
    (found : s.findDirInode path = .ok (out, some dir)) :
    dir < s.inodesNum ∧ (s.nodeTab dir).type = .directory :=
  findDirInodeFrom_induct (Q := fun d => d < s.inodesNum ∧ (s.nodeTab d).type = .directory) pool
    (fun _ _ _ _ _ inRange directory => ⟨inRange, directory⟩) found ⟨inodes, root⟩

theorem findDirInodeFrom_ok (pool : s.PoolOf chain)
    (named : ∀ d < s.inodesNum, ∀ e ∈ s.entries chain d, e.inodeId < s.inodesNum)
    (names : List CString) {start : Nat} (inRange : start < s.inodesNum) :
    ∃ found, s.findDirInodeFrom names start = .ok found := by
  induction names generalizing start with
  | nil => exact ⟨_, rfl⟩
  | cons name rest ih =>
    have searched := findInDir_eq pool inRange name
    revert searched
    generalize (if (s.nodeTab start).type = .directory
      then (s.placeOn name (chain start)).map fun place => (s.elemAt place).inodeId else none) = found
    intro searched
    cases found with
    | none => exact ⟨_, by rw [findDirInodeFrom, searched]; rfl⟩
    | some next =>
      obtain ⟨place, _, rfl, _, listed⟩ := mem_entries_of_findInDir pool searched
      have nextInRange := named start inRange _ listed
      obtain ⟨⟨more, reached⟩, walked⟩ := ih nextInRange
      rw [findDirInodeFrom, searched]
      simp only [ok_bind, node_eq_ok _ nextInRange]
      split
      next => exact ⟨_, by rw [walked]; rfl⟩
      next => exact ⟨_, rfl⟩

end VirtualDisc
end SoiStud.FileSystem
