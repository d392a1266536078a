import SoiStud.FileSystem.Searching

/-! What an insertion into a directory does.

Every block of the directory with an unused slot gets the element. Where there
is none the first free block is appended with the element in its first slot; the
other slots of that block keep the bytes they had.
-/

set_option autoImplicit false

namespace SoiStud.FileSystem

open Library

def fillData (elem : DirectoryElement) (data : Nat → UInt8) : Nat → UInt8 :=
  match freeSlot data with
  | some i => writeElem data i elem
  | none => data

structure DirectoryElement.Storable (e : DirectoryElement) : Prop where
  small : e.inodeId < 2 ^ 16
  used : e.used ≠ 0

theorem newElem_storable (name : CString) (nodeId : Nat) : (newElem name nodeId).Storable where
  small := Nat.mod_lt _ (by decide)
  used := by simp [newElem]

theorem blockElems_fillData {elem : DirectoryElement} (storable : elem.Storable) (data : Nat → UInt8) :
    (blockElems (fillData elem data)).Perm
      (blockElems data ++ if (freeSlot data).isSome then [elem] else []) := by
  unfold fillData
  cases found : freeSlot data with
  | none => simp
  | some i =>
    obtain ⟨slot, unused⟩ := freeSlot_eq_some found
    simp only [Option.isSome_some, if_true]
    exact (blockElems_write_unused data slot storable.small storable.used unused).trans
      (List.perm_append_singleton _ _).symm

namespace VirtualDisc

variable {s s' : VirtualDisc} {chain : Nat → List Nat} {dir b last : Nat} {elem : DirectoryElement}
  {l rest : List Nat}

def roomy (s : VirtualDisc) (blocks : List Nat) : List Nat :=
  blocks.filter fun b => (freeSlot (s.data b)).isSome

/-- How many blocks a directory on these blocks needs for one more entry. -/
def dirNeed (s : VirtualDisc) (blocks : List Nat) : Nat := if s.roomy blocks = [] then 1 else 0

def fill (s : VirtualDisc) (elem : DirectoryElement) (blocks : List Nat) : VirtualDisc :=
  { s with datablockTab := fun b =>
      if b ∈ blocks then { s.datablockTab b with data := fillData elem (s.data b) } else s.datablockTab b }

@[simp] theorem fill_superblock : (s.fill elem l).superblock = s.superblock := rfl
@[simp] theorem fill_nodeTab : (s.fill elem l).nodeTab = s.nodeTab := rfl
@[simp] theorem fill_dataMap : (s.fill elem l).dataMap = s.dataMap := rfl
@[simp] theorem fill_first : (s.fill elem l).first = s.first := rfl
@[simp] theorem fill_next : (s.fill elem l).next = s.next := by
  funext b
  by_cases member : b ∈ l <;> simp [next, fill, member]

theorem fill_data (s : VirtualDisc) (elem : DirectoryElement) (l : List Nat) (b : Nat) :
    (s.fill elem l).data b = if b ∈ l then fillData elem (s.data b) else s.data b := by
  by_cases member : b ∈ l <;> simp [data, fill, member]

theorem fill_nil : s.fill elem [] = s := by simp [fill]

theorem fill_cons (s : VirtualDisc) (elem : DirectoryElement) (fresh : b ∉ l) :
    (s.withData b (fillData elem (s.data b))).fill elem l = s.fill elem (b :: l) := by
  unfold fill
  simp only [withData_superblock, withData_nodeTab, withData_dataMap, withData_data, mk.injEq, true_and]
  funext c
  by_cases same : c = b
  · subst same
    simp [fresh, withData]
  · simp [same, withData]

theorem withData_self : s.withData b (s.data b) = s := by
  unfold withData data
  congr 1
  funext c
  by_cases same : c = b
  · subst same; simp
  · simp [same]

theorem scanDir_eq (elem : DirectoryElement) (last : Nat) (success : Bool) {fuel idx : Nat}
    (linked : Chain s.next nil64 idx l) (bounded : ∀ b ∈ l, b < s.datablocksNum) (enough : l.length < fuel) :
    scanDir elem fuel s idx last success =
      .ok (s.fill elem l, l.getLast?.getD last, success || !(s.roomy l).isEmpty) := by
  induction l generalizing fuel idx s last success with
  | nil =>
    obtain ⟨fuel, rfl⟩ := Nat.exists_eq_add_of_lt enough
    simp [scanDir, linked.eq_nil, fill_nil, roomy]
  | cons b rest ih =>
    cases fuel with
    | zero => simp at enough
    | succ fuel =>
      obtain rfl := linked.head_eq
      have unique := linked.nodup
      rw [List.nodup_cons] at unique
      have inRange := bounded idx List.mem_cons_self
      -- the last block is never the one before block 0, so the test of `next` hides nothing
      have lasts (old : Nat) : rest.getLast?.getD (if (s.datablockTab idx).next ≠ 0 then idx else old) =
          (idx :: rest).getLast?.getD old := by
        cases rest with
        | nil =>
          have ended : (s.datablockTab idx).next = nil64 := linked.tail.eq_nil
          simp [ended, nil64]
        | cons c rest => simp [List.getLast?_cons]
      have following (s' : VirtualDisc) (links : s'.next = s.next) (size : s'.superblock = s.superblock)
          (here : s'.fill elem rest = s.fill elem (idx :: rest)) (rooms : s'.roomy rest = s.roomy rest)
          (old : Bool) : scanDir elem fuel s' (s.datablockTab idx).next
            (if (s.datablockTab idx).next ≠ 0 then idx else last) old =
          .ok (s.fill elem (idx :: rest), (idx :: rest).getLast?.getD last,
            old || !(s.roomy rest).isEmpty) := by
        have tail : Chain s'.next nil64 (s.datablockTab idx).next rest := links ▸ linked.tail
        rw [ih _ _ tail (fun c member => by
          rw [datablocksNum, size]; exact bounded c (List.mem_cons_of_mem _ member))
          (Nat.lt_of_succ_lt_succ enough), here, rooms, lasts]
      simp only [scanDir, linked.ne_nil, if_false, block_eq_ok inRange, ok_bind]
      cases found : freeSlot (s.datablockTab idx).data with
      | none =>
        have here : s.fill elem rest = s.fill elem (idx :: rest) := by
          have unchanged : fillData elem (s.data idx) = s.data idx := by simp [fillData, data, found]
          have step := fill_cons s elem unique.1
          rwa [unchanged, withData_self] at step
        simp only
        rw [following s rfl rfl here rfl success]
        simp [roomy, data, found]
      | some i =>
        have written : writeElem (s.datablockTab idx).data i elem = fillData elem (s.data idx) := by
          simp [fillData, data, found]
        have rooms : (s.withData idx (fillData elem (s.data idx))).roomy rest = s.roomy rest := by
          unfold roomy
          apply List.filter_congr
          intro c member
          have other : c ≠ idx := fun same => unique.1 (same ▸ member)
          simp [other]
        simp only [written, setData_eq_ok _ inRange, ok_bind]
        rw [following _ (withData_next s idx _) rfl (fill_cons s elem unique.1) rooms true]
        simp [roomy, data, found]

/-! ## Taking free blocks -/

theorem mem_freeBlocks (free : s.freeBlocks = b :: rest) : b < s.datablocksNum ∧ s.dataMap b = false :=
  mem_unmarked.mp (free ▸ List.mem_cons_self : b ∈ s.freeBlocks)

theorem findFreeDatablock_of_cons (free : s.freeBlocks = b :: rest) : s.findFreeDatablock = b := by
  rw [findFreeDatablock_eq, free]
  rfl

theorem findFreeDatablock_of_nil (free : s.freeBlocks = []) : s.findFreeDatablock = none32 := by
  rw [findFreeDatablock_eq, free]
  rfl

theorem ne_nil64 (inRange : b < s.datablocksNum) : b ≠ nil64 := by
  have size : s.datablocksNum < 2 ^ 32 := s.superblock.datablocksNum_lt
  simp only [nil64]
  omega

/-- The value for nothing free passes for an index, but not for one of the table. -/
theorem none32_not_lt (s : VirtualDisc) : ¬ none32 < s.datablocksNum := by
  have size : s.datablocksNum < 2 ^ 32 := s.superblock.datablocksNum_lt
  simp only [none32]
  omega

theorem none32_ne_nil64 : none32 ≠ nil64 := by decide

/-- A free block linked behind the last block of a chain. -/
theorem PoolOf.hook (pool : s.PoolOf chain) (s' : VirtualDisc) (inRange : dir < s.inodesNum)
    (tail : chain dir = l ++ [last]) (free : s.freeBlocks = b :: rest) (size : s'.superblock = s.superblock)
    (firsts : s'.first = s.first) (links : s'.next = Function.update s.next last b)
    (marks : s'.dataMap = Function.update s.dataMap b true) :
    s'.PoolOf (Function.update chain dir (chain dir ++ [b])) ∧ s'.freeBlocks = rest := by
  obtain ⟨bounded, unmarked⟩ := mem_freeBlocks free
  -- the block hooked on is free, so no chain has it
  have fresh : b ∉ l ++ [last] := tail ▸ pool.not_mem_of_unmarked inRange unmarked
  have other : b ≠ last := fun same => fresh (by simp [same])
  have linked := pool.linked dir inRange
  have unique := linked.nodup
  rw [tail] at linked unique
  have map : ∀ c < s.datablocksNum, s'.dataMap c = (s.dataMap c || [b].contains c) := by
    intro c _
    rw [marks]
    by_cases same : c = b <;> simp [same]
  constructor
  · unfold PoolOf inodesNum datablocksNum at pool ⊢
    rw [size]
    apply pool.grow inRange
    · intro c member
      rw [List.mem_singleton.mp member]
      exact ⟨bounded, unmarked⟩
    · rw [firsts, tail, links]
      apply linked.extend fresh (ne_nil64 bounded)
      · intro c member
        have before : c ≠ last := fun same => (List.nodup_append.mp unique).2.2 c member last (by simp) same
        exact Function.update_of_ne before _ _
      · exact Function.update_self ..
      · rw [Function.update_of_ne other]
        exact pool.loose b bounded unmarked
    · intro j _
      rw [firsts]
    · intro c outside
      rw [links]
      refine Function.update_of_ne (fun same => outside ?_) _ _
      simp [same, tail]
    · exact map
  · unfold freeBlocks datablocksNum at free ⊢
    rw [size]
    exact unmarked_mark (by simpa using free) map

theorem PoolOf.start (pool : s.PoolOf chain) (s' : VirtualDisc) (inRange : dir < s.inodesNum) (none_ : chain dir = [])
    (free : s.freeBlocks = b :: rest) (size : s'.superblock = s.superblock)
    (firsts : s'.first = Function.update s.first dir b) (links : s'.next = s.next)
    (marks : s'.dataMap = Function.update s.dataMap b true) :
    s'.PoolOf (Function.update chain dir (chain dir ++ [b])) ∧ s'.freeBlocks = rest := by
  obtain ⟨bounded, unmarked⟩ := mem_freeBlocks free
  have map : ∀ c < s.datablocksNum, s'.dataMap c = (s.dataMap c || [b].contains c) := by
    intro c _
    rw [marks]
    by_cases same : c = b <;> simp [same]
  constructor
  · unfold PoolOf inodesNum datablocksNum at pool ⊢
    rw [size]
    apply pool.grow inRange
    · intro c member
      rw [List.mem_singleton.mp member]
      exact ⟨bounded, unmarked⟩
    · rw [none_, firsts, links, Function.update_self]
      refine .link (ne_nil64 bounded) ?_
      rw [pool.loose b bounded unmarked]
      exact .stop
    · intro j other
      rw [firsts]
      exact Function.update_of_ne other _ _
    · intro c _
      rw [links]
    · exact map
  · unfold freeBlocks datablocksNum at free ⊢
    rw [size]
    exact unmarked_mark (by simpa using free) map

/-! ## Insertions -/

/-- The disc after an insertion of `elem` into `dir`: the directory has taken
free blocks, and has the element and `extra` besides what it had. -/
structure Inserted (s : VirtualDisc) (chain : Nat → List Nat) (dir : Nat) (elem : DirectoryElement)
    (taken : List Nat) (extra : List DirectoryElement) (s' : VirtualDisc) : Prop where
  superblock : s'.superblock = s.superblock
  pool : s'.PoolOf (Function.update chain dir (chain dir ++ taken))
  nodes : ∀ i, s'.nodeTab i = { s.nodeTab i with firstDataBlock := s'.first i }
  firsts : ∀ i, i ≠ dir → s'.first i = s.first i
  free : s.freeBlocks = taken ++ s'.freeBlocks
  data : ∀ b, b ∉ chain dir ++ taken → s'.data b = s.data b
  elems : (s'.usedElems (chain dir ++ taken)).Perm (s.usedElems (chain dir) ++ elem :: extra)

theorem usedElems_fill (storable : elem.Storable) {blocks : List Nat} (within : blocks ⊆ l) :
    ((s.fill elem l).usedElems blocks).Perm
      (s.usedElems blocks ++ List.replicate (s.roomy blocks).length elem) := by
  induction blocks with
  | nil => simp [usedElems, roomy]
  | cons b rest ih =>
    have member : b ∈ l := within List.mem_cons_self
    have here := blockElems_fillData storable (s.data b)
    have tail := ih (List.subset_of_cons_subset within)
    simp only [usedElems, List.flatMap_cons, fill_data, member, if_true] at tail ⊢
    refine (here.append tail).trans ?_
    unfold roomy
    rw [List.filter_cons]
    split
    · simp only [List.length_cons, List.replicate_succ]
      -- move the new element behind the elements of the other blocks
      rw [List.append_assoc, List.append_assoc, List.singleton_append]
      apply List.Perm.append_left
      exact List.perm_middle.symm
    · simp

theorem insertElem_fills (pool : s.PoolOf chain) (inRange : dir < s.inodesNum) (room : s.roomy (chain dir) ≠ []) :
    s.insertElem dir elem = .ok (none, s.fill elem (chain dir)) := by
  have scanned := scanDir_eq elem (s.first dir) false
    (pool.linked dir inRange) (pool.bounded dir inRange) (Nat.lt_succ_of_le (pool.length_le inRange))
  rw [insertElem, scanned]
  simp [room]

theorem fill_inserted (pool : s.PoolOf chain) (storable : elem.Storable) (room : s.roomy (chain dir) ≠ []) :
    s.Inserted chain dir elem [] (List.replicate ((s.roomy (chain dir)).length - 1) elem)
      (s.fill elem (chain dir)) := by
  constructor
  · rfl
  · rw [List.append_nil, Function.update_eq_self]
    exact pool.frame rfl rfl fill_next rfl
  · intro i
    rfl
  · intro i _
    rfl
  · rfl
  · intro b outside
    rw [List.append_nil] at outside
    rw [fill_data, if_neg outside]
  · rw [List.append_nil]
    have some_ : 0 < (s.roomy (chain dir)).length := List.length_pos_iff.mpr room
    have filled := usedElems_fill (s := s) storable (List.Subset.refl (chain dir))
    rwa [← Nat.succ_pred_eq_of_pos some_, List.replicate_succ] at filled

/-- The block that an appended element comes to lie on: its other slots are not cleared. -/
theorem blockElems_appended (storable : elem.Storable) (data : Nat → UInt8) :
    (blockElems (writeElem data 0 elem)).Perm (elem :: otherElems data 0) :=
  blockElems_write data (by decide) storable.small storable.used

theorem fill_of_full (full : s.roomy l = []) : s.fill elem l = s := by
  unfold fill
  congr 1
  funext c
  split
  next member =>
    have none_ : freeSlot (s.data c) = none := by
      rw [← Option.isNone_iff_eq_none, ← Option.isSome_eq_false_iff, ← Bool.not_eq_true]
      intro found
      have listed : c ∈ s.roomy l := List.mem_filter.mpr ⟨member, found⟩
      rw [full] at listed
      cases listed
    have unchanged : fillData elem (s.data c) = s.data c := by simp [fillData, none_]
    rw [unchanged]
    rfl
  next => rfl

def appended (s : VirtualDisc) (last b : Nat) (elem : DirectoryElement) : VirtualDisc :=
  ((s.withNext last b).withData b (writeElem (s.data b) 0 elem)).withMark b true

theorem appended_data (s : VirtualDisc) (last b : Nat) (elem : DirectoryElement) :
    (s.appended last b elem).data = Function.update s.data b (writeElem (s.data b) 0 elem) := by
  simp [appended]

/-- Without an unused slot the first free block is appended. -/
theorem insertElem_appends (pool : s.PoolOf chain) (inRange : dir < s.inodesNum) (tail : chain dir = l ++ [last])
    (full : s.roomy (chain dir) = []) (free : s.freeBlocks = b :: rest) :
    s.insertElem dir elem = .ok (none, s.appended last b elem) := by
  have scanned := scanDir_eq elem (s.first dir) false
    (pool.linked dir inRange) (pool.bounded dir inRange) (Nat.lt_succ_of_le (pool.length_le inRange))
  have unfilled : s.fill elem (chain dir) = s := fill_of_full full
  have bounded := (mem_freeBlocks free).1
  have lastInRange : last < s.datablocksNum := pool.bounded dir inRange last (by simp [tail])
  have lastOf : (chain dir).getLast?.getD (s.first dir) = last := by simp [tail]
  rw [insertElem, scanned, unfilled, lastOf]
  have linked : (s.withNext last b).next last = b := by simp
  have sameData : ((s.withNext last b).datablockTab b).data = s.data b := congrFun (withNext_data s last b) b
  have inTable : b < (s.withNext last b).datablocksNum := bounded
  have inTable' : b < ((s.withNext last b).withData b (writeElem (s.data b) 0 elem)).datablocksNum := bounded
  simp only [full, List.isEmpty_nil, Bool.not_true, Bool.or_self, Bool.false_eq_true, if_false, ok_bind,
    appendElem, findFreeDatablock_of_cons free, setNext_eq_ok _ lastInRange, linked,
    ne_nil64 bounded, block_eq_ok inTable, sameData, setData_eq_ok _ inTable, setMark_eq_ok _ inTable', appended]

theorem appended_inserted (pool : s.PoolOf chain) (inRange : dir < s.inodesNum) (storable : elem.Storable)
    (tail : chain dir = l ++ [last]) (free : s.freeBlocks = b :: rest) :
    s.Inserted chain dir elem [b] (otherElems (s.data b) 0) (s.appended last b elem) := by
  have fresh : b ∉ chain dir := pool.not_mem_of_unmarked inRange (mem_freeBlocks free).2
  have grown := pool.hook (s.appended last b elem) inRange tail free rfl rfl (by simp [appended]) rfl
  constructor
  · rfl
  · exact grown.1
  · intro i
    rfl
  · intro i _
    rfl
  · rw [grown.2, free, List.singleton_append]
  · intro c outside
    have other : c ≠ b := fun same => outside (by simp [same])
    rw [appended_data, Function.update_of_ne other]
  · rw [usedElems_append, usedElems_singleton]
    have kept : (s.appended last b elem).usedElems (chain dir) = s.usedElems (chain dir) :=
      usedElems_congr fun c member => by
        have other : c ≠ b := fun same => fresh (same ▸ member)
        rw [appended_data, Function.update_of_ne other]
    rw [kept]
    apply List.Perm.append_left
    rw [appended_data, Function.update_self]
    exact blockElems_appended storable (s.data b)

/-- Without an unused slot and without a free block the index for nothing free is used. -/
theorem insertElem_full (pool : s.PoolOf chain) (inRange : dir < s.inodesNum)
    (full : s.roomy (chain dir) = []) (free : s.freeBlocks = []) (outcome : Option String × VirtualDisc) :
    s.insertElem dir elem ≠ .ok outcome := by
  have scanned := scanDir_eq elem (s.first dir) false
    (pool.linked dir inRange) (pool.bounded dir inRange) (Nat.lt_succ_of_le (pool.length_le inRange))
  rw [insertElem, scanned]
  simp only [full, List.isEmpty_nil, Bool.not_true, Bool.or_self, Bool.false_eq_true, if_false, ok_bind]
  intro returned
  obtain ⟨t, linked, returned⟩ := bind_eq_ok.mp returned
  have noBlock : (s.fill elem (chain dir)).findFreeDatablock = none32 := findFreeDatablock_of_nil free
  rw [noBlock, setNext] at linked
  split at linked
  next =>
    cases linked
    have outside (last : Nat) : ¬ none32 < ((s.fill elem (chain dir)).withNext last none32).datablocksNum :=
      none32_not_lt s
    simp [none32_ne_nil64, block, outside] at returned
  next => cases linked

/-! ## The insertion of `make_dir` -/

def extraDir (s : VirtualDisc) (blocks : List Nat) (elem : DirectoryElement) : List DirectoryElement :=
  List.replicate ((s.roomy blocks).length - 1) elem ++
    (s.freeBlocks.take (s.dirNeed blocks)).flatMap fun b => otherElems (s.data b) 0

/-- At most one block of the directory has an unused slot, and a block that it
takes holds no used element outside the first slot. -/
def AddsOnlyDir (s : VirtualDisc) (blocks : List Nat) : Prop :=
  (s.roomy blocks).length ≤ 1 ∧
    ∀ b ∈ s.freeBlocks.take (s.dirNeed blocks), otherElems (s.data b) 0 = []

theorem extraDir_eq_nil_iff : s.extraDir l elem = [] ↔ s.AddsOnlyDir l := by
  simp [extraDir, AddsOnlyDir, List.flatMap_eq_nil_iff, Nat.sub_eq_zero_iff_le]

theorem insertElem_of_some (pool : s.PoolOf chain) (inRange : dir < s.inodesNum) (storable : elem.Storable)
    (some_ : chain dir ≠ []) :
    (∃ s', s.insertElem dir elem = .ok (none, s') ∧ s.dirNeed (chain dir) ≤ s.freeBlocks.length ∧
      s.Inserted chain dir elem (s.freeBlocks.take (s.dirNeed (chain dir))) (s.extraDir (chain dir) elem) s') ∨
    (∀ r, s.insertElem dir elem ≠ .ok r) ∧ s.freeBlocks.length < s.dirNeed (chain dir) := by
  by_cases room : s.roomy (chain dir) = []
  · have need : s.dirNeed (chain dir) = 1 := if_pos room
    rw [extraDir, need, room]
    cases free : s.freeBlocks with
    | nil => exact .inr ⟨insertElem_full pool inRange room free, by simp⟩
    | cons b rest =>
      obtain ⟨before, last, tail⟩ := (List.eq_nil_or_concat' (chain dir)).resolve_left some_
      refine .inl ⟨_, insertElem_appends pool inRange tail room free, by simp, ?_⟩
      simpa using appended_inserted pool inRange storable tail free
  · have need : s.dirNeed (chain dir) = 0 := if_neg room
    rw [extraDir, need]
    refine .inl ⟨_, insertElem_fills pool inRange room, Nat.zero_le _, ?_⟩
    simpa using fill_inserted pool storable room

def begun (s : VirtualDisc) (dir b : Nat) (elem : DirectoryElement) : VirtualDisc :=
  ((s.withFirst dir b).withData b (writeElem (s.data b) 0 elem)).withMark b true

theorem begun_data (s : VirtualDisc) (dir b : Nat) (elem : DirectoryElement) :
    (s.begun dir b elem).data = Function.update s.data b (writeElem (s.data b) 0 elem) := by
  simp [begun]

theorem insertDir_begins (nil : s.first dir = nil64) (free : s.freeBlocks = b :: rest) :
    s.insertDir dir elem = .ok (none, s.begun dir b elem) := by
  have bounded := (mem_freeBlocks free).1
  have started : (s.withFirst dir b).first dir = b := by simp
  have inTable : b < (s.withFirst dir b).datablocksNum := bounded
  have inTable' : b < ((s.withFirst dir b).withData b (writeElem (s.data b) 0 elem)).datablocksNum := bounded
  have sameData : ((s.withFirst dir b).datablockTab b).data = s.data b := rfl
  simp only [insertDir, nil, if_true, findFreeDatablock_of_cons free, started, ne_nil64 bounded, if_false,
    block_eq_ok inTable, ok_bind, sameData, setData_eq_ok _ inTable, setMark_eq_ok _ inTable', begun]

theorem begun_inserted (pool : s.PoolOf chain) (inRange : dir < s.inodesNum) (storable : elem.Storable)
    (none_ : chain dir = []) (free : s.freeBlocks = b :: rest) :
    s.Inserted chain dir elem [b] (otherElems (s.data b) 0) (s.begun dir b elem) := by
  have grown := pool.start (s.begun dir b elem) inRange none_ free rfl (by simp [begun]) (by simp [begun]) rfl
  constructor
  · rfl
  · exact grown.1
  · intro i
    by_cases same : i = dir
    · subst same; simp [begun]
    · simp [begun, same, first]
  · intro i other
    simp [begun, other]
  · rw [grown.2, free, List.singleton_append]
  · intro c outside
    have other : c ≠ b := fun same => outside (by simp [same])
    rw [begun_data, Function.update_of_ne other]
  · have written := blockElems_appended storable (s.data b)
    simpa [none_, usedElems, begun_data] using written

theorem insertDir_of_some (pool : s.PoolOf chain) (inRange : dir < s.inodesNum) (some_ : chain dir ≠ []) :
    s.insertDir dir elem = s.insertElem dir elem :=
  if_neg fun nil => some_ ((pool.chain_eq_nil_iff inRange).mpr nil)

theorem insertDir_spec (pool : s.PoolOf chain) (inRange : dir < s.inodesNum) (storable : elem.Storable) :
    (∃ s', s.insertDir dir elem = .ok (none, s') ∧ s.dirNeed (chain dir) ≤ s.freeBlocks.length ∧
      s.Inserted chain dir elem (s.freeBlocks.take (s.dirNeed (chain dir))) (s.extraDir (chain dir) elem) s') ∨
    (∀ r, s.insertDir dir elem ≠ .ok r) ∧ s.freeBlocks.length < s.dirNeed (chain dir) := by
  by_cases none_ : chain dir = []
  · have nil := (pool.chain_eq_nil_iff inRange).mp none_
    have need : s.dirNeed (chain dir) = 1 := by simp [dirNeed, none_, roomy]
    rw [extraDir, need]
    cases free : s.freeBlocks with
    | nil =>
      refine .inr ⟨fun r => ?_, by simp⟩
      have outside : ¬ none32 < (s.withFirst dir none32).datablocksNum := none32_not_lt s
      simp [insertDir, nil, findFreeDatablock_of_nil free, none32_ne_nil64, block, outside]
    | cons b rest =>
      refine .inl ⟨_, insertDir_begins nil free, by simp, ?_⟩
      simpa [none_, roomy] using begun_inserted pool inRange storable none_ free
  · rw [insertDir_of_some pool inRange none_]
    exact insertElem_of_some pool inRange storable none_

/-! ## The insertion of `copy_file_to_disc` and `link` -/

/-- As `AddsOnlyDir`, but a directory without blocks keeps every used element of
its first block: that block is searched like any other. -/
def AddsOnly (s : VirtualDisc) (blocks : List Nat) : Prop :=
  (s.roomy blocks).length ≤ 1 ∧
    ∀ b ∈ s.freeBlocks.take (s.dirNeed blocks),
      (if blocks = [] then blockElems (s.data b) else otherElems (s.data b) 0) = []

instance (blocks : List Nat) : Decidable (s.AddsOnly blocks) := inferInstanceAs (Decidable (_ ∧ _))

/-- How many blocks `add_elem_to_dir` takes: two, when the first block of the directory
is full of elements it held before. -/
def entryNeed (s : VirtualDisc) (blocks : List Nat) : Nat :=
  if blocks = [] ∧ ∃ b ∈ s.freeBlocks.take 1, freeSlot (s.data b) = none then 2 else s.dirNeed blocks

theorem entryNeed_of_ne_nil {blocks : List Nat} (some_ : blocks ≠ []) : s.entryNeed blocks = s.dirNeed blocks :=
  if_neg fun none_ => some_ none_.1

theorem entryNeed_of_addsOnly {blocks : List Nat} (adds : s.AddsOnly blocks) :
    s.entryNeed blocks = s.dirNeed blocks := by
  apply if_neg
  rintro ⟨rfl, b, listed, full⟩
  have need : s.dirNeed [] = 1 := by simp [dirNeed, roomy]
  have clean := adds.2 b (by rwa [need])
  rw [if_pos rfl] at clean
  have room := freeSlot_of_blockElems_eq_nil clean
  simp [full] at room

/-- How `add_elem_to_dir` ends: with the element inserted, or not at all. -/
def AddsElem (s : VirtualDisc) (chain : Nat → List Nat) (dir : Nat) (name : CString) (nodeId : Nat) : Prop :=
  (∃ s' taken extra, s.addElemToDir dir name nodeId = .ok ([], s') ∧
    s.Inserted chain dir (newElem name nodeId) taken extra s' ∧
    taken.length = s.entryNeed (chain dir) ∧ (extra = [] ↔ s.AddsOnly (chain dir))) ∨
  (∀ r, s.addElemToDir dir name nodeId ≠ .ok r) ∧ s.freeBlocks.length < s.entryNeed (chain dir)

theorem addElemToDir_fails {name : CString} {nodeId : Nat} {t : VirtualDisc} {r : List Output × VirtualDisc}
    (called : s.addElemToDir dir name nodeId =
      (t.insertElem dir (newElem name nodeId) >>= fun r => .ok (r.1.toList.map .cerr, r.2)))
    (failed : ∀ r, t.insertElem dir (newElem name nodeId) ≠ .ok r) : s.addElemToDir dir name nodeId ≠ .ok r := by
  intro returned
  rw [called] at returned
  obtain ⟨r', inner, _⟩ := bind_eq_ok.mp returned
  exact failed r' inner

theorem addElemToDir_of_some (pool : s.PoolOf chain) (inRange : dir < s.inodesNum) (some_ : chain dir ≠ [])
    (name : CString) (nodeId : Nat) : s.addElemToDir dir name nodeId =
      (s.insertElem dir (newElem name nodeId) >>= fun r => .ok (r.1.toList.map .cerr, r.2)) := by
  have there : (s.nodeTab dir).firstDataBlock ≠ nil64 := fun nil =>
    some_ ((pool.chain_eq_nil_iff inRange).mpr nil)
  simp only [addElemToDir, node_eq_ok dir inRange, ok_bind, there, if_false]

theorem addElemToDir_some (pool : s.PoolOf chain) (inRange : dir < s.inodesNum) (some_ : chain dir ≠ [])
    (name : CString) (nodeId : Nat) : s.AddsElem chain dir name nodeId := by
  have called := addElemToDir_of_some pool inRange some_ name nodeId
  have addsOnly : s.AddsOnly (chain dir) ↔ s.AddsOnlyDir (chain dir) := by
    simp [AddsOnly, AddsOnlyDir, some_]
  rcases insertElem_of_some pool inRange (newElem_storable name nodeId) some_ with
    ⟨s', returned, enough, inserted⟩ | ⟨failed, short⟩
  · refine .inl ⟨s', _, _, by rw [called, returned]; rfl, inserted, ?_, ?_⟩
    · rw [List.length_take, Nat.min_eq_left enough, entryNeed_of_ne_nil some_]
    · rw [addsOnly]
      exact extraDir_eq_nil_iff
  · exact .inr ⟨fun r => addElemToDir_fails called failed, by rwa [entryNeed_of_ne_nil some_]⟩

def started (s : VirtualDisc) (dir b : Nat) : VirtualDisc := (s.withFirst dir b).withMark b true

theorem addElemToDir_started (inRange : dir < s.inodesNum) (nil : s.first dir = nil64) (free : s.freeBlocks = b :: rest)
    (name : CString) (nodeId : Nat) : s.addElemToDir dir name nodeId =
      ((s.started dir b).insertElem dir (newElem name nodeId) >>= fun r => .ok (r.1.toList.map .cerr, r.2)) := by
  have nilAt : (s.nodeTab dir).firstDataBlock = nil64 := nil
  have bounded := (mem_freeBlocks free).1
  have first_ : (s.withFirst dir b).first dir = b := by simp
  have inTable : b < (s.withFirst dir b).datablocksNum := bounded
  simp only [addElemToDir, node_eq_ok dir inRange, ok_bind, nilAt, if_true, findFreeDatablock_of_cons free, first_,
    ne_nil64 bounded, if_false, setMark_eq_ok _ inTable]
  rfl

theorem Inserted.started {taken : List Nat} {extra : List DirectoryElement} (none_ : chain dir = [])
    (free : s.freeBlocks = b :: rest) (freeT : (s.started dir b).freeBlocks = rest)
    (inserted : (s.started dir b).Inserted (Function.update chain dir [b]) dir elem taken extra s') :
    s.Inserted chain dir elem (b :: taken) (blockElems (s.data b) ++ extra) s' := by
  have elems := inserted.elems
  have dataT : (s.started dir b).data = s.data := rfl
  rw [Function.update_self, usedElems_singleton, dataT] at elems
  constructor
  · exact inserted.superblock
  · simpa [none_] using inserted.pool
  · intro i
    rw [inserted.nodes i]
    by_cases same : i = dir
    · subst same; simp [VirtualDisc.started]
    · simp [VirtualDisc.started, same]
  · intro i other
    rw [inserted.firsts i other]
    simp [VirtualDisc.started, other]
  · rw [free, List.cons_append, ← inserted.free, freeT]
  · intro c outside
    rw [inserted.data c (by simpa [none_] using outside), dataT]
  · rw [none_, List.nil_append]
    exact elems.trans List.perm_middle

/-- A directory without blocks gets the first free one, and is then searched. -/
theorem addElemToDir_first (pool : s.PoolOf chain) (inRange : dir < s.inodesNum) (none_ : chain dir = [])
    (free : s.freeBlocks = b :: rest) (name : CString) (nodeId : Nat) : s.AddsElem chain dir name nodeId := by
  have nil := (pool.chain_eq_nil_iff inRange).mp none_
  have called := addElemToDir_started inRange nil free name nodeId
  have pools := pool.start (s.started dir b) inRange none_ free rfl (by simp [started]) rfl rfl
  rw [none_, List.nil_append] at pools
  obtain ⟨poolT, freeT⟩ := pools
  have dataT : (s.started dir b).data = s.data := rfl
  have addsOnly : s.AddsOnly [] ↔ blockElems (s.data b) = [] := by
    simp [AddsOnly, dirNeed, roomy, free]
  have inserting := insertElem_of_some poolT inRange (newElem_storable name nodeId) (by simp)
  rw [Function.update_self, freeT] at inserting
  unfold AddsElem
  rw [none_]
  cases room : freeSlot (s.data b) with
  | some i =>
    -- the block just taken has room, and nothing else is taken
    have takes : s.entryNeed [] = 1 := by simp [entryNeed, free, room, dirNeed, roomy]
    have roomT : (s.started dir b).roomy [b] = [b] := by simp [roomy, dataT, room]
    have needT : (s.started dir b).dirNeed [b] = 0 := by simp [dirNeed, roomT]
    have extraT : (s.started dir b).extraDir [b] (newElem name nodeId) = [] := by simp [extraDir, needT, roomT]
    rw [needT, extraT] at inserting
    rcases inserting with ⟨s', returned, _, inserted⟩ | ⟨_, short⟩
    · refine .inl ⟨s', _, _, by rw [called, returned]; rfl, inserted.started none_ free freeT, by simp [takes], ?_⟩
      rw [addsOnly, List.append_nil]
    · simp at short
  | none =>
    -- the block just taken is full of what it held before
    have stale : blockElems (s.data b) ≠ [] := fun clean => by
      have free := freeSlot_of_blockElems_eq_nil clean
      simp [room] at free
    have needT : (s.started dir b).dirNeed [b] = 1 := by simp [dirNeed, roomy, dataT, room]
    have takes : s.entryNeed [] = 2 := by simp [entryNeed, free, room]
    rw [needT] at inserting
    rcases inserting with ⟨s', returned, enough, inserted⟩ | ⟨failed, short⟩
    · refine .inl ⟨s', _, _, by rw [called, returned]; rfl, inserted.started none_ free freeT, ?_, ?_⟩
      · rw [List.length_cons, List.length_take, Nat.min_eq_left enough, takes]
      · simp [addsOnly, stale]
    · refine .inr ⟨fun r => addElemToDir_fails called failed, ?_⟩
      rw [free, List.length_cons, takes]
      omega

theorem addElemToDir_none (pool : s.PoolOf chain) (inRange : dir < s.inodesNum) (none_ : chain dir = [])
    (free : s.freeBlocks = []) (name : CString) (nodeId : Nat) (r : List Output × VirtualDisc) :
    s.addElemToDir dir name nodeId ≠ .ok r := by
  have nilAt : (s.nodeTab dir).firstDataBlock = nil64 := (pool.chain_eq_nil_iff inRange).mp none_
  have outside : ¬ none32 < (s.withFirst dir none32).datablocksNum := none32_not_lt s
  simp [addElemToDir, node_eq_ok dir inRange, nilAt, findFreeDatablock_of_nil free, none32_ne_nil64, setMark, outside]

theorem addElemToDir_spec (pool : s.PoolOf chain) (inRange : dir < s.inodesNum) (name : CString) (nodeId : Nat) :
    s.AddsElem chain dir name nodeId := by
  by_cases none_ : chain dir = []
  · cases free : s.freeBlocks with
    | nil =>
      refine .inr ⟨addElemToDir_none pool inRange none_ free name nodeId, ?_⟩
      simp [free, entryNeed, dirNeed, none_, roomy]
    | cons b rest => exact addElemToDir_first pool inRange none_ free name nodeId
  · exact addElemToDir_some pool inRange none_ name nodeId

end VirtualDisc
end SoiStud.FileSystem
