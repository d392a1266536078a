import SoiStud.FileSystem.Creation
import SoiStud.FileSystem.Insertion

/-! Which slots an insertion into a directory writes.

The slots of a directory are searched block by block. An insertion writes the
first unused slot of every block that has one; where there is none it writes the
first slot of one more block.
-/

set_option autoImplicit false

namespace SoiStud.FileSystem
namespace VirtualDisc

open Library

variable {s s' : VirtualDisc} {chain : Nat → List Nat} {dir b last i : Nat} {elem : DirectoryElement}
  {blocks l rest : List Nat} {place : Nat × Nat}

def places (blocks : List Nat) : List (Nat × Nat) :=
  blocks.flatMap fun b => (List.range dirElemsPerBlock).map fun i => (b, i)

theorem mem_places : place ∈ places blocks ↔ place.1 ∈ blocks ∧ place.2 < dirElemsPerBlock := by
  obtain ⟨b, i⟩ := place
  simp [places]

theorem places_append (l m : List Nat) : places (l ++ m) = places l ++ places m := List.flatMap_append

def slotsOn (s : VirtualDisc) (blocks : List Nat) : List (Nat × Nat) :=
  blocks.filterMap fun b => (freeSlot (s.data b)).map fun i => (b, i)

theorem mem_slotsOn : place ∈ s.slotsOn blocks ↔ place.1 ∈ blocks ∧ freeSlot (s.data place.1) = some place.2 := by
  obtain ⟨b, i⟩ := place
  simp only [slotsOn, List.mem_filterMap, Option.map_eq_some_iff, Prod.mk.injEq]
  constructor
  · rintro ⟨c, member, j, found, rfl, rfl⟩
    exact ⟨member, found⟩
  · rintro ⟨member, found⟩
    exact ⟨b, member, i, found, rfl, rfl⟩

theorem map_fst_slotsOn (s : VirtualDisc) (blocks : List Nat) : (s.slotsOn blocks).map Prod.fst = s.roomy blocks := by
  induction blocks with
  | nil => rfl
  | cons b rest ih =>
    unfold slotsOn roomy at ih ⊢
    cases found : freeSlot (s.data b) with
    | none => simpa [found] using ih
    | some i => simpa [found] using ih

theorem used_of_slotsOn (listed : place ∈ s.slotsOn blocks) : (s.elemAt place).used = 0 :=
  (freeSlot_eq_some (mem_slotsOn.mp listed).2).2

/-- The slots that an insertion into a directory on these blocks writes. -/
def slotsFor (s : VirtualDisc) (blocks : List Nat) : List (Nat × Nat) :=
  if s.roomy blocks = [] then (s.freeBlocks.take 1).map fun b => (b, 0) else s.slotsOn blocks

/-- Of the slots of `blocks` exactly those of `slots` are written. -/
structure Filed (s : VirtualDisc) (blocks : List Nat) (elem : DirectoryElement) (slots : List (Nat × Nat))
    (s' : VirtualDisc) : Prop where
  listed : ∀ p ∈ slots, p ∈ places blocks
  written : ∀ p ∈ slots, s'.elemAt p = elem
  others : ∀ p ∈ places blocks, p ∉ slots → s'.elemAt p = s.elemAt p

theorem elemAt_of_write (storable : elem.Storable)
    (data : s'.data = Function.update s.data b (writeElem (s.data b) i elem)) (place : Nat × Nat) :
    s'.elemAt place = if place = (b, i) then elem else s.elemAt place := by
  obtain ⟨c, j⟩ := place
  unfold elemAt
  rw [data]
  by_cases block : c = b
  · subst block
    rw [Function.update_self]
    by_cases slot : j = i
    · subst slot
      rw [if_pos rfl, readElem_writeElem_self _ _ _ storable.small]
    · rw [if_neg fun same => slot (congrArg Prod.snd same), readElem_writeElem_of_ne _ _ slot]
  · rw [if_neg fun same => block (congrArg Prod.fst same), Function.update_of_ne block]

theorem filed_of_write (storable : elem.Storable) (member : b ∈ blocks) (slot : i < dirElemsPerBlock)
    (data : s'.data = Function.update s.data b (writeElem (s.data b) i elem)) :
    s.Filed blocks elem [(b, i)] s' where
  listed p here := by
    rw [List.mem_singleton.mp here]
    exact mem_places.mpr ⟨member, slot⟩
  written p here := by
    rw [List.mem_singleton.mp here, elemAt_of_write storable data, if_pos rfl]
  others p _ elsewhere := by
    rw [elemAt_of_write storable data, if_neg fun same => elsewhere (List.mem_singleton.mpr same)]

theorem fill_filed (storable : elem.Storable) : s.Filed blocks elem (s.slotsOn blocks) (s.fill elem blocks) where
  listed p here := by
    obtain ⟨member, found⟩ := mem_slotsOn.mp here
    exact mem_places.mpr ⟨member, (freeSlot_eq_some found).1⟩
  written p here := by
    obtain ⟨member, found⟩ := mem_slotsOn.mp here
    unfold elemAt
    rw [fill_data, if_pos member, fillData, found]
    exact readElem_writeElem_self _ _ _ storable.small
  others p inside elsewhere := by
    have member := (mem_places.mp inside).1
    unfold elemAt
    rw [fill_data, if_pos member, fillData]
    cases found : freeSlot (s.data p.1) with
    | none => rfl
    | some i =>
      have other : p.2 ≠ i := fun same => elsewhere (mem_slotsOn.mpr ⟨member, same ▸ found⟩)
      exact readElem_writeElem_of_ne _ _ other

theorem insertElem_filed (pool : s.PoolOf chain) (inRange : dir < s.inodesNum) (storable : elem.Storable)
    (some_ : chain dir ≠ []) {r : Option String × VirtualDisc} (returned : s.insertElem dir elem = .ok r) :
    r.1 = none ∧ s.Filed (chain dir ++ s.freeBlocks.take (s.dirNeed (chain dir))) elem (s.slotsFor (chain dir)) r.2 := by
  by_cases room : s.roomy (chain dir) = []
  · rw [dirNeed, if_pos room, slotsFor, if_pos room]
    cases free : s.freeBlocks with
    | nil => exact absurd returned (insertElem_full pool inRange room free r)
    | cons b rest =>
      obtain ⟨before, last, tail⟩ := (List.eq_nil_or_concat' (chain dir)).resolve_left some_
      rw [insertElem_appends pool inRange tail room free] at returned
      cases returned
      exact ⟨rfl, filed_of_write storable (by simp) (by decide) (appended_data s last b elem)⟩
  · rw [insertElem_fills pool inRange room] at returned
    cases returned
    rw [dirNeed, if_neg room, slotsFor, if_neg room, List.take_zero, List.append_nil]
    exact ⟨rfl, fill_filed storable⟩

theorem insertDir_filed (pool : s.PoolOf chain) (inRange : dir < s.inodesNum) (storable : elem.Storable)
    {r : Option String × VirtualDisc} (returned : s.insertDir dir elem = .ok r) :
    r.1 = none ∧ s.Filed (chain dir ++ s.freeBlocks.take (s.dirNeed (chain dir))) elem (s.slotsFor (chain dir)) r.2 := by
  by_cases none_ : chain dir = []
  · have room : s.roomy (chain dir) = [] := by simp [none_, roomy]
    rw [dirNeed, if_pos room, slotsFor, if_pos room]
    cases free : s.freeBlocks with
    | nil =>
      rcases insertDir_spec pool inRange storable with ⟨_, _, short, _⟩ | ⟨failed, _⟩
      · rw [dirNeed, if_pos room, free] at short
        cases short
      · exact absurd returned (failed r)
    | cons b rest =>
      rw [insertDir_begins ((pool.chain_eq_nil_iff inRange).mp none_) free] at returned
      cases returned
      exact ⟨rfl, filed_of_write storable (by simp) (by decide) (begun_data s dir b elem)⟩
  · rw [insertDir_of_some pool inRange none_] at returned
    exact insertElem_filed pool inRange storable none_ returned

/-! ## add_elem_to_dir -/

def opened (s : VirtualDisc) (dir : Nat) : VirtualDisc :=
  if s.first dir = nil64 then s.started dir s.findFreeDatablock else s

@[simp] theorem opened_data : (s.opened dir).data = s.data := by
  unfold opened
  split <;> rfl

theorem opened_elemAt (place : Nat × Nat) : (s.opened dir).elemAt place = s.elemAt place := by
  unfold elemAt
  rw [opened_data]

theorem opened_of_some (pool : s.PoolOf chain) (inRange : dir < s.inodesNum) (some_ : chain dir ≠ []) :
    s.opened dir = s :=
  if_neg fun nil => some_ ((pool.chain_eq_nil_iff inRange).mpr nil)

theorem opened_of_nil (pool : s.PoolOf chain) (inRange : dir < s.inodesNum) (none_ : chain dir = [])
    (free : s.freeBlocks = b :: rest) : s.opened dir = s.started dir b := by
  rw [opened, if_pos ((pool.chain_eq_nil_iff inRange).mp none_), findFreeDatablock_of_cons free]

@[simp] theorem opened_superblock : (s.opened dir).superblock = s.superblock := by
  unfold opened
  split <;> rfl

theorem opened_node (i : Nat) :
    (s.opened dir).nodeTab i = { s.nodeTab i with firstDataBlock := (s.opened dir).first i } := by
  unfold opened
  split
  · by_cases same : i = dir
    · subst same
      simp [started]
    · simp [started, same, first]
  · rfl

theorem addElemToDir_opened (pool : s.PoolOf chain) (inRange : dir < s.inodesNum)
    (supplied : chain dir ≠ [] ∨ s.freeBlocks ≠ []) (name : CString) (nodeId : Nat) :
    s.addElemToDir dir name nodeId =
      ((s.opened dir).insertElem dir (newElem name nodeId) >>= fun r => .ok (r.1.toList.map .cerr, r.2)) ∧
    ∃ chain', (s.opened dir).PoolOf chain' ∧ chain' dir ≠ [] ∧ (∃ taken, chain' dir = chain dir ++ taken) ∧
      ∀ i, i ≠ dir → chain' i = chain i := by
  by_cases none_ : chain dir = []
  · obtain ⟨b, rest, free⟩ := List.exists_cons_of_ne_nil (supplied.resolve_left (not_not.mpr none_))
    rw [opened_of_nil pool inRange none_ free]
    have poolT := (pool.start (s.started dir b) inRange none_ free rfl (by simp [started]) rfl rfl).1
    refine ⟨addElemToDir_started inRange ((pool.chain_eq_nil_iff inRange).mp none_) free name nodeId, _, poolT, ?_, ?_, ?_⟩
    · simp
    · exact ⟨[b], Function.update_self ..⟩
    · intro i other
      exact Function.update_of_ne other _ _
  · rw [opened_of_some pool inRange none_]
    exact ⟨addElemToDir_of_some pool inRange none_ name nodeId, chain, pool, none_, ⟨[], (List.append_nil _).symm⟩,
      fun _ _ => rfl⟩

def entryBlocks (s : VirtualDisc) (dir : Nat) : List Nat :=
  (s.opened dir).chainOf dir ++ (s.opened dir).freeBlocks.take ((s.opened dir).dirNeed ((s.opened dir).chainOf dir))

/-- The slots that `add_elem_to_dir` writes. -/
def entrySlots (s : VirtualDisc) (dir : Nat) : List (Nat × Nat) := (s.opened dir).slotsFor ((s.opened dir).chainOf dir)

structure Placed (s : VirtualDisc) (chain : Nat → List Nat) (dir : Nat) (elem : DirectoryElement)
    (slots : List (Nat × Nat)) (t : VirtualDisc) (chain' : Nat → List Nat) : Prop where
  superblock : t.superblock = s.superblock
  pool : t.PoolOf chain'
  nodes : ∀ i, t.nodeTab i = { s.nodeTab i with firstDataBlock := t.first i }
  others : ∀ d < s.inodesNum, d ≠ dir → chain' d = chain d ∧ ∀ b ∈ chain d, t.data b = s.data b
  front : ∃ taken, chain' dir = chain dir ++ taken
  filed : s.Filed (chain' dir) elem slots t
  unused : ∀ p ∈ slots, p ∈ places (chain dir) → (s.elemAt p).used = 0
  some_ : slots ≠ []

theorem slotsFor_unused (pool : s.PoolOf chain) (inRange : dir < s.inodesNum)
    (written : place ∈ s.slotsFor (chain dir)) (inside : place ∈ places (chain dir)) : (s.elemAt place).used = 0 := by
  unfold slotsFor at written
  split at written
  · -- a free block is not one of the directory
    obtain ⟨b, free, rfl⟩ := List.mem_map.mp written
    exact absurd (mem_places.mp inside).1 (pool.free_not_mem (List.mem_of_mem_take free) inRange)
  · exact used_of_slotsOn written

theorem slotsFor_ne_nil (enough : s.dirNeed blocks ≤ s.freeBlocks.length) : s.slotsFor blocks ≠ [] := by
  unfold dirNeed at enough
  unfold slotsFor
  by_cases full : s.roomy blocks = []
  · rw [if_pos full] at enough ⊢
    obtain ⟨b, rest, free⟩ := List.exists_cons_of_ne_nil (List.length_pos_iff.mp enough)
    simp [free]
  · rw [if_neg full]
    intro none_
    rw [← map_fst_slotsOn, none_] at full
    exact full rfl

theorem Inserted.placed {extra : List DirectoryElement} (pool : s.PoolOf chain) (inRange : dir < s.inodesNum)
    (inserted : s.Inserted chain dir elem (s.freeBlocks.take (s.dirNeed (chain dir))) extra s')
    (filed : s.Filed (chain dir ++ s.freeBlocks.take (s.dirNeed (chain dir))) elem (s.slotsFor (chain dir)) s')
    (enough : s.dirNeed (chain dir) ≤ s.freeBlocks.length) :
    s.Placed chain dir elem (s.slotsFor (chain dir)) s'
      (Function.update chain dir (chain dir ++ s.freeBlocks.take (s.dirNeed (chain dir)))) where
  superblock := inserted.superblock
  pool := inserted.pool
  nodes := inserted.nodes
  others d bounded other := by
    refine ⟨Function.update_of_ne other _ _, fun b member => inserted.data b ?_⟩
    rw [List.mem_append, not_or]
    exact ⟨fun mine => pool.disjoint d bounded dir inRange other member mine,
      fun free => pool.free_not_mem (List.mem_of_mem_take free) bounded member⟩
  front := ⟨_, Function.update_self ..⟩
  filed := by rwa [Function.update_self]
  unused _ := slotsFor_unused pool inRange
  some_ := slotsFor_ne_nil enough

theorem insertElem_placed (pool : s.PoolOf chain) (inRange : dir < s.inodesNum) (storable : elem.Storable)
    (some_ : chain dir ≠ []) {r : Option String × VirtualDisc} (returned : s.insertElem dir elem = .ok r) :
    r.1 = none ∧ s.Placed chain dir elem (s.slotsFor (chain dir)) r.2
      (Function.update chain dir (chain dir ++ s.freeBlocks.take (s.dirNeed (chain dir)))) := by
  obtain ⟨quiet, filed⟩ := insertElem_filed pool inRange storable some_ returned
  rcases insertElem_of_some pool inRange storable some_ with ⟨t, same, enough, inserted⟩ | ⟨failed, _⟩
  · rw [same] at returned
    cases returned
    exact ⟨quiet, inserted.placed pool inRange filed enough⟩
  · exact absurd returned (failed r)

theorem insertDir_placed (pool : s.PoolOf chain) (inRange : dir < s.inodesNum) (storable : elem.Storable)
    {r : Option String × VirtualDisc} (returned : s.insertDir dir elem = .ok r) :
    r.1 = none ∧ s.Placed chain dir elem (s.slotsFor (chain dir)) r.2
      (Function.update chain dir (chain dir ++ s.freeBlocks.take (s.dirNeed (chain dir)))) := by
  obtain ⟨quiet, filed⟩ := insertDir_filed pool inRange storable returned
  rcases insertDir_spec pool inRange storable with ⟨t, same, enough, inserted⟩ | ⟨failed, _⟩
  · rw [same] at returned
    cases returned
    exact ⟨quiet, inserted.placed pool inRange filed enough⟩
  · exact absurd returned (failed r)

theorem addElemToDir_placed (pool : s.PoolOf chain) (inRange : dir < s.inodesNum) {name : CString} {nodeId : Nat}
    {r : List Output × VirtualDisc} (returned : s.addElemToDir dir name nodeId = .ok r) :
    r.1 = [] ∧ ∃ chain', s.Placed chain dir (newElem name nodeId) (s.entrySlots dir) r.2 chain' ∧
      chain' dir = s.entryBlocks dir := by
  have supplied : chain dir ≠ [] ∨ s.freeBlocks ≠ [] := by
    by_contra neither
    rw [not_or, not_not, not_not] at neither
    exact addElemToDir_none pool inRange neither.1 neither.2 name nodeId r returned
  obtain ⟨called, chainT, poolT, someT, ⟨started, frontT⟩, othersT⟩ :=
    addElemToDir_opened pool inRange supplied name nodeId
  have inRangeT : dir < (s.opened dir).inodesNum := by rwa [inodesNum_eq opened_superblock]
  rw [called] at returned
  obtain ⟨⟨failed, t⟩, inner, same⟩ := bind_eq_ok.mp returned
  obtain ⟨quiet, placed⟩ := insertElem_placed poolT inRangeT (newElem_storable name nodeId) someT inner
  cases same
  obtain rfl : failed = none := quiet
  obtain ⟨taken, front⟩ := placed.front
  rw [entrySlots, entryBlocks, poolT.chainOf_eq inRangeT]
  -- opening the directory changes its chain and nothing that its blocks hold
  refine ⟨rfl, _, ⟨?_, placed.pool, ?_, ?_, ?_, ?_, ?_, placed.some_⟩, Function.update_self ..⟩
  · rw [placed.superblock, opened_superblock]
  · intro i
    rw [placed.nodes i, opened_node]
  · intro d bounded other
    obtain ⟨blocks, data⟩ := placed.others d (by rwa [inodesNum_eq opened_superblock]) other
    rw [othersT d other, opened_data] at data
    exact ⟨blocks.trans (othersT d other), data⟩
  · exact ⟨started ++ taken, by rw [front, frontT, List.append_assoc]⟩
  · refine ⟨placed.filed.listed, placed.filed.written, fun p inside elsewhere => ?_⟩
    rw [placed.filed.others p inside elsewhere, opened_elemAt]
  · intro p written inside
    have insideT : p ∈ places (chainT dir) := by
      rw [frontT, places_append]
      exact List.mem_append_left _ inside
    have unused := placed.unused p written insideT
    rwa [opened_elemAt] at unused

/-! ## One slot -/

/-- The element lies on one slot that was unused, on one more block only where
there was no such slot; what the other slots hold is what they held. -/
structure OneSlot (s : VirtualDisc) (dir : Nat) (elem : DirectoryElement) (s' : VirtualDisc) (place : Nat × Nat) :
    Prop where
  slot : place.2 < dirElemsPerBlock
  written : s'.elemAt place = elem
  unused : s.roomy (s.chainOf dir) ≠ [] →
    place.1 ∈ s.chainOf dir ∧ (s.elemAt place).used = 0 ∧ s'.chainOf dir = s.chainOf dir
  extended : s.roomy (s.chainOf dir) = [] → place.1 ∈ s.freeBlocks ∧ s'.chainOf dir = s.chainOf dir ++ [place.1]
  others : ∀ p ∈ places (s'.chainOf dir), p ≠ place → s'.elemAt p = s.elemAt p

theorem Inserted.chainOf {taken : List Nat} {extra : List DirectoryElement} (inRange : dir < s.inodesNum)
    (inserted : s.Inserted chain dir elem taken extra s') : s'.chainOf dir = chain dir ++ taken := by
  rw [inserted.pool.chainOf_eq (by rwa [inodesNum_eq inserted.superblock]), Function.update_self]

theorem slotsOn_nodup {blocks : List Nat} (unique : blocks.Nodup) : (s.slotsOn blocks).Nodup := by
  apply List.Nodup.of_map Prod.fst
  rw [map_fst_slotsOn]
  exact unique.filter _

theorem OneSlot.eq_of_filed {place : Nat × Nat} (one : s.OneSlot dir elem s' place) (storable : elem.Storable)
    (filed : s.Filed (s'.chainOf dir) elem (s.slotsOn (s'.chainOf dir)) s') :
    ∀ p ∈ s.slotsOn (s'.chainOf dir), p = place := by
  intro p here
  by_contra other
  have kept := one.others p (filed.listed p here) other
  have unused := used_of_slotsOn here
  rw [← kept, filed.written p here] at unused
  exact storable.used unused

/-- Where blocks of the directory have unused slots, every one of them gets the element. -/
theorem oneSlot_fill_iff (pool : s.PoolOf chain) (inRange : dir < s.inodesNum) (storable : elem.Storable)
    (room : s.roomy (chain dir) ≠ []) :
    (∃ place, s.OneSlot dir elem (s.fill elem (chain dir)) place) ↔ (s.roomy (chain dir)).length ≤ 1 := by
  have filed : s.Filed (chain dir) elem (s.slotsOn (chain dir)) (s.fill elem (chain dir)) := fill_filed storable
  have chainAfter : (s.fill elem (chain dir)).chainOf dir = chain dir := by
    rw [(fill_inserted pool storable room).chainOf inRange, List.append_nil]
  have chainBefore := pool.chainOf_eq inRange
  rw [← map_fst_slotsOn] at room ⊢
  rw [List.length_map]
  rw [ne_eq, List.map_eq_nil_iff] at room
  constructor
  · rintro ⟨place, one⟩
    -- all the unused slots hold the element now, and they are distinct
    have only := one.eq_of_filed storable (by rwa [chainAfter])
    rw [chainAfter] at only
    have unique : (s.slotsOn (chain dir)).Nodup := slotsOn_nodup (pool.linked dir inRange).nodup
    rw [List.eq_replicate_iff.mpr ⟨rfl, only⟩] at unique
    exact List.nodup_replicate.mp unique
  · intro few
    obtain ⟨place, rest, listed⟩ := List.exists_cons_of_ne_nil room
    rw [listed, List.length_cons] at few
    obtain rfl : rest = [] := List.eq_nil_of_length_eq_zero (by omega)
    have here : place ∈ s.slotsOn (chain dir) := by simp [listed]
    have unfull : s.roomy (chain dir) ≠ [] := by simp [← map_fst_slotsOn, listed]
    refine ⟨place, (mem_places.mp (filed.listed place here)).2, filed.written place here, ?_, ?_, ?_⟩
    · intro _
      rw [chainBefore]
      exact ⟨(mem_slotsOn.mp here).1, used_of_slotsOn here, chainAfter⟩
    · intro full
      rw [chainBefore] at full
      exact absurd full unfull
    · intro p inside other
      rw [chainAfter] at inside
      exact filed.others p inside (by simpa [listed] using other)

theorem oneSlot_of_extended (inRange : dir < s.inodesNum) (pool : s.PoolOf chain) (storable : elem.Storable)
    (full : s.roomy (chain dir) = []) (free : s.freeBlocks = b :: rest) (slot : i < dirElemsPerBlock)
    (chainAfter : s'.chainOf dir = chain dir ++ [b])
    (data : s'.data = Function.update s.data b (writeElem (s.data b) i elem)) : s.OneSlot dir elem s' (b, i) where
  slot := slot
  written := by rw [elemAt_of_write storable data, if_pos rfl]
  unused room := by
    rw [pool.chainOf_eq inRange] at room
    exact absurd full room
  extended _ := by
    rw [pool.chainOf_eq inRange, free]
    exact ⟨List.mem_cons_self, chainAfter⟩
  others p _ other := by rw [elemAt_of_write storable data, if_neg other]

theorem insertDir_oneSlot_iff (pool : s.PoolOf chain) (inRange : dir < s.inodesNum) (storable : elem.Storable)
    (enough : s.dirNeed (chain dir) ≤ s.freeBlocks.length) :
    (∃ s', s.insertDir dir elem = .ok (none, s') ∧ ∃ place, s.OneSlot dir elem s' place) ↔
      (s.roomy (chain dir)).length ≤ 1 := by
  by_cases room : s.roomy (chain dir) = []
  · rw [dirNeed, if_pos room] at enough
    obtain ⟨b, rest, free⟩ := List.exists_cons_of_ne_nil (List.length_pos_iff.mp enough)
    rw [room]
    refine iff_of_true ?_ (Nat.zero_le 1)
    by_cases none_ : chain dir = []
    · have inserted := begun_inserted pool inRange storable none_ free
      exact ⟨_, insertDir_begins ((pool.chain_eq_nil_iff inRange).mp none_) free, (b, 0),
        oneSlot_of_extended inRange pool storable room free (by decide) (inserted.chainOf inRange) (begun_data s dir b elem)⟩
    · obtain ⟨before, last, tail⟩ := (List.eq_nil_or_concat' (chain dir)).resolve_left none_
      have inserted := appended_inserted pool inRange storable tail free
      rw [insertDir_of_some pool inRange none_]
      exact ⟨_, insertElem_appends pool inRange tail room free, (b, 0),
        oneSlot_of_extended inRange pool storable room free (by decide) (inserted.chainOf inRange)
          (appended_data s last b elem)⟩
  · have some_ : chain dir ≠ [] := fun none_ => room (by simp [none_, roomy])
    rw [insertDir_of_some pool inRange some_, insertElem_fills pool inRange room, ← oneSlot_fill_iff pool inRange storable room]
    simp

/-- The first free block has a slot with nothing of what it held before. -/
def FirstRoomy (s : VirtualDisc) : Prop := ∀ b ∈ s.freeBlocks.head?, (freeSlot (s.data b)).isSome = true

/-- The free block that a directory begins with is searched with what it held before. -/
theorem started_roomy_eq_nil_iff (none_ : chain dir = []) :
    (s.started dir b).roomy (Function.update chain dir (chain dir ++ [b]) dir) = [] ↔ freeSlot (s.data b) = none := by
  have data : (s.started dir b).data = s.data := rfl
  rw [Function.update_self, none_, List.nil_append]
  cases found : freeSlot (s.data b) <;> simp [roomy, data, found]

theorem oneSlot_of_started (pool : s.PoolOf chain) (inRange : dir < s.inodesNum) (storable : elem.Storable)
    (none_ : chain dir = []) (free : s.freeBlocks = b :: rest) (found : freeSlot (s.data b) = some i) :
    ∃ t, (s.started dir b).insertElem dir elem = .ok (none, t) ∧ s.OneSlot dir elem t (b, i) := by
  obtain ⟨poolT, _⟩ := pool.start (s.started dir b) inRange none_ free rfl (by simp [started]) rfl rfl
  have inRangeT : dir < (s.started dir b).inodesNum := inRange
  have full : s.roomy (chain dir) = [] := by simp [none_, roomy]
  have roomT : (s.started dir b).roomy (Function.update chain dir (chain dir ++ [b]) dir) ≠ [] := by
    rw [ne_eq, started_roomy_eq_nil_iff none_, found]
    simp
  refine ⟨_, insertElem_fills poolT inRangeT roomT, ?_⟩
  refine oneSlot_of_extended inRange pool storable full free (freeSlot_eq_some found).1 ?_ ?_
  · rw [(fill_inserted poolT storable roomT).chainOf inRangeT, List.append_nil, Function.update_self]
  · funext c
    rw [fill_data, Function.update_self, none_]
    have data : (s.started dir b).data = s.data := rfl
    by_cases same : c = b
    · subst same
      simp [fillData, data, found]
    · simp only [List.nil_append, List.mem_singleton, same, if_false, Function.update_of_ne same]
      rfl

/-- A block that is full of leftovers is kept, and the element goes to a second one. -/
theorem not_oneSlot_of_started (pool : s.PoolOf chain) (inRange : dir < s.inodesNum) (storable : elem.Storable)
    (none_ : chain dir = []) (free : s.freeBlocks = b :: rest) (found : freeSlot (s.data b) = none)
    {failed : Option String} {t : VirtualDisc} (inner : (s.started dir b).insertElem dir elem = .ok (failed, t))
    (place : Nat × Nat) : ¬ s.OneSlot dir elem t place := by
  obtain ⟨poolT, freeT⟩ := pool.start (s.started dir b) inRange none_ free rfl (by simp [started]) rfl rfl
  have inRangeT : dir < (s.started dir b).inodesNum := inRange
  have chainT : Function.update chain dir (chain dir ++ [b]) dir = [] ++ [b] := by simp [none_]
  have fullT := (started_roomy_eq_nil_iff none_).mpr found
  intro one
  cases rest with
  | nil => exact insertElem_full poolT inRangeT fullT freeT _ inner
  | cons c rest =>
    rw [insertElem_appends poolT inRangeT chainT fullT freeT] at inner
    cases inner
    have longer := (appended_inserted poolT inRangeT storable chainT freeT).chainOf inRangeT
    have extended := one.extended (by simp [pool.chainOf_eq inRange, none_, roomy])
    rw [longer, pool.chainOf_eq inRange, none_] at extended
    simp at extended

theorem addElemToDir_oneSlot_iff (pool : s.PoolOf chain) (inRange : dir < s.inodesNum)
    (enough : s.dirNeed (chain dir) ≤ s.freeBlocks.length) (name : CString) (nodeId : Nat) :
    (∃ s', s.addElemToDir dir name nodeId = .ok ([], s') ∧ ∃ place, s.OneSlot dir (newElem name nodeId) s' place) ↔
      (s.roomy (chain dir)).length ≤ 1 ∧ (chain dir = [] → s.FirstRoomy) := by
  have storable := newElem_storable name nodeId
  by_cases none_ : chain dir = []
  · have full : s.roomy (chain dir) = [] := by simp [none_, roomy]
    rw [dirNeed, if_pos full] at enough
    obtain ⟨b, rest, free⟩ := List.exists_cons_of_ne_nil (List.length_pos_iff.mp enough)
    rw [addElemToDir_started inRange ((pool.chain_eq_nil_iff inRange).mp none_) free name nodeId, full]
    -- the block begun is searched with what it held before
    cases found : freeSlot (s.data b) with
    | some i =>
      obtain ⟨t, inner, one⟩ := oneSlot_of_started pool inRange storable none_ free found
      refine iff_of_true ⟨t, ?_, (b, i), one⟩ ⟨Nat.zero_le 1, fun _ => by simp [FirstRoomy, free, found]⟩
      rw [inner]
      rfl
    | none =>
      refine iff_of_false ?_ (fun held => by simpa [FirstRoomy, free, found] using held.2 none_)
      rintro ⟨s', returned, place, one⟩
      obtain ⟨r, inner, same⟩ := bind_eq_ok.mp returned
      rw [Except.ok.injEq, Prod.mk.injEq] at same
      obtain ⟨_, rfl⟩ := same
      exact not_oneSlot_of_started pool inRange storable none_ free found inner place one
  · -- a directory with blocks is entered into as `make_dir` does it
    have only : (s.roomy (chain dir)).length ≤ 1 ∧ (chain dir = [] → s.FirstRoomy) ↔ (s.roomy (chain dir)).length ≤ 1 := by
      simp [none_]
    rw [only, ← insertDir_oneSlot_iff pool inRange storable enough, insertDir_of_some pool inRange none_,
      addElemToDir_of_some pool inRange none_]
    apply exists_congr
    intro t
    apply and_congr_left
    intro _
    cases inner : s.insertElem dir (newElem name nodeId) with
    | error fault => simp
    | ok r =>
      obtain ⟨failed, u⟩ := r
      cases failed <;> simp

/-- The two insertions write one slot where at most one block of the directory has
an unused slot; `add_elem_to_dir` on a directory without blocks needs a slot on
the first free block, which it searches with what that block held before. -/
theorem insertions_oneSlot_iff (pool : s.PoolOf chain) (inRange : dir < s.inodesNum)
    (enough : s.dirNeed (s.chainOf dir) ≤ s.freeBlocks.length) (name : CString) (nodeId : Nat) :
    ((∃ s', s.addElemToDir dir name nodeId = .ok ([], s') ∧ ∃ place, s.OneSlot dir (newElem name nodeId) s' place) ↔
      (s.roomy (s.chainOf dir)).length ≤ 1 ∧ (s.chainOf dir = [] → s.FirstRoomy)) ∧
    ((∃ s', s.insertDir dir (newElem name nodeId) = .ok (none, s') ∧
        ∃ place, s.OneSlot dir (newElem name nodeId) s' place) ↔
      (s.roomy (s.chainOf dir)).length ≤ 1) := by
  rw [pool.chainOf_eq inRange] at enough ⊢
  exact ⟨addElemToDir_oneSlot_iff pool inRange enough name nodeId,
    insertDir_oneSlot_iff pool inRange (newElem_storable name nodeId) enough⟩

def namesDisc : VirtualDisc :=
  (smallDisc.begun 0 0 (newElem ⟨[97], by decide⟩ 1)).fill (newElem ⟨[98], by decide⟩ 2) [0]

theorem namesDisc_pool : ∃ chain, namesDisc.PoolOf chain ∧ chain 0 = [0] := by
  have free : smallDisc.freeBlocks = 0 :: [1, 2] := by decide +kernel
  have root : 0 < smallDisc.inodesNum := by decide +kernel
  have begun := (begun_inserted blank_pool root (newElem_storable ⟨[97], by decide⟩ 1) rfl free).pool
  have room : (smallDisc.begun 0 0 (newElem ⟨[97], by decide⟩ 1)).roomy
      (Function.update (fun _ => []) 0 ([] ++ [0]) 0) ≠ [] := by
    rw [Function.update_self]
    decide +kernel
  have filled := (fill_inserted begun (newElem_storable ⟨[98], by decide⟩ 2) room).pool
  simp only [Function.update_self, List.nil_append, List.append_nil] at filled
  exact ⟨_, filled, by simp⟩

example : (namesDisc.elemAt (0, 0)).used = 1 ∧ (namesDisc.elemAt (0, 1)).used = 1 := by decide +kernel

theorem insertions_oneSlot_third :
    (∃ s', namesDisc.addElemToDir 0 ⟨[99], by decide⟩ 3 = .ok ([], s') ∧
      ∃ place, namesDisc.OneSlot 0 (newElem ⟨[99], by decide⟩ 3) s' place) ∧
    ∃ s', namesDisc.insertDir 0 (newElem ⟨[99], by decide⟩ 3) = .ok (none, s') ∧
      ∃ place, namesDisc.OneSlot 0 (newElem ⟨[99], by decide⟩ 3) s' place := by
  obtain ⟨chain, pool, _⟩ := namesDisc_pool
  have inRange : 0 < namesDisc.inodesNum := by decide +kernel
  have blocks : namesDisc.chainOf 0 ≠ [] := by decide +kernel
  have one : (namesDisc.roomy (namesDisc.chainOf 0)).length ≤ 1 := by decide +kernel
  obtain ⟨added, made⟩ := insertions_oneSlot_iff pool inRange (by decide +kernel) ⟨[99], by decide⟩ 3
  exact ⟨added.mpr ⟨one, fun none_ => absurd none_ blocks⟩, made.mpr one⟩

def sparseDisc : VirtualDisc := ((smallDisc.started 0 0).withNext 0 1).withMark 1 true

theorem sparseDisc_pool : ∃ chain, sparseDisc.PoolOf chain ∧ chain 0 = [0, 1] := by
  have free : smallDisc.freeBlocks = 0 :: [1, 2] := by decide +kernel
  have root : 0 < smallDisc.inodesNum := by decide +kernel
  have first_ : (smallDisc.started 0 0).first = Function.update smallDisc.first 0 0 := by simp [started]
  obtain ⟨poolT, freeT⟩ := blank_pool.start (smallDisc.started 0 0) root rfl free rfl first_ rfl rfl
  obtain ⟨pool, _⟩ := poolT.hook sparseDisc root (show _ = [] ++ [0] by simp) freeT rfl rfl (by simp [sparseDisc]) rfl
  exact ⟨_, pool, by simp⟩

/-- Both blocks get the element. -/
theorem insertions_twoSlots : ∃ (s : VirtualDisc) (chain : Nat → List Nat) (dir : Nat) (name : CString) (nodeId : Nat),
    s.PoolOf chain ∧ dir < s.inodesNum ∧ (s.nodeTab dir).type = .directory ∧
    s.dirNeed (s.chainOf dir) ≤ s.freeBlocks.length ∧
    (¬ ∃ s', s.addElemToDir dir name nodeId = .ok ([], s') ∧ ∃ place, s.OneSlot dir (newElem name nodeId) s' place) ∧
    ¬ ∃ s', s.insertDir dir (newElem name nodeId) = .ok (none, s') ∧
      ∃ place, s.OneSlot dir (newElem name nodeId) s' place := by
  obtain ⟨chain, pool, root⟩ := sparseDisc_pool
  have inRange : 0 < sparseDisc.inodesNum := by decide +kernel
  have two : ¬ (sparseDisc.roomy (chain 0)).length ≤ 1 := by
    rw [root]
    decide +kernel
  have enough : sparseDisc.dirNeed (chain 0) ≤ sparseDisc.freeBlocks.length := by
    rw [root]
    decide +kernel
  refine ⟨sparseDisc, chain, 0, rootPath, 1, pool, inRange, by decide +kernel, ?_, ?_, ?_⟩
  · rwa [pool.chainOf_eq inRange]
  · rw [addElemToDir_oneSlot_iff pool inRange enough]
    exact fun held => two held.1
  · rwa [insertDir_oneSlot_iff pool inRange (newElem_storable rootPath 1) enough]

/-! ## One insertion for the other -/

/-- The first slot of the first free block is not marked as used by what it held before. -/
def FirstUnused (s : VirtualDisc) : Prop := ∀ b ∈ s.freeBlocks.head?, (s.elemAt (b, 0)).used = 0

theorem freeSlot_eq_zero_iff {data : Nat → UInt8} : freeSlot data = some 0 ↔ (readElem data 0).used = 0 := by
  refine ⟨fun found => (freeSlot_eq_some found).2, fun unused => ?_⟩
  have positive : dirElemsPerBlock = 408 + 1 := rfl
  rw [freeSlot, positive, List.range_succ_eq_map, List.find?_cons_of_pos (by simpa using unused)]

theorem fill_started (found : freeSlot (s.data b) = some 0) : (s.started dir b).fill elem [b] = s.begun dir b elem := by
  have filled : fillData elem ((s.started dir b).data b) = writeElem (s.data b) 0 elem := by
    change fillData elem (s.data b) = _
    rw [fillData, found]
  have table : ((s.started dir b).fill elem [b]).datablockTab = (s.begun dir b elem).datablockTab := by
    funext c
    by_cases same : c = b
    · subst same
      simp only [fill, List.mem_singleton, if_true, filled, begun, withMark, withData, Function.update_self]
      rfl
    · simp only [fill, List.mem_singleton, same, if_false, begun, withMark, withData, Function.update_of_ne same]
      rfl
  have other : (s.started dir b).fill elem [b] =
      { s.begun dir b elem with datablockTab := ((s.started dir b).fill elem [b]).datablockTab } := rfl
  rw [other, table]

/-- The element cannot lie on two slots. -/
theorem OneSlot.unique {place place' : Nat × Nat} (one : s.OneSlot dir elem s' place) (two : s.OneSlot dir elem s' place')
    (storable : elem.Storable) (inside : place ∈ places (s'.chainOf dir)) (unused : (s.elemAt place).used = 0) :
    place = place' := by
  by_contra other
  have kept := two.others place inside other
  rw [one.written] at kept
  exact storable.used (kept ▸ unused)

/-- The first free block is begun by `make_dir` and searched by `add_elem_to_dir`. -/
theorem insertions_agree_of_nil (pool : s.PoolOf chain) (inRange : dir < s.inodesNum) (none_ : chain dir = [])
    (free : s.freeBlocks = b :: rest) (name : CString) (nodeId : Nat) :
    (∃ s', s.addElemToDir dir name nodeId = .ok ([], s') ∧ s.insertDir dir (newElem name nodeId) = .ok (none, s')) ↔
      (s.elemAt (b, 0)).used = 0 := by
  have storable := newElem_storable name nodeId
  have nil := (pool.chain_eq_nil_iff inRange).mp none_
  have full : s.roomy (chain dir) = [] := by simp [none_, roomy]
  have inserted := begun_inserted pool inRange storable none_ free
  have chainAfter : (s.begun dir b (newElem name nodeId)).chainOf dir = [b] := by
    rw [inserted.chainOf inRange, none_, List.nil_append]
  have begun := oneSlot_of_extended inRange pool storable full free (by decide : 0 < dirElemsPerBlock)
    (inserted.chainOf inRange) (begun_data s dir b (newElem name nodeId))
  rw [addElemToDir_started inRange nil free name nodeId]
  constructor
  · rintro ⟨s', returned, made⟩
    obtain ⟨r, inner, same⟩ := bind_eq_ok.mp returned
    cases (insertDir_begins nil free).symm.trans made
    rw [Except.ok.injEq, Prod.mk.injEq] at same
    obtain ⟨-, same⟩ := same
    cases found : freeSlot (s.data b) with
    | none => exact absurd (same ▸ begun) (not_oneSlot_of_started pool inRange storable none_ free found inner _)
    -- the one slot that was written is the one that `make_dir` writes, the first
    | some i =>
      obtain ⟨t, inner', one⟩ := oneSlot_of_started pool inRange storable none_ free found
      cases inner'.symm.trans inner
      obtain rfl : t = s.begun dir b (newElem name nodeId) := same
      have slot := freeSlot_eq_some found
      have here : (b, i) = (b, 0) := one.unique begun storable
        (mem_places.mpr ⟨by rw [chainAfter]; exact List.mem_singleton_self b, slot.1⟩) slot.2
      obtain rfl : i = 0 := congrArg Prod.snd here
      exact slot.2
  · -- `add_elem_to_dir` starts with an empty block, and its search finds the first slot
    intro unused
    have found : freeSlot (s.data b) = some 0 := freeSlot_eq_zero_iff.mpr unused
    obtain ⟨poolT, _⟩ := pool.start (s.started dir b) inRange none_ free rfl (by simp [started]) rfl rfl
    have inRangeT : dir < (s.started dir b).inodesNum := inRange
    have roomT : (s.started dir b).roomy (Function.update chain dir (chain dir ++ [b]) dir) ≠ [] := by
      rw [ne_eq, started_roomy_eq_nil_iff none_, found]
      simp
    refine ⟨_, ?_, insertDir_begins nil free⟩
    rw [insertElem_fills poolT inRangeT roomT, Function.update_self, none_, List.nil_append, fill_started found]
    rfl

/-- With enough free blocks the two insertions lead to one disc, exactly if the directory has blocks or the
first free block has nothing left on its first slot. -/
theorem insertions_agree_iff (pool : s.PoolOf chain) (inRange : dir < s.inodesNum)
    (enough : s.dirNeed (s.chainOf dir) ≤ s.freeBlocks.length) (name : CString) (nodeId : Nat) :
    (∃ s', s.addElemToDir dir name nodeId = .ok ([], s') ∧ s.insertDir dir (newElem name nodeId) = .ok (none, s')) ↔
      (s.chainOf dir = [] → s.FirstUnused) := by
  rw [pool.chainOf_eq inRange] at enough ⊢
  by_cases none_ : chain dir = []
  · have need : s.dirNeed (chain dir) = 1 := by simp [dirNeed, none_, roomy]
    rw [need] at enough
    obtain ⟨b, rest, free⟩ := List.exists_cons_of_ne_nil (List.length_pos_iff.mp enough)
    rw [insertions_agree_of_nil pool inRange none_ free name nodeId]
    simp [none_, FirstUnused, free]
  · rw [insertDir_of_some pool inRange none_, addElemToDir_of_some pool inRange none_]
    refine iff_of_true ?_ (fun nil => absurd nil none_)
    rcases insertElem_of_some pool inRange (newElem_storable name nodeId) none_ with ⟨s', returned, -⟩ | ⟨-, short⟩
    · exact ⟨s', by rw [returned]; rfl, returned⟩
    · exact absurd enough (Nat.not_le.mpr short)

theorem insertions_agree_third : (∃ s', namesDisc.addElemToDir 0 ⟨[99], by decide⟩ 3 = .ok ([], s') ∧
      namesDisc.insertDir 0 (newElem ⟨[99], by decide⟩ 3) = .ok (none, s')) ∧
    ∃ s', smallDisc.addElemToDir 0 ⟨[97], by decide⟩ 1 = .ok ([], s') ∧
      smallDisc.insertDir 0 (newElem ⟨[97], by decide⟩ 1) = .ok (none, s') := by
  obtain ⟨chain, pool, _⟩ := namesDisc_pool
  have inRange : 0 < namesDisc.inodesNum := by decide +kernel
  have blocks : namesDisc.chainOf 0 ≠ [] := by decide +kernel
  constructor
  · exact (insertions_agree_iff pool inRange (by decide +kernel) ⟨[99], by decide⟩ 3).mpr fun none_ => absurd none_ blocks
  · exact (insertions_agree_iff blank_pool (by decide +kernel) (by decide +kernel) ⟨[97], by decide⟩ 1).mpr
      fun _ _ _ => rfl

def leftoverDisc : VirtualDisc :=
  { smallDisc with datablockTab := fun b => { smallDisc.datablockTab b with data := fun k => if k = 2 then 1 else 0 } }

/-- `make_dir` writes the first slot, and `add_elem_to_dir` the second. -/
theorem insertions_disagree : ∃ (s : VirtualDisc) (chain : Nat → List Nat) (dir : Nat) (name : CString) (nodeId : Nat),
    s.PoolOf chain ∧ dir < s.inodesNum ∧ (s.nodeTab dir).type = .directory ∧
    s.dirNeed (s.chainOf dir) ≤ s.freeBlocks.length ∧
    ¬ ∃ s', s.addElemToDir dir name nodeId = .ok ([], s') ∧ s.insertDir dir (newElem name nodeId) = .ok (none, s') := by
  have pool : leftoverDisc.PoolOf fun _ => [] := blank_pool.frame rfl rfl rfl rfl
  have inRange : 0 < leftoverDisc.inodesNum := by decide +kernel
  have free : leftoverDisc.freeBlocks = 0 :: [1, 2] := by decide +kernel
  refine ⟨leftoverDisc, _, 0, rootPath, 1, pool, inRange, by decide +kernel, by decide +kernel, fun agree => ?_⟩
  have unused := (insertions_agree_of_nil pool inRange rfl free rootPath 1).mp agree
  exact absurd unused (by decide +kernel)

end VirtualDisc
end SoiStud.FileSystem
