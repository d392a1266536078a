import SoiStud.FileSystem.Resizing

/-! The recursive removal.

`remove_file` writes no data block: it changes reference counts and empties
inodes, giving all their blocks back. That much holds however its calls are
nested (`Removed`).
-/

set_option autoImplicit false

namespace SoiStud.FileSystem
namespace VirtualDisc

open Library

variable {s s' s'' : VirtualDisc} {chain chain' chain'' : Nat → List Nat} {file i : Nat}

def Spared (s : VirtualDisc) (chain : Nat → List Nat) (s' : VirtualDisc) (chain' : Nat → List Nat) (i : Nat) : Prop :=
  s'.nodeTab i = { s.nodeTab i with referencesNum := (s'.nodeTab i).referencesNum } ∧ chain' i = chain i

def Emptied (s' : VirtualDisc) (chain' : Nat → List Nat) (i : Nat) : Prop :=
  (s'.nodeTab i).type = .empty ∧ s'.first i = nil64 ∧ chain' i = []

/-- What any run of the removal leaves. -/
structure Removed (s : VirtualDisc) (chain : Nat → List Nat) (s' : VirtualDisc) (chain' : Nat → List Nat) : Prop where
  superblock : s'.superblock = s.superblock
  data : s'.data = s.data
  pool : s'.PoolOf chain'
  fates : ∀ i < s.inodesNum, Spared s chain s' chain' i ∨ Emptied s' chain' i

theorem Removed.refl (pool : s.PoolOf chain) : Removed s chain s chain :=
  ⟨rfl, rfl, pool, fun _ _ => .inl ⟨rfl, rfl⟩⟩

theorem Removed.trans (first_ : Removed s chain s' chain') (second : Removed s' chain' s'' chain'') :
    Removed s chain s'' chain'' where
  superblock := second.superblock.trans first_.superblock
  data := second.data.trans first_.data
  pool := second.pool
  fates := by
    intro i inRange
    have inRange' : i < s'.inodesNum := by
      rw [inodesNum, first_.superblock]
      exact inRange
    rcases second.fates i inRange' with ⟨node, blocks⟩ | emptied
    · rcases first_.fates i inRange with ⟨before, blocksBefore⟩ | ⟨type, nil, none_⟩
      · refine .inl ⟨?_, blocks.trans blocksBefore⟩
        rw [before] at node
        exact node
      · refine .inr ⟨?_, ?_, blocks.trans none_⟩
        · rw [node]
          exact type
        · unfold first at nil ⊢
          rw [node]
          exact nil
    · exact .inr emptied

theorem Removed.spared (removed : Removed s chain s' chain') (inRange : i < s.inodesNum)
    (live : (s'.nodeTab i).type ≠ .empty) : Spared s chain s' chain' i := by
  rcases removed.fates i inRange with spared | ⟨type, _⟩
  · exact spared
  · exact absurd type live

theorem Removed.kept (removed : Removed s chain s' chain') (inRange : i < s.inodesNum)
    (live : (s'.nodeTab i).type ≠ .empty) : Kept s chain s' chain' i := by
  obtain ⟨node, blocks⟩ := removed.spared inRange live
  constructor
  · rw [node]
  · rw [node]
  · exact blocks
  · intro b _
    rw [removed.data]

theorem removed_withReferences (pool : s.PoolOf chain) (file : Nat) (n : UInt8) :
    Removed s chain (s.withReferences file n) chain := by
  refine ⟨rfl, rfl, pool.frame rfl (by simp) rfl rfl, fun i _ => .inl ⟨?_, rfl⟩⟩
  by_cases same : i = file
  · subst same; simp
  · simp [same]

def emptied (s : VirtualDisc) (file : Nat) (blocks : List Nat) : VirtualDisc :=
  (blocks.foldl release s).withNode file ⟨0, nil64, .empty, 0⟩

theorem deallocDatablocks_chain (pool : s.PoolOf chain) (inRange : file < s.inodesNum) :
    s.deallocDatablocks (s.first file) = .ok ((chain file).foldl release s) :=
  deallocDatablocks_eq (pool.linked file inRange) (pool.bounded file inRange) (pool.length_le inRange)

theorem removed_emptied (pool : s.PoolOf chain) (inRange : file < s.inodesNum) :
    Removed s chain (s.emptied file (chain file)) (Function.update chain file []) := by
  constructor
  · simp [emptied]
  · simp [emptied]
  · unfold PoolOf inodesNum datablocksNum at pool ⊢
    simp only [emptied, withNode_superblock, released_superblock, withNode_first, withNode_next, withNode_dataMap,
      released_first]
    apply pool.cut inRange (List.nil_append _).symm
    · rw [Function.update_self]
      exact .stop
    · intro j other
      exact Function.update_of_ne other _ _
    · intro c _ notIn
      rw [released_next, if_neg notIn]
    · intro c member
      rw [released_next, if_pos member]
    · intro c _
      exact released_dataMap s _ c
  · intro i _
    by_cases same : i = file
    · subst same
      exact .inr ⟨by simp [emptied], by simp [emptied], by simp⟩
    · exact .inl ⟨by simp [emptied, same], by simp [same]⟩

/-! ## The loops stay within what their calls do -/

section
variable {remove : VirtualDisc → Nat → Except Fault VirtualDisc} {R : VirtualDisc → VirtualDisc → Prop}

def Within (R : VirtualDisc → VirtualDisc → Prop) (remove : VirtualDisc → Nat → Except Fault VirtualDisc) : Prop :=
  ∀ s file s', remove s file = .ok s' → R s s'

theorem removeSlots_within (refl : ∀ s, R s s) (trans : ∀ s t u, R s t → R t u → R s u) (within : Within R remove)
    {idx : Nat} {slots : List Nat} (returned : removeSlots remove idx slots s = .ok s') : R s s' := by
  induction slots generalizing s with
  | nil =>
    cases returned
    exact refl _
  | cons i rest ih =>
    rw [removeSlots] at returned
    split at returned
    next =>
      obtain ⟨t, removedOne, returned⟩ := bind_eq_ok.mp returned
      exact trans s t s' (within s _ t removedOne) (ih returned)
    next => exact ih returned

theorem removeBlocks_within (refl : ∀ s, R s s) (trans : ∀ s t u, R s t → R t u → R s u) (within : Within R remove)
    {fuel idx : Nat} (returned : removeBlocks remove fuel idx s = .ok s') : R s s' := by
  induction fuel generalizing s idx with
  | zero => cases returned
  | succ fuel ih =>
    rw [removeBlocks] at returned
    split at returned
    next =>
      cases returned
      exact refl _
    next =>
      obtain ⟨_, _, returned⟩ := bind_eq_ok.mp returned
      obtain ⟨t, slots, returned⟩ := bind_eq_ok.mp returned
      exact trans s t s' (removeSlots_within refl trans within slots) (ih returned)

theorem removeEntries_within (refl : ∀ s, R s s) (trans : ∀ s t u, R s t → R t u → R s u) (within : Within R remove)
    {node : Inode} (returned : removeEntries remove node s = .ok s') : R s s' := by
  unfold removeEntries at returned
  split at returned
  next => exact removeBlocks_within refl trans within returned
  next =>
    cases returned
    exact refl _

end

def Removes (remove : VirtualDisc → Nat → Except Fault VirtualDisc) : Prop :=
  ∀ s chain file s', s.PoolOf chain → remove s file = .ok s' → ∃ chain', Removed s chain s' chain'

def RemovedAny (s s' : VirtualDisc) : Prop :=
  ∀ chain, s.PoolOf chain → ∃ chain', Removed s chain s' chain'

theorem RemovedAny.refl (s : VirtualDisc) : RemovedAny s s := fun chain pool => ⟨chain, .refl pool⟩

theorem RemovedAny.trans (s t u : VirtualDisc) (earlier : RemovedAny s t) (later : RemovedAny t u) : RemovedAny s u := by
  intro chain pool
  obtain ⟨chainT, removedT⟩ := earlier chain pool
  obtain ⟨chainU, removedU⟩ := later chainT removedT.pool
  exact ⟨chainU, removedT.trans removedU⟩

section
variable {remove : VirtualDisc → Nat → Except Fault VirtualDisc}

theorem Removes.within (removes : Removes remove) : Within RemovedAny remove :=
  fun s file s' returned chain pool => removes s chain file s' pool returned

theorem removeSlots_removed (removes : Removes remove) {idx : Nat} {slots : List Nat} (pool : s.PoolOf chain)
    (returned : removeSlots remove idx slots s = .ok s') : ∃ chain', Removed s chain s' chain' :=
  removeSlots_within .refl .trans removes.within returned chain pool

theorem removeEntries_removed (removes : Removes remove) {node : Inode} (pool : s.PoolOf chain)
    (returned : removeEntries remove node s = .ok s') : ∃ chain', Removed s chain s' chain' :=
  removeEntries_within .refl .trans removes.within returned chain pool

end

theorem removeFile_removed (fuel : Nat) : Removes (removeFile fuel) := by
  induction fuel with
  | zero =>
    intro s chain file s' _ returned
    cases returned
  | succ fuel ih =>
    intro s chain file s' pool returned
    obtain ⟨node, read, returned⟩ := bind_eq_ok.mp returned
    obtain ⟨inRange, rfl⟩ := node_ok_iff.mp read
    have decremented := removed_withReferences pool file ((s.nodeTab file).referencesNum - 1)
    dsimp only at returned
    split at returned
    next =>
      cases returned
      exact ⟨chain, decremented⟩
    next =>
      obtain ⟨t, loops, returned⟩ := bind_eq_ok.mp returned
      obtain ⟨chainT, removedT⟩ := removeEntries_removed ih decremented.pool loops
      have inRangeT : file < t.inodesNum := by
        rw [inodesNum, removedT.superblock]
        exact inRange
      obtain ⟨u, freed, returned⟩ := bind_eq_ok.mp returned
      rw [deallocDatablocks_chain removedT.pool inRangeT] at freed
      cases freed
      cases returned
      exact ⟨_, decremented.trans (removedT.trans (removed_emptied removedT.pool inRangeT))⟩

/-! ## What a removal does not reach

`s₀` is the disc before the removal. A set of inodes that entries do not lead
out of is not left either: the blocks read are those of directories of the set.
-/

section
variable {s₀ : VirtualDisc} {chain₀ : Nat → List Nat} {P : Nat → Prop}
  {remove : VirtualDisc → Nat → Except Fault VirtualDisc}

def StaysIn (s₀ : VirtualDisc) (chain₀ : Nat → List Nat) (P : Nat → Prop)
    (remove : VirtualDisc → Nat → Except Fault VirtualDisc) : Prop :=
  ∀ s chain file s', Removed s₀ chain₀ s chain → P file → remove s file = .ok s' →
    ∀ i, ¬ P i → s'.nodeTab i = s.nodeTab i

theorem Removed.next_mem (removed : Removed s₀ chain₀ s chain) (pool : s₀.PoolOf chain₀) (inRange : file < s₀.inodesNum)
    {b : Nat} (member : b ∈ chain₀ file) : s.next b = nil64 ∨ s.next b ∈ chain₀ file := by
  have size := inodesNum_eq removed.superblock
  rcases removed.fates file inRange with ⟨_, blocks⟩ | ⟨_, _, none_⟩
  · have linked := removed.pool.linked file (by rwa [size])
    rw [blocks] at linked
    exact linked.next_mem member
  · have bounded : b < s.datablocksNum := by
      rw [datablocksNum, removed.superblock]
      exact pool.bounded file inRange b member
    refine .inl (removed.pool.loose b bounded ?_)
    rw [← Bool.not_eq_true, removed.pool.marked_iff b bounded]
    rintro ⟨j, owner, held⟩
    have owner₀ : j < s₀.inodesNum := by rwa [inodesNum, removed.superblock] at owner
    rcases removed.fates j owner₀ with ⟨_, same⟩ | ⟨_, _, empty⟩
    · by_cases mine : j = file
      · rw [mine, none_] at held
        cases held
      · rw [same] at held
        exact pool.disjoint j owner₀ file inRange mine held member
    · rw [empty] at held
      cases held

theorem removeSlots_staysIn (stays : StaysIn s₀ chain₀ P remove) (removes : Removes remove) {b : Nat}
    {slots : List Nat} (within : ∀ i ∈ slots, (readElem (s₀.data b) i).used ≠ 0 → P (readElem (s₀.data b) i).inodeId)
    (removed : Removed s₀ chain₀ s chain) (returned : removeSlots remove b slots s = .ok s') :
    ∀ i, ¬ P i → s'.nodeTab i = s.nodeTab i := by
  induction slots generalizing s chain with
  | nil =>
    cases returned
    exact fun _ _ => rfl
  | cons slot rest ih =>
    have elem : s.elemAt (b, slot) = readElem (s₀.data b) slot := by rw [elemAt, removed.data]
    have later := fun i member => within i (List.mem_cons_of_mem _ member)
    rw [removeSlots, elem] at returned
    split at returned
    next used =>
      obtain ⟨t, first_, returned⟩ := bind_eq_ok.mp returned
      obtain ⟨chainT, removedT⟩ := removes s chain _ t removed.pool first_
      intro i outside
      rw [ih later (removed.trans removedT) returned i outside]
      exact stays s chain _ t removed (within slot List.mem_cons_self used) first_ i outside
    next => exact ih later removed returned

theorem removeBlocks_staysIn (stays : StaysIn s₀ chain₀ P remove) (removes : Removes remove) (pool : s₀.PoolOf chain₀)
    (inRange : file < s₀.inodesNum) (within : ∀ e ∈ s₀.usedElems (chain₀ file), P e.inodeId) {fuel idx : Nat}
    (onChain : idx = nil64 ∨ idx ∈ chain₀ file) (removed : Removed s₀ chain₀ s chain)
    (returned : removeBlocks remove fuel idx s = .ok s') : ∀ i, ¬ P i → s'.nodeTab i = s.nodeTab i := by
  induction fuel generalizing s chain idx with
  | zero => cases returned
  | succ fuel ih =>
    rw [removeBlocks] at returned
    split at returned
    next =>
      cases returned
      exact fun _ _ => rfl
    next here =>
      obtain ⟨_, _, returned⟩ := bind_eq_ok.mp returned
      obtain ⟨t, slots, returned⟩ := bind_eq_ok.mp returned
      obtain ⟨chainT, removedT⟩ := removeSlots_removed removes removed.pool slots
      have member := onChain.resolve_left here
      have removedT := removed.trans removedT
      have elems : ∀ i ∈ List.range dirElemsPerBlock, (readElem (s₀.data idx) i).used ≠ 0 →
          P (readElem (s₀.data idx) i).inodeId := by
        intro i slot used
        apply within
        refine List.mem_flatMap.mpr ⟨idx, member, ?_⟩
        exact List.mem_filter.mpr ⟨List.mem_map_of_mem slot, decide_eq_true used⟩
      intro i outside
      rw [ih (removedT.next_mem pool inRange member) removedT returned i outside]
      exact removeSlots_staysIn stays removes elems removed slots i outside

theorem removeEntries_staysIn (stays : StaysIn s₀ chain₀ P remove) (removes : Removes remove) (pool : s₀.PoolOf chain₀)
    (closed : ∀ d < s₀.inodesNum, P d → ∀ e ∈ s₀.entries chain₀ d, P e.inodeId) (inside : P file)
    (inRange : file < s₀.inodesNum) (removed : Removed s₀ chain₀ s chain)
    (returned : removeEntries remove (s.nodeTab file) s = .ok s') : ∀ i, ¬ P i → s'.nodeTab i = s.nodeTab i := by
  unfold removeEntries at returned
  split at returned
  next directory =>
    have size := inodesNum_eq removed.superblock
    obtain ⟨node, blocks⟩ := removed.spared inRange (by simp [directory])
    have within := closed file inRange inside
    rw [entries_of_directory (by rwa [node] at directory)] at within
    have linked := removed.pool.linked file (by rwa [size])
    rw [blocks] at linked
    have onChain : s.first file = nil64 ∨ s.first file ∈ chain₀ file := by
      cases start : chain₀ file with
      | nil =>
        rw [start] at linked
        exact .inl linked.eq_nil
      | cons b rest =>
        rw [start] at linked
        exact .inr (linked.head_eq ▸ List.mem_cons_self)
    exact removeBlocks_staysIn stays removes pool inRange within onChain removed returned
  next =>
    cases returned
    exact fun _ _ => rfl

/-- The entries are those of the node as it was read, before its count went down. -/
theorem removeEntries_withReferences (s : VirtualDisc) (file : Nat) (n : UInt8) :
    removeEntries remove (s.nodeTab file) (s.withReferences file n) =
      removeEntries remove ((s.withReferences file n).nodeTab file) (s.withReferences file n) := by
  simp [removeEntries]

theorem removeFile_staysIn (pool : s₀.PoolOf chain₀)
    (closed : ∀ d < s₀.inodesNum, P d → ∀ e ∈ s₀.entries chain₀ d, P e.inodeId) (fuel : Nat) :
    StaysIn s₀ chain₀ P (removeFile fuel) := by
  -- on the depth of the recursion; what is removed further down satisfies `P` as well
  induction fuel with
  | zero =>
    intro s chain file s' _ _ returned
    cases returned
  | succ fuel ih =>
    intro s chain file s' removed inside returned i outside
    have other : i ≠ file := fun same => outside (same ▸ inside)
    obtain ⟨node, read, returned⟩ := bind_eq_ok.mp returned
    obtain ⟨inRange, rfl⟩ := node_ok_iff.mp read
    have size := inodesNum_eq removed.superblock
    have removedT := removed.trans (removed_withReferences removed.pool file ((s.nodeTab file).referencesNum - 1))
    dsimp only at returned
    split at returned
    next =>
      cases returned
      simp [other]
    next =>
      obtain ⟨u, entries, returned⟩ := bind_eq_ok.mp returned
      obtain ⟨v, freed, returned⟩ := bind_eq_ok.mp returned
      obtain ⟨ids, _, released⟩ := bind_eq_ok.mp freed
      cases released
      cases returned
      simp only [withNode_nodeTab, Function.update_of_ne other, released_nodeTab]
      rw [removeEntries_withReferences] at entries
      rw [removeEntries_staysIn ih (removeFile_removed fuel) pool closed inside (by rwa [← size]) removedT entries i
        outside]
      simp [other]

end

end VirtualDisc
end SoiStud.FileSystem
