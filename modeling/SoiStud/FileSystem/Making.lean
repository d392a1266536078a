import SoiStud.FileSystem.Entering

/-! What `make_dir` leaves: the directories it makes one inside the other. -/

set_option autoImplicit false

namespace SoiStud.FileSystem
namespace VirtualDisc

open Library

variable {s s' : VirtualDisc} {chain chain' : Nat → List Nat} {dir i j : Nat} {filename : CString}

theorem freeNodes_eq (s : VirtualDisc) :
    s.freeNodes = unmarked s.inodesNum fun i => decide ((s.nodeTab i).type ≠ .empty) := by
  unfold freeNodes unmarked
  apply List.filter_congr
  intro i _
  simp

/-- An inode of the table takes the first free index, and the other inodes keep their types. -/
theorem freeNodes_of_types (free : s.freeNodes ≠ []) (size : s'.inodesNum = s.inodesNum)
    (live : (s'.nodeTab s.findFreeNode).type ≠ .empty)
    (others : ∀ i, i ≠ s.findFreeNode → (s'.nodeTab i).type = (s.nodeTab i).type) :
    s.freeNodes = s.findFreeNode :: s'.freeNodes := by
  obtain ⟨j, rest, frees⟩ := List.exists_cons_of_ne_nil free
  have first_ : s.findFreeNode = j := by
    rw [findFreeNode_eq, frees]
    rfl
  have parts : unmarked s.inodesNum (fun i => decide ((s.nodeTab i).type ≠ .empty)) = [j] ++ rest := by
    rw [← freeNodes_eq, frees]
    rfl
  have again : s'.freeNodes = rest := by
    rw [freeNodes_eq, size]
    apply unmarked_mark parts
    intro i _
    by_cases same : i = j
    · subst same
      rw [first_] at live
      simp [live]
    · simp [others i (first_ ▸ same), same]
  rw [frees, first_, again]

structure Created (s : VirtualDisc) (chain : Nat → List Nat) (dir : Nat) (name : CString) (j : Nat)
    (t : VirtualDisc) (chainT : Nat → List Nat) : Prop where
  entered : s.Entered chain dir j (newElem name j) (s.extraDir (chain dir) (newElem name j)) t chainT
  nodes : s.freeNodes = j :: t.freeNodes
  directory : (t.nodeTab j).type = .directory
  references : (t.nodeTab j).referencesNum = 1
  empty : chainT j = []
  enough : s.dirNeed (chain dir) ≤ s.freeBlocks.length
  free : s.freeBlocks = s.freeBlocks.take (s.dirNeed (chain dir)) ++ t.freeBlocks
  data : ∀ b ∈ t.freeBlocks, t.data b = s.data b

/-- The directories `names` are made one inside the other, as far as there are
free inodes; `extra` is what the directories get besides. -/
inductive Made : VirtualDisc → (Nat → List Nat) → Nat → List CString → List DirectoryElement → VirtualDisc →
    (Nat → List Nat) → Prop where
  | stop {s : VirtualDisc} {chain : Nat → List Nat} {dir : Nat} {names : List CString} :
      names = [] ∨ s.freeNodes = [] → Made s chain dir names [] s chain
  | next {s t s' : VirtualDisc} {chain chainT chain' : Nat → List Nat} {dir j : Nat} {name : CString}
      {rest : List CString} {extra : List DirectoryElement} : s.Created chain dir name j t chainT →
      Made t chainT j rest extra s' chain' →
      Made s chain dir (name :: rest) (s.extraDir (chain dir) (newElem name j) ++ extra) s' chain'

theorem insertDir_created (blocks : s.BlockConsistent chain) (inRange : dir < s.inodesNum)
    (directory : (s.nodeTab dir).type = .directory) (free : s.freeNodes ≠ []) (name : CString) :
    let j := s.findFreeNode
    let allocated := s.allocate j .directory (s.nodeTab j).size
    (∃ t chainT, allocated.insertDir dir (newElem name j) = .ok (none, t) ∧ s.Created chain dir name j t chainT) ∨
    (∀ r, allocated.insertDir dir (newElem name j) ≠ .ok r) ∧ s.freeBlocks.length < s.dirNeed (chain dir) := by
  intro j allocated
  obtain ⟨bounded, empty⟩ := findFreeNode_spec free
  have touched : s.Touched chain j allocated := touched_allocate blocks bounded empty fun impossible => by
    cases impossible
  -- the new inode was empty, so it is not the directory
  have apart : dir ≠ j := fun same => by
    rw [same, empty] at directory
    cases directory
  have directoryA : (allocated.nodeTab dir).type = .directory := (touched.types dir apart).trans directory
  rcases insertDir_spec touched.blocks.pool inRange (newElem_storable name j) with
    ⟨t, returned, enough, inserted⟩ | failed
  · refine .inl ⟨t, Function.update chain dir (chain dir ++ s.freeBlocks.take (s.dirNeed (chain dir))), returned, ?_⟩
    have entered := touched.entered inRange directoryA inserted
    have typeJ : (t.nodeTab j).type = .directory := by
      rw [inserted.type]
      simp [allocated, allocate]
    constructor
    · exact entered
    · apply freeNodes_of_types free (inodesNum_eq entered.superblock) _ entered.types
      simp [typeJ, j]
    · exact typeJ
    · rw [inserted.references]
      simp [allocated, allocate]
    · -- the new directory has no block until something is entered into it
      rw [Function.update_of_ne apart.symm]
      exact blocks.chain_eq_nil bounded empty
    · exact enough
    · exact inserted.free
    · intro b member
      apply inserted.data
      have sizeT := inodesNum_eq entered.superblock
      have outside := entered.blocks.pool.free_not_mem (i := dir) member (by rwa [sizeT])
      rwa [Function.update_self] at outside
  · exact .inr failed

theorem makeDirFrom_cons (free : s.freeNodes ≠ []) {name : CString} {rest : List CString}
    (absent : s.findInDir dir name = .ok none) : makeDirFrom (name :: rest) s dir = (do
      let (failed, t) ← (s.allocate s.findFreeNode .directory (s.nodeTab s.findFreeNode).size).insertDir dir
        (newElem name s.findFreeNode)
      match failed with
      | some text => .ok (warnInvalid name ++ [.cerr text], t)
      | none =>
        let (out, t) ← makeDirFrom rest t s.findFreeNode
        .ok (warnInvalid name ++ out, t)) := by
  have some_ : s.findFreeNode ≠ none32 := fun none_ => free (findFreeNode_eq_none32_iff.mp none_)
  rw [makeDirFrom, absent, ok_bind]
  simp only [some_, if_false]
  rfl

theorem Created.absent (created : s.Created chain dir filename j s' chain') (name : CString) :
    s'.findInDir j name = .ok none := by
  have bounded : j < s.inodesNum := (mem_freeNodes.mp (created.nodes ▸ List.mem_cons_self : j ∈ s.freeNodes)).1
  have size := inodesNum_eq created.entered.superblock
  exact findInDir_of_chain_nil created.entered.blocks.pool (by rwa [size]) created.empty

theorem absent_head {name : CString} {rest : List CString} (absent : s.findInDir dir name = .ok none) :
    ∀ n ∈ (name :: rest).head?, s.findInDir dir n = .ok none := by
  rintro _ ⟨⟩
  exact absent

theorem makeDirFrom_made (blocks : s.BlockConsistent chain) (inRange : dir < s.inodesNum)
    (directory : (s.nodeTab dir).type = .directory) (names : List CString)
    (absent : ∀ name ∈ names.head?, s.findInDir dir name = .ok none) {out : List Output}
    (returned : makeDirFrom names s dir = .ok (out, s')) :
    ∃ extra chain', Made s chain dir names extra s' chain' := by
  induction names generalizing s chain dir out with
  | nil =>
    cases returned
    exact ⟨[], chain, .stop (.inl rfl)⟩
  | cons name rest ih =>
    have absentHere := absent name rfl
    by_cases free : s.freeNodes = []
    · have none_ := findFreeNode_eq_none32_iff.mpr free
      rw [makeDirFrom, absentHere, ok_bind] at returned
      simp only [none_, if_true] at returned
      cases returned
      exact ⟨[], chain, .stop (.inr free)⟩
    · rw [makeDirFrom_cons free absentHere] at returned
      rcases insertDir_created blocks inRange directory free name with ⟨t, chainT, inserted, created⟩ | ⟨failed, _⟩
      · rw [inserted, ok_bind] at returned
        obtain ⟨⟨more, u⟩, walked, same⟩ := bind_eq_ok.mp returned
        cases same
        have size := inodesNum_eq created.entered.superblock
        obtain ⟨extra, chain', made⟩ := ih created.entered.blocks
          (by rw [size]; exact (findFreeNode_spec free).1) created.directory
          (fun name _ => created.absent name) walked
        exact ⟨_, chain', .next created made⟩
      · obtain ⟨r, inserted, _⟩ := bind_eq_ok.mp returned
        exact absurd inserted (failed r)

structure FreshDir (s : VirtualDisc) (chain : Nat → List Nat) (dir j : Nat) (t : VirtualDisc)
    (chainT : Nat → List Nat) : Prop where
  superblock : t.superblock = s.superblock
  pool : t.PoolOf chainT
  without : ∀ i < t.inodesNum, (t.nodeTab i).type = .empty → t.first i = nil64
  nodes : s.freeNodes = j :: t.freeNodes
  directory : (t.nodeTab j).type = .directory
  empty : chainT j = []
  left : s.freeBlocks.length = s.dirNeed (chain dir) + t.freeBlocks.length

theorem insertDir_freshDir (pool : s.PoolOf chain)
    (without : ∀ i < s.inodesNum, (s.nodeTab i).type = .empty → s.first i = nil64) (inRange : dir < s.inodesNum)
    (directory : (s.nodeTab dir).type = .directory) (free : s.freeNodes ≠ [])
    (enough : s.dirNeed (chain dir) ≤ s.freeBlocks.length) (name : CString) :
    ∃ t chainT, (s.allocate s.findFreeNode .directory (s.nodeTab s.findFreeNode).size).insertDir dir
      (newElem name s.findFreeNode) = .ok (none, t) ∧ s.FreshDir chain dir s.findFreeNode t chainT := by
  -- the inode was empty, so it is not the directory that it is entered into
  obtain ⟨bounded, empty⟩ := findFreeNode_spec free
  have apart : s.findFreeNode ≠ dir := by
    intro same
    rw [← same, empty] at directory
    cases directory
  have poolA : (s.allocate s.findFreeNode .directory (s.nodeTab s.findFreeNode).size).PoolOf chain :=
    pool.frame rfl (allocate_first ..) rfl rfl
  rcases insertDir_spec poolA inRange (newElem_storable name s.findFreeNode) with
    ⟨t, returned, _, inserted⟩ | ⟨_, short⟩
  · refine ⟨t, _, returned, inserted.superblock, inserted.pool, ?_, ?_, ?_, ?_, ?_⟩
    · -- what is empty afterwards was empty before: neither the new inode nor the directory is
      intro i boundedT emptyT
      have other : i ≠ s.findFreeNode := by
        rintro rfl
        rw [inserted.type] at emptyT
        simp [allocate] at emptyT
      rw [inserted.type, (kept_allocate (fun _ => []) other).type] at emptyT
      have notDir : i ≠ dir := by
        rintro rfl
        rw [directory] at emptyT
        cases emptyT
      rw [inserted.firsts i notDir, allocate_first]
      rw [inodesNum_eq inserted.superblock] at boundedT
      exact without i boundedT emptyT
    · apply freeNodes_of_types free (inodesNum_eq inserted.superblock)
      · simp [inserted.type, allocate]
      · intro i other
        rw [inserted.type, (kept_allocate (fun _ => []) other).type]
    · rw [inserted.type]
      simp [allocate]
    · rw [Function.update_of_ne apart]
      exact (pool.chain_eq_nil_iff bounded).mpr (without _ bounded empty)
    · have parts := congrArg List.length inserted.free
      rw [List.length_append, List.length_take] at parts
      have need : (s.allocate s.findFreeNode .directory (s.nodeTab s.findFreeNode).size).dirNeed (chain dir) =
          s.dirNeed (chain dir) := rfl
      have frees : (s.allocate s.findFreeNode .directory (s.nodeTab s.findFreeNode).size).freeBlocks = s.freeBlocks := rfl
      rw [need, frees, Nat.min_eq_left enough] at parts
      exact parts
  · exact absurd enough (Nat.not_le_of_lt short)

theorem makeDirFrom_ok (pool : s.PoolOf chain)
    (without : ∀ i < s.inodesNum, (s.nodeTab i).type = .empty → s.first i = nil64) (inRange : dir < s.inodesNum)
    (directory : (s.nodeTab dir).type = .directory) (names : List CString)
    (absent : ∀ name ∈ names.head?, s.findInDir dir name = .ok none)
    (nodes : names.length ≤ s.freeNodes.length)
    (enough : s.dirNeed (chain dir) + (names.length - 1) ≤ s.freeBlocks.length) :
    ∃ out s', makeDirFrom names s dir = .ok (out, s') := by
  induction names generalizing s chain dir with
  | nil => exact ⟨[], s, rfl⟩
  | cons name rest ih =>
    have free : s.freeNodes ≠ [] := fun none_ => by simp [none_] at nodes
    obtain ⟨t, chainT, inserted, fresh⟩ := insertDir_freshDir pool without inRange directory free (by omega) name
    have inRangeT : s.findFreeNode < t.inodesNum := by
      rw [inodesNum_eq fresh.superblock]
      exact (findFreeNode_spec free).1
    -- an empty directory takes one block for its first entry
    have need : t.dirNeed (chainT s.findFreeNode) = 1 := by simp [fresh.empty, dirNeed, roomy]
    have left := fresh.left
    have leftNodes := congrArg List.length fresh.nodes
    simp only [List.length_cons] at nodes enough leftNodes
    have following : ∃ out s', makeDirFrom rest t s.findFreeNode = .ok (out, s') := by
      cases rest with
      | nil => exact ⟨[], t, rfl⟩
      | cons name' rest =>
        apply ih fresh.pool fresh.without inRangeT fresh.directory
          (fun name _ => findInDir_of_chain_nil fresh.pool inRangeT fresh.empty)
        · omega
        · rw [need]
          simp only [List.length_cons] at nodes enough ⊢
          omega
    obtain ⟨out, s', walked⟩ := following
    rw [makeDirFrom_cons free (absent name rfl)]
    exact ⟨_, s', by rw [inserted, ok_bind]; simp only [walked, ok_bind]; rfl⟩

/-! ## The whole run -/

theorem Made.superblock {names : List CString} {extra : List DirectoryElement}
    (made : Made s chain dir names extra s' chain') : s'.superblock = s.superblock := by
  induction made with
  | stop _ => rfl
  | next created _ ih => exact ih.trans created.entered.superblock

theorem Made.blocks {names : List CString} {extra : List DirectoryElement}
    (made : Made s chain dir names extra s' chain') (blocks : s.BlockConsistent chain) :
    s'.BlockConsistent chain' := by
  induction made with
  | stop _ => exact blocks
  | next created _ ih => exact ih created.entered.blocks

theorem Created.fresh (created : s.Created chain dir filename j s' chain') :
    j < s.inodesNum ∧ (s.nodeTab j).type = .empty :=
  mem_freeNodes.mp (created.nodes ▸ List.mem_cons_self)

theorem Made.frame {names : List CString} {extra : List DirectoryElement}
    (made : Made s chain dir names extra s' chain') (bounded : i < s.inodesNum)
    (live : (s.nodeTab i).type ≠ .empty) : (s'.nodeTab i).type = (s.nodeTab i).type ∧
      (s'.nodeTab i).referencesNum = (s.nodeTab i).referencesNum ∧ (i ≠ dir → Kept s chain s' chain' i) := by
  induction made with
  | stop _ => exact ⟨rfl, rfl, fun _ => .refl _ _ _⟩
  | @next s t s' chain chainT chain' dir j name rest extra created _ ih =>
    have apart : i ≠ j := fun same => live (same ▸ created.fresh.2)
    have size := inodesNum_eq created.entered.superblock
    have type := created.entered.types i apart
    obtain ⟨typeS, references, kept⟩ := ih (by rwa [size]) (by rwa [type])
    refine ⟨typeS.trans type, references.trans (created.entered.references i apart), fun other => ?_⟩
    exact (created.entered.kept i bounded other live).trans (kept apart)

theorem Made.taken {names : List CString} {extra : List DirectoryElement}
    (made : Made s chain dir names extra s' chain') (member : j ∈ s.freeNodes.take names.length) :
    (s'.nodeTab j).type = .directory ∧ (s'.nodeTab j).referencesNum = 1 := by
  induction made with
  | stop none_ => rcases none_ with none_ | none_ <;> simp [none_] at member
  | @next s t s' chain chainT chain' dir k name rest extra created run ih =>
    rw [created.nodes, List.length_cons, List.take_succ_cons, List.mem_cons] at member
    rcases member with rfl | member
    · have size := inodesNum_eq created.entered.superblock
      have live : (t.nodeTab j).type ≠ .empty := by simp [created.directory]
      obtain ⟨type, references, _⟩ := run.frame (by rw [size]; exact created.fresh.1) live
      exact ⟨type.trans created.directory, references.trans created.references⟩
    · exact ih member

/-- At most one block of the directory has an unused slot, and the blocks that
`n` new directories take hold no used element outside the first slot. -/
def MakesOnly (s : VirtualDisc) (blocks : List Nat) (n : Nat) : Prop :=
  (s.roomy blocks).length ≤ 1 ∧
    ∀ b ∈ s.freeBlocks.take (s.dirNeed blocks + (n - 1)), otherElems (s.data b) 0 = []

instance (blocks : List Nat) (n : Nat) : Decidable (s.MakesOnly blocks n) := inferInstanceAs (Decidable (_ ∧ _))

/-- The run makes as many directories as there are names and free inodes. -/
theorem Made.extra_eq_nil_iff_of_free {names : List CString} {extra : List DirectoryElement}
    (made : Made s chain dir names extra s' chain') (some_ : names ≠ []) (free : s.freeNodes ≠ []) :
    extra = [] ↔ s.MakesOnly (chain dir) (min names.length s.freeNodes.length) := by
  induction made with
  | stop none_ =>
    rcases none_ with none_ | none_
    · exact absurd none_ some_
    · exact absurd none_ free
  | @next s t s' chain chainT chain' dir j name rest extra created run ih =>
    rw [List.append_eq_nil_iff, extraDir_eq_nil_iff, created.nodes, List.length_cons, List.length_cons,
      Nat.add_min_add_right]
    unfold AddsOnlyDir MakesOnly
    by_cases more : rest ≠ [] ∧ t.freeNodes ≠ []
    · rw [ih more.1 more.2]
      have need : t.dirNeed (chainT j) = 1 := by simp [created.empty, dirNeed, roomy]
      have room : t.roomy (chainT j) = [] := by simp [created.empty, roomy]
      obtain ⟨later, counted⟩ : ∃ n, min rest.length t.freeNodes.length = n + 1 := by
        refine ⟨min rest.length t.freeNodes.length - 1, ?_⟩
        have restSome := List.length_pos_iff.mpr more.1
        have freeSome := List.length_pos_iff.mpr more.2
        omega
      -- the blocks taken here come before those taken further down
      have parts : s.freeBlocks.take (s.dirNeed (chain dir) + (later + 1)) =
          s.freeBlocks.take (s.dirNeed (chain dir)) ++ t.freeBlocks.take (later + 1) := by
        conv => lhs; rw [created.free]
        rw [List.take_append, List.take_take, List.length_take, Nat.min_eq_left created.enough]
        congr 2
        · omega
        · omega
      simp only [MakesOnly, counted, need, room, List.length_nil, Nat.zero_le, true_and, Nat.add_sub_cancel, parts,
        List.mem_append]
      rw [Nat.add_comm 1 later]
      constructor
      · rintro ⟨⟨few, here⟩, after⟩
        refine ⟨few, fun b member => ?_⟩
        rcases member with member | member
        · exact here b member
        · rw [← created.data b (List.mem_of_mem_take member)]
          exact after b member
      · rintro ⟨few, all⟩
        refine ⟨⟨few, fun b member => all b (.inl member)⟩, fun b member => ?_⟩
        rw [created.data b (List.mem_of_mem_take member)]
        exact all b (.inr member)
    · -- nothing is made inside the new directory
      have done : rest = [] ∨ t.freeNodes = [] := by
        by_contra neither
        exact more (not_or.mp neither)
      have none_ : min rest.length t.freeNodes.length = 0 := by
        rcases done with done | done <;> simp [done]
      cases run with
      | stop _ => simp [none_]
      | next inner _ =>
        rcases done with done | done
        · cases done
        · rw [inner.nodes] at done
          cases done

theorem Made.extra_eq_nil_iff {names : List CString} {extra : List DirectoryElement}
    (made : Made s chain dir names extra s' chain') (some_ : names ≠ [])
    (nodes : names.length ≤ s.freeNodes.length) :
    extra = [] ↔ s.MakesOnly (chain dir) names.length := by
  have free : s.freeNodes ≠ [] := by
    intro none_
    rw [none_] at nodes
    exact some_ (List.length_eq_zero_iff.mp (Nat.le_zero.mp nodes))
  rw [made.extra_eq_nil_iff_of_free some_ free, Nat.min_eq_left nodes]

end VirtualDisc
end SoiStud.FileSystem
