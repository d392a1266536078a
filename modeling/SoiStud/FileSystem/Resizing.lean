import SoiStud.FileSystem.Copying

/-! Giving blocks back and taking more: the two size commands. -/

set_option autoImplicit false

namespace SoiStud.FileSystem
namespace VirtualDisc

open Library

variable {s s' : VirtualDisc} {chain : Nat → List Nat} {file : Nat} {l ids : List Nat}

/-! ## Changes that change nothing -/

theorem withSize_self (s : VirtualDisc) (i : Nat) : s.withSize i (s.nodeTab i).size = s := by
  simp [withSize, withNode]

theorem withFirst_self (s : VirtualDisc) (i : Nat) : s.withFirst i (s.first i) = s := by
  simp [withFirst, withNode, first]

theorem withNext_self (s : VirtualDisc) (b : Nat) : s.withNext b (s.next b) = s := by simp [withNext, next]

theorem store_nil (data : Nat → UInt8) (offset : Nat) : store data offset [] = data := by
  funext k
  rw [store, if_neg]
  rw [List.length_nil]
  omega

/-! ## Giving blocks back -/

section
variable (s : VirtualDisc) (ids : List Nat)

@[simp] theorem released_superblock : (ids.foldl release s).superblock = s.superblock := by
  induction ids generalizing s with
  | nil => rfl
  | cons id rest ih => exact ih (s.release id)

@[simp] theorem released_nodeTab : (ids.foldl release s).nodeTab = s.nodeTab := by
  induction ids generalizing s with
  | nil => rfl
  | cons id rest ih => exact ih (s.release id)

@[simp] theorem released_first : (ids.foldl release s).first = s.first := by
  unfold first
  rw [released_nodeTab]

@[simp] theorem released_data : (ids.foldl release s).data = s.data := by
  induction ids generalizing s with
  | nil => rfl
  | cons id rest ih =>
    rw [List.foldl_cons, ih (s.release id)]
    simp [release]

theorem released_next (b : Nat) : (ids.foldl release s).next b = if b ∈ ids then nil64 else s.next b := by
  induction ids generalizing s with
  | nil => rfl
  | cons id rest ih =>
    rw [List.foldl_cons, ih (s.release id)]
    by_cases member : b ∈ rest
    · simp [member]
    · by_cases same : b = id <;> simp [release, member, same]

theorem released_dataMap (b : Nat) : (ids.foldl release s).dataMap b = (s.dataMap b && !ids.contains b) := by
  induction ids generalizing s with
  | nil => simp
  | cons id rest ih =>
    rw [List.foldl_cons, ih (s.release id)]
    by_cases same : b = id
    · simp [release, same]
    · simp [release, same]

end

theorem deallocDatablocks_eq {a : Nat} (linked : Chain s.next nil64 a ids)
    (bounded : ∀ b ∈ ids, b < s.datablocksNum) (few : ids.length ≤ s.datablocksNum) :
    s.deallocDatablocks a = .ok (ids.foldl release s) := by
  rw [deallocDatablocks, blockIds_eq linked bounded (Nat.lt_succ_of_le few)]
  rfl

structure Resized (s : VirtualDisc) (chain : Nat → List Nat) (file : Nat) (blocks : List Nat) (size : Nat)
    (s' : VirtualDisc) : Prop where
  superblock : s'.superblock = s.superblock
  pool : s'.PoolOf (Function.update chain file blocks)
  others : ∀ i, i ≠ file → s'.nodeTab i = s.nodeTab i
  node : s'.nodeTab file = { s.nodeTab file with size := size, firstDataBlock := s'.first file }
  data : ∀ i < s.inodesNum, i ≠ file → ∀ b ∈ chain i, s'.data b = s.data b

theorem Resized.refl (pool : s.PoolOf chain) : s.Resized chain file (chain file) (s.nodeTab file).size s where
  superblock := rfl
  pool := by rwa [Function.update_eq_self]
  others _ _ := rfl
  node := rfl
  data _ _ _ _ _ := rfl

theorem Resized.trans {t : VirtualDisc} {middle blocks : List Nat} {size total : Nat}
    (first : s.Resized chain file middle size t)
    (second : t.Resized (Function.update chain file middle) file blocks total s') :
    s.Resized chain file blocks total s' where
  superblock := second.superblock.trans first.superblock
  pool := by
    have pool := second.pool
    rwa [Function.update_idem] at pool
  others i other := (second.others i other).trans (first.others i other)
  node := by rw [second.node, first.node]
  data i inRange other b member := by
    have inRangeT : i < t.inodesNum := by rwa [inodesNum_eq first.superblock]
    rw [second.data i inRangeT other b (by rwa [Function.update_of_ne other])]
    exact first.data i inRange other b member

theorem Resized.kept {blocks : List Nat} {size i : Nat} (resized : s.Resized chain file blocks size s')
    (inRange : i < s.inodesNum) (other : i ≠ file) : Kept s chain s' (Function.update chain file blocks) i where
  type := by rw [resized.others i other]
  size := by rw [resized.others i other]
  blocks := Function.update_of_ne other _ _
  data := resized.data i inRange other

/-! ## decrease_file_size -/

theorem skipBlocks_eq (prev : Nat) {a n : Nat} (linked : Chain s.next nil64 a l)
    (bounded : ∀ b ∈ l, b < s.datablocksNum) (enough : n ≤ l.length) :
    ∃ b, s.skipBlocks n a prev = .ok (b, (l.take n).getLast?.getD prev) ∧ Chain s.next nil64 b (l.drop n) := by
  induction n generalizing a prev l with
  | zero => exact ⟨a, rfl, linked⟩
  | succ n ih =>
    cases l with
    | nil => simp at enough
    | cons b rest =>
      obtain rfl := linked.head_eq
      obtain ⟨c, skipped, after⟩ := ih a linked.tail
        (fun c member => bounded c (List.mem_cons_of_mem _ member)) (Nat.le_of_succ_le_succ enough)
      refine ⟨c, ?_, after⟩
      have step : s.skipBlocks n (s.datablockTab a).next a = .ok (c, (rest.take n).getLast?.getD a) := skipped
      simp [skipBlocks, block_eq_ok (bounded a List.mem_cons_self), step, List.getLast?_cons]

/-- The number of blocks that `decrease_file_size` computes in 32 bits. -/
theorem newAmountOfBlocks_eq (size : Nat) (fits : blocksFor size < 2 ^ 32) :
    (size / blockSize % 2 ^ 32 + if size % blockSize > 0 then 1 else 0) % 2 ^ 32 = blocksFor size := by
  by_cases remainder : size % blockSize > 0
  · rw [if_pos remainder]
    unfold blocksFor blockSize at *
    omega
  · rw [if_neg remainder]
    unfold blocksFor blockSize at *
    omega

def endedAfter (s : VirtualDisc) (file : Nat) (keep : List Nat) : VirtualDisc :=
  match keep.getLast? with
  | none => s.withFirst file nil64
  | some last => s.withNext last nil64

def shrunk (s : VirtualDisc) (file size : Nat) (keep gone : List Nat) : VirtualDisc :=
  (gone.foldl release (s.withSize file size)).endedAfter file keep

theorem decrease_eq {size sizeAmount : Nat} (inRange : file < s.inodesNum)
    (linked : Chain s.next nil64 (s.first file) l) (bounded : ∀ b ∈ l, b < s.datablocksNum)
    (sized : (s.nodeTab file).size - sizeAmount = size) (enough : blocksFor size ≤ l.length) :
    s.decrease file sizeAmount = .ok (s.shrunk file size (l.take (blocksFor size)) (l.drop (blocksFor size))) := by
  have few := linked.length_le bounded
  have blocks : s.datablocksNum < 2 ^ 32 := s.superblock.datablocksNum_lt
  have amount := newAmountOfBlocks_eq size (by omega)
  generalize blocksFor size = k at enough amount ⊢
  -- the chains of the disc with the new size are those of `s`
  generalize changed : s.withSize file size = t
  have linkedT : Chain t.next nil64 (s.first file) l := by
    rw [← changed]
    exact linked
  have boundedT : ∀ b ∈ l, b < t.datablocksNum := by
    rw [← changed]
    exact bounded
  obtain ⟨dbId, skipped, after⟩ := skipBlocks_eq nil64 linkedT boundedT enough
  have released := deallocDatablocks_eq after (fun b member => boundedT b (List.mem_of_mem_drop member)) (by
    rw [List.length_drop, ← changed]
    exact (Nat.sub_le _ _).trans few)
  have started : (s.nodeTab file).firstDataBlock = s.first file := rfl
  simp only [decrease, node_eq_ok file inRange, ok_bind, sized, amount, changed, started, skipped, released, shrunk,
    endedAfter]
  cases last : (l.take k).getLast? with
  | none => rfl
  | some z =>
    have zInRange : z < t.datablocksNum := boundedT z (List.mem_of_mem_take (List.mem_of_getLast? last))
    have inTable : z < ((l.drop k).foldl release t).datablocksNum := by
      unfold datablocksNum
      rw [released_superblock]
      exact zInRange
    simp only [Option.getD_some, ne_nil64 zInRange, if_false, setNext_eq_ok _ inTable]

section
variable (s : VirtualDisc) (file : Nat) (keep : List Nat)

@[simp] theorem endedAfter_superblock : (s.endedAfter file keep).superblock = s.superblock := by
  unfold endedAfter
  split <;> simp

@[simp] theorem endedAfter_dataMap : (s.endedAfter file keep).dataMap = s.dataMap := by
  unfold endedAfter
  split <;> simp

@[simp] theorem endedAfter_data : (s.endedAfter file keep).data = s.data := by
  unfold endedAfter
  split <;> simp

theorem endedAfter_nodeTab : (s.endedAfter file keep).nodeTab = Function.update s.nodeTab file
    { s.nodeTab file with firstDataBlock := (s.endedAfter file keep).first file } := by
  unfold endedAfter
  split
  · simp
  · simp [first]

end

section
variable {size : Nat} {keep gone : List Nat}

@[simp] theorem shrunk_superblock : (s.shrunk file size keep gone).superblock = s.superblock := by simp [shrunk]

@[simp] theorem shrunk_data : (s.shrunk file size keep gone).data = s.data := by simp [shrunk]

theorem shrunk_dataMap (b : Nat) :
    (s.shrunk file size keep gone).dataMap b = (s.dataMap b && !gone.contains b) := by
  rw [shrunk, endedAfter_dataMap, released_dataMap]
  rfl

theorem shrunk_next (b : Nat) : (s.shrunk file size keep gone).next b =
    if b ∈ gone ∨ keep.getLast? = some b then nil64 else s.next b := by
  unfold shrunk endedAfter
  cases keep.getLast? with
  | none => simp [released_next]
  | some z =>
    by_cases same : b = z
    · simp [same]
    · simp [released_next, same, Ne.symm same]

theorem shrunk_first (i : Nat) : (s.shrunk file size keep gone).first i =
    if i = file ∧ keep = [] then nil64 else s.first i := by
  unfold shrunk endedAfter
  rcases List.eq_nil_or_concat keep with rfl | ⟨q, z, rfl⟩
  · by_cases same : i = file <;> simp [same]
  · simp

theorem shrunk_node : (s.shrunk file size keep gone).nodeTab file =
    { s.nodeTab file with size := size, firstDataBlock := (s.shrunk file size keep gone).first file } := by
  simp [shrunk, endedAfter_nodeTab]

theorem shrunk_others {i : Nat} (other : i ≠ file) :
    (s.shrunk file size keep gone).nodeTab i = s.nodeTab i := by
  simp [shrunk, endedAfter_nodeTab, other]

theorem shrunk_linked (size : Nat) (linked : Chain s.next nil64 (s.first file) (keep ++ gone)) :
    Chain (s.shrunk file size keep gone).next nil64 ((s.shrunk file size keep gone).first file) keep := by
  have unique := linked.nodup
  rcases List.eq_nil_or_concat keep with rfl | ⟨q, z, rfl⟩
  · rw [shrunk_first, if_pos ⟨rfl, rfl⟩]
    exact .stop
  · rw [List.concat_eq_append] at *
    rw [shrunk_first, if_neg (by simp)]
    apply linked.keep
    · rw [shrunk_next, if_pos (by simp)]
    · intro b member
      have notGone : b ∉ gone := fun away =>
        (List.nodup_append.mp unique).2.2 b (List.mem_append_left _ member) b away rfl
      have notLast : z ≠ b := fun same => by
        rw [List.append_assoc] at unique
        exact (List.nodup_append.mp unique).2.2 b member z (by simp) same.symm
      rw [shrunk_next, if_neg (by simp [notGone, notLast])]

theorem shrunk_pool (pool : s.PoolOf chain) (inRange : file < s.inodesNum) (parts : chain file = keep ++ gone) :
    (s.shrunk file size keep gone).PoolOf (Function.update chain file keep) := by
  have linked := pool.linked file inRange
  rw [parts] at linked
  have shorter := shrunk_linked size linked
  unfold PoolOf inodesNum datablocksNum at pool ⊢
  rw [shrunk_superblock]
  apply pool.cut inRange parts shorter
  · intro j other
    rw [shrunk_first, if_neg fun ended => other ended.1]
  · intro c _ outside
    rw [shrunk_next, if_neg]
    rintro (away | last)
    · exact outside (parts ▸ List.mem_append_right _ away)
    · exact outside (parts ▸ List.mem_append_left _ (List.mem_of_getLast? last))
  · intro c away
    rw [shrunk_next, if_pos (.inl away)]
  · intro c _
    exact shrunk_dataMap c

theorem shrunk_resized (pool : s.PoolOf chain) (inRange : file < s.inodesNum) (parts : chain file = keep ++ gone) :
    s.Resized chain file keep size (s.shrunk file size keep gone) where
  superblock := shrunk_superblock
  pool := shrunk_pool pool inRange parts
  others i other := shrunk_others other
  node := shrunk_node
  data _ _ _ _ _ := by rw [shrunk_data]

end

/-- `decrease_file_size` of a file with enough blocks for its new size. -/
theorem decrease_spec {sizeAmount : Nat} (pool : s.PoolOf chain) (inRange : file < s.inodesNum)
    (enough : blocksFor ((s.nodeTab file).size - sizeAmount) ≤ (chain file).length) :
    ∃ s', s.decrease file sizeAmount = .ok s' ∧ s.Resized chain file
      ((chain file).take (blocksFor ((s.nodeTab file).size - sizeAmount))) ((s.nodeTab file).size - sizeAmount) s' :=
  ⟨_, decrease_eq inRange (pool.linked file inRange) (pool.bounded file inRange) rfl enough, shrunk_resized pool inRange (List.take_append_drop _ _).symm⟩

/-! ## increase_file_size -/

theorem lastBlock_eq {fuel a z : Nat} {q : List Nat} (linked : Chain s.next nil64 a (q ++ [z]))
    (bounded : ∀ b ∈ q ++ [z], b < s.datablocksNum) (enough : q.length < fuel) : s.lastBlock fuel a = .ok z := by
  induction q generalizing a fuel with
  | nil =>
    obtain ⟨fuel, rfl⟩ := Nat.exists_eq_add_of_lt enough
    obtain rfl := linked.head_eq
    have ended : (s.datablockTab a).next = nil64 := linked.tail.eq_nil
    simp [lastBlock, block_eq_ok (bounded a (by simp)), ended]
  | cons b rest ih =>
    cases fuel with
    | zero => simp at enough
    | succ fuel =>
      rw [List.cons_append] at linked
      obtain rfl := linked.head_eq
      have walked : s.lastBlock fuel (s.datablockTab a).next = .ok z :=
        ih linked.tail (fun c member => bounded c (List.mem_cons_of_mem _ member)) (Nat.lt_of_succ_lt_succ enough)
      have going : (s.datablockTab a).next ≠ nil64 := by
        have tail := linked.tail
        cases rest with
        | nil => exact tail.ne_nil
        | cons c rest => exact tail.ne_nil
      simp [lastBlock, block_eq_ok (bounded a (by simp)), going, walked]

/-- Whatever blocks there are, the loop that ends has added the whole amount to the size. -/
theorem growLoop_size {fuel last sizeAmount : Nat} {out : List Output}
    (returned : growLoop file fuel s last sizeAmount = .ok (out, s')) :
    (s'.nodeTab file).size = (s.nodeTab file).size + sizeAmount := by
  induction fuel generalizing s last sizeAmount out with
  | zero => cases returned
  | succ fuel ih =>
    unfold growLoop at returned
    split at returned
    next none_ =>
      cases returned
      rw [none_, Nat.add_zero]
    next =>
      obtain ⟨t, linked, returned⟩ := bind_eq_ok.mp returned
      obtain ⟨_, rfl⟩ := setNext_ok_iff.mp linked
      have next : (s.withNext last s.findFreeDatablock).next last = s.findFreeDatablock := by simp
      rw [next, if_neg (findFreeDatablock_ne_nil64 s)] at returned
      obtain ⟨u, marked, returned⟩ := bind_eq_ok.mp returned
      obtain ⟨block, _, returned⟩ := bind_eq_ok.mp returned
      obtain ⟨v, cleared, returned⟩ := bind_eq_ok.mp returned
      obtain ⟨_, rfl⟩ := setMark_ok_iff.mp marked
      obtain ⟨_, rfl⟩ := setData_ok_iff.mp cleared
      rw [ih returned]
      simp only [addSize, withSize_nodeTab, withData_nodeTab, withMark_nodeTab, withNext_nodeTab,
        Function.update_self]
      split <;> omega

def grown (s : VirtualDisc) (file last b n : Nat) : VirtualDisc :=
  ((((s.withNext last b).withMark b true).withData b
    (store (((s.withNext last b).withMark b true).datablockTab b).data 0 (List.replicate n 0))).addSize file n)

theorem grown_resized {b z : Nat} {q rest : List Nat} (pool : s.PoolOf chain) (inRange : file < s.inodesNum)
    (tail : chain file = q ++ [z]) (free : s.freeBlocks = b :: rest) (n : Nat) :
    s.Resized chain file (chain file ++ [b]) ((s.nodeTab file).size + n) (s.grown file z b n) ∧
      (s.grown file z b n).freeBlocks = rest := by
  have superblock : (s.grown file z b n).superblock = s.superblock := by simp [grown, addSize]
  have firsts : (s.grown file z b n).first = s.first := by simp [grown]
  have next : (s.grown file z b n).next = Function.update s.next z b := by simp [grown, addSize]
  have marks : (s.grown file z b n).dataMap = Function.update s.dataMap b true := by simp [grown, addSize]
  obtain ⟨poolT, freeT⟩ := pool.hook _ inRange tail free superblock firsts next marks
  refine ⟨⟨superblock, poolT, ?_, ?_, ?_⟩, freeT⟩
  · intro i other
    simp [grown, addSize, other]
  · rw [firsts]
    simp [grown, addSize, first]
  · intro i other _ c member
    -- `b` was free, so the chains do not have it
    have fresh : c ≠ b := fun same =>
      pool.not_mem_of_unmarked other (mem_freeBlocks free).2 (same ▸ member)
    simp [grown, addSize, fresh]

theorem blocksFor_round {sizeAmount n : Nat} (some_ : sizeAmount ≠ 0)
    (amount : (if sizeAmount > blockSize then blockSize else sizeAmount) = n) :
    0 < n ∧ n ≤ sizeAmount ∧ blocksFor sizeAmount = blocksFor (sizeAmount - n) + 1 := by
  subst amount
  by_cases more : sizeAmount > blockSize
  · rw [if_pos more]
    exact ⟨by decide, more.le, blocksFor_of_ge more.le⟩
  · rw [if_neg more, Nat.sub_self, blocksFor_zero]
    exact ⟨Nat.pos_of_ne_zero some_, le_rfl, blocksFor_of_le (Nat.pos_of_ne_zero some_) (Nat.le_of_not_lt more)⟩

structure Cleared (s : VirtualDisc) (old added : List Nat) (n : Nat) (s' : VirtualDisc) : Prop where
  old : ∀ b ∈ old, s'.data b = s.data b
  zeros : s'.contentOn added n = List.replicate n 0

theorem grown_data (s : VirtualDisc) (file z b n : Nat) : (s.grown file z b n).data =
    Function.update s.data b (store (s.data b) 0 (List.replicate n 0)) := by
  have same : ((s.withNext z b).datablockTab b).data = s.data b := congrFun (withNext_data s z b) b
  simp [grown, addSize, same]

theorem Cleared.cons {z b n sizeAmount : Nat} {old rest : List Nat} (fresh : b ∉ old)
    (amount : (if sizeAmount > blockSize then blockSize else sizeAmount) = n)
    (cleared : (s.grown file z b n).Cleared (old ++ [b]) rest (sizeAmount - n) s') :
    s.Cleared old (b :: rest) sizeAmount s' where
  old c member := by
    have other : c ≠ b := fun same => fresh (same ▸ member)
    rw [cleared.old c (List.mem_append_left _ member), grown_data, Function.update_of_ne other]
  zeros := by
    have atMost : n ≤ blockSize := by
      subst amount
      split <;> omega
    have here : s'.data b = store (s.data b) 0 (List.replicate n 0) := by
      rw [cleared.old b (by simp), grown_data, Function.update_self]
    have bytes : (blockBytes (s'.data b)).take n = List.replicate n 0 := by
      rw [here]
      simpa using take_blockBytes_store (s.data b) (show (List.replicate n (0 : UInt8)).length ≤ blockSize by simpa)
    rw [contentOn_cons]
    by_cases more : sizeAmount > blockSize
    · rw [if_pos more] at amount
      subst amount
      have whole : (blockBytes (s'.data b)).take sizeAmount = (blockBytes (s'.data b)).take blockSize := by
        rw [List.take_of_length_le (by rw [length_blockBytes]; exact more.le),
          List.take_of_length_le (length_blockBytes _).le]
      rw [whole, bytes, cleared.zeros, List.replicate_append_replicate, Nat.add_sub_cancel' more.le]
    · rw [if_neg more] at amount
      subst amount
      have none_ : sizeAmount - blockSize = 0 := by omega
      rw [bytes, none_]
      simp [contentOn]

/-- The loop takes the first free blocks and clears what it takes. -/
theorem growLoop_spec {fuel z sizeAmount : Nat} {q : List Nat} (pool : s.PoolOf chain)
    (inRange : file < s.inodesNum) (tail : chain file = q ++ [z])
    (enough : blocksFor sizeAmount ≤ s.freeBlocks.length) (fuelled : sizeAmount < fuel) :
    ∃ s', growLoop file fuel s z sizeAmount = .ok ([], s') ∧
      s.Resized chain file (chain file ++ s.freeBlocks.take (blocksFor sizeAmount))
        ((s.nodeTab file).size + sizeAmount) s' ∧
      s.Cleared (chain file) (s.freeBlocks.take (blocksFor sizeAmount)) sizeAmount s' := by
  induction fuel generalizing s chain z sizeAmount q with
  | zero => simp at fuelled
  | succ fuel ih =>
    by_cases none_ : sizeAmount = 0
    · subst none_
      refine ⟨s, by simp [growLoop], ?_, fun _ _ => rfl, ?_⟩
      · rw [blocksFor_zero, List.take_zero, List.append_nil]
        exact .refl pool
      · simp [contentOn]
    · cases free : s.freeBlocks with
      | nil =>
        rw [free] at enough
        have zero := blocksFor_eq_zero_iff.mp (Nat.le_zero.mp enough)
        omega
      | cons b rest =>
        have bounded := (mem_freeBlocks free).1
        have fresh : b ∉ chain file := pool.not_mem_of_unmarked inRange (mem_freeBlocks free).2
        have lastInRange : z < s.datablocksNum := pool.bounded file inRange z (by simp [tail])
        have linked : (s.withNext z b).next z = b := by simp
        have inTable : b < (s.withNext z b).datablocksNum := bounded
        have inMarked : b < ((s.withNext z b).withMark b true).datablocksNum := bounded
        simp only [growLoop, none_, if_false, findFreeDatablock_of_cons free, setNext_eq_ok _ lastInRange, ok_bind,
          linked, ne_nil64 bounded, setMark_eq_ok _ inTable, block_eq_ok inMarked, setData_eq_ok _ inMarked]
        generalize amount : (if sizeAmount > blockSize then blockSize else sizeAmount) = n
        obtain ⟨positive, atMost, counted⟩ := blocksFor_round none_ amount
        obtain ⟨round, freeT⟩ := grown_resized pool inRange tail free n
        have inRangeT : file < (s.grown file z b n).inodesNum := by rwa [inodesNum_eq round.superblock]
        have tailT : Function.update chain file (chain file ++ [b]) file = (q ++ [z]) ++ [b] := by
          rw [Function.update_self, tail]
        have enoughT : blocksFor (sizeAmount - n) ≤ (s.grown file z b n).freeBlocks.length := by
          rw [freeT]
          rw [free, List.length_cons] at enough
          omega
        -- the loop goes on with `b` as the last block
        obtain ⟨s', looped, resized, cleared⟩ := ih round.pool inRangeT tailT enoughT (by omega)
        have size : (s.nodeTab file).size + n + (sizeAmount - n) = (s.nodeTab file).size + sizeAmount := by omega
        rw [freeT, Function.update_self] at resized cleared
        rw [round.node, ← List.append_cons] at resized
        refine ⟨s', looped, ?_, ?_⟩
        · rw [counted, List.take_succ_cons, ← size]
          exact round.trans resized
        · rw [counted, List.take_succ_cons]
          exact .cons fresh amount cleared

theorem grown_freeBlocks (file z n : Nat) {b : Nat} {rest : List Nat} (free : s.freeBlocks = b :: rest) :
    (s.grown file z b n).freeBlocks = rest := by
  refine unmarked_mark (show unmarked s.datablocksNum s.dataMap = [b] ++ rest from free) fun c _ => ?_
  by_cases same : c = b <;> simp [grown, addSize, same]

/-- Without enough free blocks the loop comes to the index for nothing free and does not return. -/
theorem growLoop_short {fuel z sizeAmount : Nat} (short : s.freeBlocks.length < blocksFor sizeAmount)
    (outcome : List Output × VirtualDisc) : growLoop file fuel s z sizeAmount ≠ .ok outcome := by
  induction fuel generalizing s z sizeAmount with
  | zero =>
    intro returned
    cases returned
  | succ fuel ih =>
    intro returned
    have some_ : sizeAmount ≠ 0 := by
      rintro rfl
      cases short
    rw [growLoop, if_neg some_] at returned
    obtain ⟨t, linked, returned⟩ := bind_eq_ok.mp returned
    obtain ⟨lastInRange, rfl⟩ := setNext_ok_iff.mp linked
    cases free : s.freeBlocks with
    | nil =>
      -- the search returns `-1`, which is no index of the table
      have outside : ¬ none32 < (s.withNext z s.findFreeDatablock).datablocksNum := none32_not_lt s
      rw [findFreeDatablock_of_nil free] at returned outside
      simp [none32_ne_nil64, setMark, outside] at returned
    | cons b rest =>
      have bounded := (mem_freeBlocks free).1
      have linked : (s.withNext z b).next z = b := by simp
      have inTable : b < (s.withNext z b).datablocksNum := bounded
      have inMarked : b < ((s.withNext z b).withMark b true).datablocksNum := bounded
      simp only [findFreeDatablock_of_cons free, linked, ne_nil64 bounded, if_false, setMark_eq_ok _ inTable,
        block_eq_ok inMarked, setData_eq_ok _ inMarked, ok_bind] at returned
      generalize amount : (if sizeAmount > blockSize then blockSize else sizeAmount) = n at returned
      obtain ⟨_, _, counted⟩ := blocksFor_round some_ amount
      apply ih (s := s.grown file z b n) _ returned
      rw [grown_freeBlocks file z n free]
      rw [free, List.length_cons] at short
      omega

/-- How many of `amount` more bytes the last block of a file has room for. -/
def spare (size amount : Nat) : Nat :=
  if 0 < size % blockSize then min (blockSize - size % blockSize) amount else 0

theorem spare_zero (size : Nat) : spare size 0 = 0 := by
  simp [spare]

theorem spare_le (size amount : Nat) : spare size amount ≤ amount := by
  unfold spare
  split <;> omega

theorem spare_fits (size amount : Nat) : size + spare size amount ≤ blocksFor size * blockSize ∧
    (spare size amount < amount → size + spare size amount = blocksFor size * blockSize) := by
  unfold spare blocksFor blockSize
  split <;> omega

/-- How many blocks `increase_file_size` takes: those beyond the last block of the file. -/
theorem blocksFor_add (size amount : Nat) :
    blocksFor (size + amount) - blocksFor size = blocksFor (amount - spare size amount) := by
  unfold spare blocksFor blockSize
  split <;> omega

def toppedUp (s : VirtualDisc) (file last n : Nat) : VirtualDisc :=
  (s.withData last (store (s.datablockTab last).data ((s.nodeTab file).size % blockSize)
    (List.replicate n 0))).addSize file n

theorem toppedUp_resized {z : Nat} {q : List Nat} (pool : s.PoolOf chain) (inRange : file < s.inodesNum)
    (tail : chain file = q ++ [z]) (n : Nat) :
    s.Resized chain file (chain file) ((s.nodeTab file).size + n) (s.toppedUp file z n) ∧
      (s.toppedUp file z n).freeBlocks = s.freeBlocks := by
  have superblock : (s.toppedUp file z n).superblock = s.superblock := by simp [toppedUp, addSize]
  have firsts : (s.toppedUp file z n).first = s.first := by simp [toppedUp]
  have next : (s.toppedUp file z n).next = s.next := by simp [toppedUp, addSize]
  have marks : (s.toppedUp file z n).dataMap = s.dataMap := by simp [toppedUp, addSize]
  refine ⟨⟨superblock, ?_, ?_, ?_, ?_⟩, ?_⟩
  · rw [Function.update_eq_self]
    exact pool.frame superblock firsts next marks
  · intro i other
    simp [toppedUp, addSize, other]
  · rw [firsts]
    simp [toppedUp, addSize, first]
  · intro i other distinct c member
    have elsewhere : c ≠ z := fun same =>
      pool.disjoint i other file inRange distinct member (by simp [tail, same])
    simp [toppedUp, addSize, elsewhere]
  · unfold freeBlocks datablocksNum
    rw [superblock, marks]

theorem toppedUp_zero (s : VirtualDisc) (file z : Nat) : s.toppedUp file z 0 = s := by
  have stored : s.withData z (s.datablockTab z).data = s := withData_self
  rw [toppedUp, List.replicate_zero, store_nil, stored]
  exact withSize_self s file

theorem toppedUp_content {z : Nat} {q : List Nat} (unique : z ∉ q)
    (sized : (q ++ [z]).length = blocksFor (s.nodeTab file).size) (amount : Nat) :
    (s.toppedUp file z (spare (s.nodeTab file).size amount)).contentOn (q ++ [z])
        ((s.nodeTab file).size + spare (s.nodeTab file).size amount) =
      s.contentOn (q ++ [z]) (s.nodeTab file).size ++ List.replicate (spare (s.nodeTab file).size amount) 0 := by
  generalize total : (s.nodeTab file).size = size at sized ⊢
  have lengths : q.length + 1 = blocksFor size := by simpa using sized
  -- a last block that is full has no room
  by_cases remainder : 0 < size % blockSize
  · have fits : size % blockSize + spare size amount ≤ blockSize := by
      unfold spare blockSize
      split <;> omega
    have before : q.length * blockSize ≤ size := by
      unfold blocksFor blockSize at *
      omega
    have rest : size - q.length * blockSize = size % blockSize := by
      unfold blocksFor blockSize at *
      omega
    have more : size + spare size amount - q.length * blockSize = size % blockSize + spare size amount := by omega
    generalize spare size amount = n at fits more ⊢
    have data : (s.toppedUp file z n).data =
        Function.update s.data z (store (s.data z) (size % blockSize) (List.replicate n 0)) := by
      have same : (s.datablockTab z).data = s.data z := rfl
      simp [toppedUp, addSize, total, same]
    have front : (s.toppedUp file z n).contentOn q size = s.contentOn q size := contentOn_congr (fun b member => by
      have other : b ≠ z := fun same => unique (same ▸ member)
      rw [data, Function.update_of_ne other]) size
    have whole (t : VirtualDisc) : t.contentOn q (size + n) = t.contentOn q size := by
      rw [contentOn_of_le before, contentOn_of_le (before.trans (Nat.le_add_right _ _))]
    have last := take_blockBytes_store_at (s.data z) (show size % blockSize + (List.replicate n (0 : UInt8)).length ≤
      blockSize by simpa)
    rw [List.length_replicate] at last
    rw [contentOn_append, contentOn_append, whole, front, more, rest, List.append_assoc]
    simp only [contentOn, List.flatMap_cons, List.flatMap_nil, List.append_nil, data, Function.update_self, last]
  · have none_ : spare size amount = 0 := if_neg remainder
    rw [none_, toppedUp_zero]
    simp

/-- `increase_file_size` of a file that has a block: its last block is filled up, then others are taken. -/
theorem increase_eq {z sizeAmount : Nat} {q : List Nat} (pool : s.PoolOf chain) (inRange : file < s.inodesNum)
    (tail : chain file = q ++ [z]) : s.increase file sizeAmount =
      growLoop file (sizeAmount + 1) (s.toppedUp file z (spare (s.nodeTab file).size sizeAmount)) z
        (sizeAmount - spare (s.nodeTab file).size sizeAmount) := by
  have linked := pool.linked file inRange
  have bounded := pool.bounded file inRange
  have few := pool.length_le inRange
  rw [tail] at linked bounded few
  have zInRange : z < s.datablocksNum := bounded z (by simp)
  have last := lastBlock_eq linked bounded (show q.length < s.datablocksNum + 1 by
    simp only [List.length_append, List.length_singleton] at few
    omega)
  have started : (s.nodeTab file).firstDataBlock = s.first file := rfl
  simp only [increase, node_eq_ok file inRange, ok_bind, started, last]
  by_cases remainder : 0 < (s.nodeTab file).size % blockSize
  · simp only [remainder, if_true, block_eq_ok zInRange, setData_eq_ok _ zInRange, ok_bind, spare]
    rfl
  · have none_ : spare (s.nodeTab file).size sizeAmount = 0 := if_neg remainder
    rw [if_neg remainder, none_, toppedUp_zero, Nat.sub_zero]

/-- `increase_file_size` of a file that has a block, given the free blocks it takes. -/
theorem increase_spec {sizeAmount : Nat} (pool : s.PoolOf chain) (inRange : file < s.inodesNum)
    (sized : (chain file).length = blocksFor (s.nodeTab file).size) (nonEmpty : 0 < (s.nodeTab file).size)
    (enough : blocksFor ((s.nodeTab file).size + sizeAmount) - blocksFor (s.nodeTab file).size ≤
      s.freeBlocks.length) :
    ∃ s' taken, s.increase file sizeAmount = .ok ([], s') ∧
      taken = s.freeBlocks.take (blocksFor ((s.nodeTab file).size + sizeAmount) - blocksFor (s.nodeTab file).size) ∧
      s.Resized chain file (chain file ++ taken) ((s.nodeTab file).size + sizeAmount) s' ∧
      s'.contentOn (chain file ++ taken) ((s.nodeTab file).size + sizeAmount) =
        s.contentOn (chain file) (s.nodeTab file).size ++ List.replicate sizeAmount 0 := by
  have some_ : chain file ≠ [] := by
    intro none_
    rw [none_, List.length_nil, eq_comm, blocksFor_eq_zero_iff] at sized
    omega
  obtain ⟨q, z, tail⟩ := (List.eq_nil_or_concat' (chain file)).resolve_left some_
  -- the last block is no other block of the file
  have unique : z ∉ q := by
    have nodup := (pool.linked file inRange).nodup
    rw [tail] at nodup
    exact fun member => (List.nodup_append.mp nodup).2.2 z member z (by simp) rfl
  have topped := toppedUp_content unique (tail ▸ sized) sizeAmount
  have atMost := spare_le (s.nodeTab file).size sizeAmount
  obtain ⟨_, full⟩ := spare_fits (s.nodeTab file).size sizeAmount
  rw [← sized] at full
  rw [blocksFor_add] at enough ⊢
  rw [increase_eq pool inRange tail]
  rw [← tail] at topped
  generalize spare (s.nodeTab file).size sizeAmount = n at *
  -- the last block is filled up first, which takes no block
  obtain ⟨resizedT, freeT⟩ := toppedUp_resized pool inRange tail n
  have inRangeT : file < (s.toppedUp file z n).inodesNum := by rwa [inodesNum_eq resizedT.superblock]
  have poolT : (s.toppedUp file z n).PoolOf chain := by simpa using resizedT.pool
  obtain ⟨s', looped, resized, cleared⟩ := growLoop_spec poolT inRangeT tail
    (by rw [freeT]; exact enough) (show sizeAmount - n < sizeAmount + 1 by omega)
  have size : (s.nodeTab file).size + n + (sizeAmount - n) = (s.nodeTab file).size + sizeAmount := by omega
  rw [freeT] at resized cleared
  rw [resizedT.node, size] at resized
  refine ⟨s', _, looped, rfl, ?_, ?_⟩
  · apply resizedT.trans
    rwa [Function.update_eq_self]
  · have old : s'.contentOn (chain file) ((s.nodeTab file).size + n) =
        s.contentOn (chain file) (s.nodeTab file).size ++ List.replicate n 0 := by
      rw [contentOn_congr cleared.old, topped]
    by_cases done : n = sizeAmount
    · -- everything fitted on the last block, and nothing was taken
      subst done
      rw [Nat.sub_self, blocksFor_zero, List.take_zero, List.append_nil, old]
    · have whole := full (by omega)
      have behind : (s.nodeTab file).size + sizeAmount - (chain file).length * blockSize = sizeAmount - n := by omega
      have front : s'.contentOn (chain file) ((s.nodeTab file).size + sizeAmount) =
          s'.contentOn (chain file) ((s.nodeTab file).size + n) := by
        rw [contentOn_of_le whole.ge, contentOn_of_le (by omega)]
      rw [contentOn_append, behind, cleared.zeros, front, old, List.append_assoc, List.replicate_append_replicate,
        Nat.add_sub_cancel' atMost]

theorem increase_short {sizeAmount : Nat} (short : s.freeBlocks.length <
      blocksFor ((s.nodeTab file).size + sizeAmount) - blocksFor (s.nodeTab file).size)
    (outcome : List Output × VirtualDisc) : s.increase file sizeAmount ≠ .ok outcome := by
  intro returned
  rw [blocksFor_add] at short
  obtain ⟨node, read, returned⟩ := bind_eq_ok.mp returned
  obtain ⟨_, rfl⟩ := node_ok_iff.mp read
  obtain ⟨last, _, returned⟩ := bind_eq_ok.mp returned
  dsimp only at returned
  split at returned
  next remainder =>
    rw [spare, if_pos remainder] at short
    obtain ⟨block, _, returned⟩ := bind_eq_ok.mp returned
    obtain ⟨t, written, returned⟩ := bind_eq_ok.mp returned
    obtain ⟨_, rfl⟩ := setData_ok_iff.mp written
    refine growLoop_short ?_ outcome returned
    exact short
  next remainder =>
    rw [spare, if_neg remainder] at short
    exact growLoop_short short outcome returned

end VirtualDisc
end SoiStud.FileSystem
