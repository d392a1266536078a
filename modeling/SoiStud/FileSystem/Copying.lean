import SoiStud.FileSystem.Slots

/-! Copying a host file to the disc and back.

The writer takes the next block before it knows whether it needs it: while it
runs, the last link of the file goes to the first free block. Everything it does
is said relative to the blocks it ends up with, so nothing about the rest of the
disc is assumed.
-/

set_option autoImplicit false

namespace SoiStud.FileSystem

open Library

/-! ## Blocks as strings of bytes -/

def blockBytes (data : Nat → UInt8) : List UInt8 := (List.range blockSize).map data

theorem length_blockBytes (data : Nat → UInt8) : (blockBytes data).length = blockSize := by
  simp [blockBytes]

theorem take_blockBytes (data : Nat → UInt8) {n : Nat} (fits : n ≤ blockSize) :
    (blockBytes data).take n = (List.range n).map data := by
  rw [blockBytes, ← List.map_take, List.take_range, Nat.min_eq_left fits]

theorem take_blockBytes_store_at (data : Nat → UInt8) {offset : Nat} {chunk : List UInt8}
    (fits : offset + chunk.length ≤ blockSize) :
    (blockBytes (store data offset chunk)).take (offset + chunk.length) =
      (blockBytes data).take offset ++ chunk := by
  rw [take_blockBytes _ fits, take_blockBytes _ (by omega)]
  apply List.ext_getElem
  · simp
  · intro k within _
    have inside : k < offset + chunk.length := by simpa using within
    simp only [List.getElem_map, List.getElem_range, List.getElem_append, List.length_map, List.length_range]
    by_cases before : k < offset
    · simp [store, before]
    · have there : k - offset < chunk.length := by omega
      simp [store, before, inside, Nat.le_of_not_lt before, there]

theorem take_blockBytes_store (data : Nat → UInt8) {chunk : List UInt8} (fits : chunk.length ≤ blockSize) :
    (blockBytes (store data 0 chunk)).take chunk.length = chunk := by
  have whole := take_blockBytes_store_at data (show 0 + chunk.length ≤ blockSize by rwa [Nat.zero_add])
  simpa using whole

theorem le_blocksFor (n : Nat) : n ≤ blocksFor n * blockSize := by
  unfold blocksFor blockSize
  omega

theorem blocksFor_zero : blocksFor 0 = 0 := rfl

theorem blocksFor_of_le {n : Nat} (positive : 0 < n) (fits : n ≤ blockSize) : blocksFor n = 1 := by
  simp only [blocksFor, blockSize] at *
  omega

theorem blocksFor_of_ge {n : Nat} (atLeast : blockSize ≤ n) : blocksFor n = blocksFor (n - blockSize) + 1 := by
  simp only [blocksFor, blockSize] at *
  omega

theorem blocksFor_eq_zero_iff {n : Nat} : blocksFor n = 0 ↔ n = 0 := by
  unfold blocksFor blockSize
  omega

theorem blocksRead_of_lt {n : Nat} (short : n < blockSize) : blocksRead n = 1 := by
  rw [blocksRead, Nat.div_eq_of_lt short]

theorem blocksRead_of_ge {n : Nat} (atLeast : blockSize ≤ n) : blocksRead n = blocksRead (n - blockSize) + 1 := by
  simp only [blocksRead, blockSize] at *
  omega

theorem blocksFor_le_blocksRead (n : Nat) : blocksFor n ≤ blocksRead n := by
  unfold blocksFor blocksRead blockSize
  omega

theorem blocksRead_le_succ (n : Nat) : blocksRead n ≤ blocksFor n + 1 := by
  unfold blocksFor blocksRead blockSize
  omega

theorem blocksRead_eq_blocksFor_iff {n : Nat} : blocksRead n = blocksFor n ↔ n % blockSize ≠ 0 := by
  unfold blocksFor blocksRead blockSize
  omega

namespace VirtualDisc

variable {s s' : VirtualDisc} {file curr : Nat} {p : List Nat}

def contentOn (s : VirtualDisc) (blocks : List Nat) (size : Nat) : List UInt8 :=
  (blocks.flatMap fun b => blockBytes (s.data b)).take size

theorem contentOn_congr {blocks : List Nat} (same : ∀ b ∈ blocks, s'.data b = s.data b) (size : Nat) :
    s'.contentOn blocks size = s.contentOn blocks size := by
  unfold contentOn
  apply congrArg (List.take size)
  apply List.flatMap_congr
  intro b member
  rw [same b member]

theorem contentOn_cons (s : VirtualDisc) (b : Nat) (rest : List Nat) (size : Nat) : s.contentOn (b :: rest) size =
    (blockBytes (s.data b)).take size ++ s.contentOn rest (size - blockSize) := by
  simp [contentOn, List.take_append, length_blockBytes]

theorem length_bytes (s : VirtualDisc) (blocks : List Nat) :
    (blocks.flatMap fun b => blockBytes (s.data b)).length = blocks.length * blockSize := by
  simp [length_blockBytes]

theorem contentOn_append (s : VirtualDisc) (l m : List Nat) (size : Nat) :
    s.contentOn (l ++ m) size = s.contentOn l size ++ s.contentOn m (size - l.length * blockSize) := by
  simp only [contentOn, List.flatMap_append, List.take_append, length_bytes]

theorem contentOn_of_le {blocks : List Nat} {size : Nat} (whole : blocks.length * blockSize ≤ size) :
    s.contentOn blocks size = blocks.flatMap fun b => blockBytes (s.data b) :=
  List.take_of_length_le (by rwa [length_bytes])

theorem length_contentOn (s : VirtualDisc) {blocks : List Nat} {size : Nat} (fits : size ≤ blocks.length * blockSize) :
    (s.contentOn blocks size).length = size := by
  rw [contentOn, List.length_take, length_bytes, Nat.min_eq_left fits]

theorem take_contentOn (s : VirtualDisc) (blocks : List Nat) {size n : Nat} (fewer : n ≤ size) :
    (s.contentOn blocks size).take n = s.contentOn (blocks.take (blocksFor n)) n := by
  have bytes : s.contentOn blocks n = s.contentOn (blocks.take (blocksFor n)) n := by
    have needed := le_blocksFor n
    conv_lhs => rw [← List.take_append_drop (blocksFor n) blocks, contentOn_append]
    by_cases more : blocksFor n ≤ blocks.length
    · have none_ : n - (blocks.take (blocksFor n)).length * blockSize = 0 := by
        rw [List.length_take, Nat.min_eq_left more]
        omega
      rw [none_]
      simp [contentOn]
    · rw [List.drop_of_length_le (Nat.le_of_not_le more)]
      simp [contentOn]
  rw [← bytes]
  simp [contentOn, List.take_take, Nat.min_eq_left fewer]

/-! ## The reader -/

theorem outputLoop_eq {fuel idx size : Nat} {l : List Nat} (linked : Chain s.next nil64 idx l)
    (bounded : ∀ b ∈ l, b < s.datablocksNum) (enough : l.length < fuel) (sized : l.length = blocksFor size) :
    s.outputLoop fuel idx size = .ok (s.contentOn l size) := by
  induction l generalizing fuel idx size with
  | nil =>
    obtain ⟨fuel, rfl⟩ := Nat.exists_eq_add_of_lt enough
    simp [outputLoop, linked.eq_nil, contentOn]
  | cons b rest ih =>
    cases fuel with
    | zero => simp at enough
    | succ fuel =>
      obtain rfl := linked.head_eq
      have positive : size ≠ 0 := fun zero => by simp [zero, blocksFor_zero] at sized
      have walked (n : Nat) (tail : rest.length = blocksFor n) :
          s.outputLoop fuel (s.datablockTab idx).next n = .ok (s.contentOn rest n) :=
        ih linked.tail (fun c member => bounded c (List.mem_cons_of_mem _ member))
          (Nat.lt_of_succ_lt_succ enough) tail
      rw [List.length_cons] at sized
      simp only [outputLoop, linked.ne_nil, if_false, block_eq_ok (bounded idx List.mem_cons_self), ok_bind]
      -- the last block is read in part
      by_cases short : size < blockSize
      · rw [blocksFor_of_le (Nat.pos_of_ne_zero positive) short.le] at sized
        obtain rfl := List.eq_nil_of_length_eq_zero (Nat.succ.inj sized)
        rw [if_pos short, if_neg positive, Nat.sub_self, walked 0 rfl]
        simp [contentOn, take_blockBytes _ short.le, data]
      · have full : blockSize ≤ size := Nat.le_of_not_lt short
        rw [blocksFor_of_ge full] at sized
        rw [if_neg short, if_neg (by decide), walked (size - blockSize) (Nat.succ.inj sized)]
        have whole : (blockBytes (s.data idx)).take size = blockBytes (s.data idx) :=
          List.take_of_length_le (by rw [length_blockBytes]; exact full)
        rw [contentOn_cons, whole]
        rfl

/-! ## The writer -/

def stored (s : VirtualDisc) (file curr : Nat) (chunk : List UInt8) : VirtualDisc :=
  (s.withData curr (store (s.data curr) 0 chunk)).addSize file chunk.length

theorem fillBlock_nil (inRange : curr < s.datablocksNum) :
    fillBlock file curr (blockSize + 1) s ⟨[], false⟩ 0 = .ok (false, s, ⟨[], true⟩, 0) := by
  simp [fillBlock, Host.fread, blockSize, block_eq_ok inRange]

theorem fillBlock_of_ne_nil {content : List UInt8} (some_ : content ≠ []) (inRange : curr < s.datablocksNum) :
    fillBlock file curr (blockSize + 1) s ⟨content, false⟩ 0 =
      .ok (false, s.stored file curr (content.take blockSize),
        ⟨content.drop blockSize, decide (content.length < blockSize)⟩, min blockSize content.length) := by
  have chunk : content.take blockSize ≠ [] := by simp [some_, blockSize]
  obtain ⟨fuel, length⟩ : ∃ fuel, blockSize = fuel + 1 := ⟨8191, rfl⟩
  have first : (0 : Nat) < blockSize := by decide
  have inStored : curr < ((s.withData curr (store (s.datablockTab curr).data 0 (content.take blockSize))).addSize file
      (min blockSize content.length)).datablocksNum := inRange
  rw [fillBlock, if_pos first]
  simp only [Host.fread, Nat.sub_zero, chunk, if_false, block_eq_ok inRange, ok_bind, setData_eq_ok _ inRange,
    Bool.false_or, Nat.zero_add, List.length_take]
  rw [length, fillBlock, ← length]
  by_cases short : content.length < blockSize
  · -- a second read finds the end of the file
    have more : min blockSize content.length < blockSize := by omega
    have rest : content.drop blockSize = [] := List.drop_eq_nil_of_le short.le
    simp [more, rest, Host.fread, short, stored, data, block_eq_ok inStored]
  · have full : ¬ min blockSize content.length < blockSize := by omega
    simp [full, short, stored, data]

/-- While `curr` hangs on the file in advance: closed there, the file is on `p` and `curr`. -/
def Pending (s : VirtualDisc) (file curr : Nat) (p : List Nat) : Prop :=
  Chain (Function.update s.next curr nil64) nil64 (s.first file) (p ++ [curr])

theorem unhookFrom_eq {fuel a z : Nat} {q : List Nat}
    (pending : Chain (Function.update s.next curr nil64) nil64 a (q ++ [z] ++ [curr]))
    (bounded : ∀ b ∈ q ++ [z], b < s.datablocksNum) (enough : q.length < fuel) :
    s.unhookFrom curr fuel a = .ok (s.withNext z nil64) := by
  induction q generalizing a fuel with
  | nil =>
    obtain ⟨fuel, rfl⟩ := Nat.exists_eq_add_of_lt enough
    rw [List.nil_append] at pending
    obtain rfl := pending.head_eq
    have unique := pending.nodup
    have other : a ≠ curr := by simpa using unique
    have inRange := bounded a (by simp)
    have linked : (s.datablockTab a).next = curr := by
      have tail := pending.tail.head_eq
      rwa [Function.update_of_ne other] at tail
    simp [unhookFrom, pending.ne_nil, block_eq_ok inRange, linked, setNext_eq_ok _ inRange]
  | cons b rest ih =>
    cases fuel with
    | zero => simp at enough
    | succ fuel =>
      rw [List.cons_append, List.cons_append] at pending
      obtain rfl := pending.head_eq
      have unique := pending.nodup
      have other : a ≠ curr := by
        intro same
        simp [same] at unique
      have tail := pending.tail
      rw [Function.update_of_ne other] at tail
      -- the next block is one of the file, not yet the one to be unhooked
      have onward : (s.datablockTab a).next ≠ curr := by
        intro same
        have next : s.next a = curr := same
        rw [next] at tail
        have clash := tail.nodup
        cases rest with
        | nil => simp [← tail.head_eq] at clash
        | cons c rest => simp [← tail.head_eq] at clash
      have walked : s.unhookFrom curr fuel (s.datablockTab a).next = .ok (s.withNext z nil64) :=
        ih tail (fun c member => bounded c (List.mem_cons_of_mem _ member)) (Nat.lt_of_succ_lt_succ enough)
      simp [unhookFrom, pending.ne_nil, block_eq_ok (bounded a (by simp)), onward, walked]

/-- What the writer leaves: the file goes on with the blocks `taken`, which hold `content`. -/
structure Written (s : VirtualDisc) (file : Nat) (p taken : List Nat) (content : List UInt8)
    (s' : VirtualDisc) : Prop where
  superblock : s'.superblock = s.superblock
  linked : Chain s'.next nil64 (s'.first file) (p ++ taken)
  others : ∀ i, i ≠ file → s'.nodeTab i = s.nodeTab i
  node : s'.nodeTab file = { s.nodeTab file with
    size := (s.nodeTab file).size + content.length, firstDataBlock := s'.first file }
  links : ∀ b, b ∉ p ++ taken → s'.next b = s.next b
  marks : ∀ b, s'.dataMap b = (s.dataMap b || taken.contains b)
  data : ∀ b, b ∉ taken → s'.data b = s.data b
  content : s'.contentOn taken content.length = content

/-- With nothing left to read the block taken in advance is given back. -/
theorem removeDatablockFromInode_spec (pending : s.Pending file curr p)
    (bounded : ∀ b ∈ p, b < s.datablocksNum) (enough : p.length ≤ s.datablocksNum) :
    ∃ s', s.removeDatablockFromInode file curr = .ok s' ∧ s.Written file p [] [] s' := by
  rcases List.eq_nil_or_concat p with rfl | ⟨q, z, rfl⟩
  · have only : s.first file = curr := Chain.head_eq pending
    refine ⟨s.withFirst file nil64, if_pos only, ?_⟩
    constructor
    · rfl
    · simpa using Chain.stop
    · intro i other
      simp [other]
    · simp
    · intro b _
      rfl
    · simp
    · intro b _
      rfl
    · rfl
  · rw [List.concat_eq_append] at *
    have unique := Chain.nodup pending
    -- the block chosen stands behind the others, so the walk from the first one meets its predecessor
    have elsewhere : s.first file ≠ curr := by
      intro same
      unfold Pending at pending
      rw [same] at pending
      cases q with
      | nil => simp [← pending.head_eq] at unique
      | cons c rest => simp [← pending.head_eq] at unique
    have fuelled : q.length < s.datablocksNum + 1 := by
      simp only [List.length_append, List.length_singleton] at enough
      omega
    refine ⟨s.withNext z nil64, ?_, ?_⟩
    · rw [removeDatablockFromInode, if_neg elsewhere]
      exact unhookFrom_eq pending bounded fuelled
    · have kept : ∀ b ∈ q, b ≠ z ∧ b ≠ curr := by
        intro b member
        simp only [List.nodup_append] at unique
        exact ⟨fun same => unique.1.2.2 b member z (by simp) same,
          fun same => unique.2.2 b (by simp [member]) curr (by simp) same⟩
      constructor
      · rfl
      · rw [List.append_nil, withNext_next, withNext_first]
        apply pending.keep
        · exact Function.update_self ..
        · intro b member
          rw [Function.update_of_ne (kept b member).1, Function.update_of_ne (kept b member).2]
      · intro i _
        rfl
      · simp [first]
      · intro b outside
        have other : b ≠ z := fun same => outside (by simp [same])
        simp [other]
      · simp
      · simp
      · rfl

/-- The step to the next block: the block written is marked and linked to the
first free one, or to the index for nothing free. -/
theorem Pending.advance {next_ : Nat} (pending : s.Pending file curr p) (s' : VirtualDisc)
    (fresh : next_ ∉ p ++ [curr]) (distinct : next_ ≠ nil64) (firsts : s'.first = s.first)
    (links : s'.next = Function.update s.next curr next_) : s'.Pending file next_ (p ++ [curr]) := by
  have unique := Chain.nodup pending
  have other : curr ≠ next_ := fun same => fresh (by simp [same])
  unfold Pending
  rw [firsts, links]
  refine Chain.extend pending fresh distinct ?_ ?_ ?_
  · intro b member
    have before : b ≠ curr := fun same => (List.nodup_append.mp unique).2.2 b member curr (by simp) same
    have notNext : b ≠ next_ := fun same => fresh (by simp [← same, member])
    rw [Function.update_of_ne notNext, Function.update_of_ne before, Function.update_of_ne before]
  · rw [Function.update_of_ne other, Function.update_self]
  · exact Function.update_self ..

@[simp] theorem addSize_first (s : VirtualDisc) (i n : Nat) : (s.addSize i n).first = s.first := by
  simp [addSize]

theorem stored_data (s : VirtualDisc) (file curr : Nat) (chunk : List UInt8) :
    (s.stored file curr chunk).data = Function.update s.data curr (store (s.data curr) 0 chunk) := by
  simp [stored, addSize]

theorem stored_node (s : VirtualDisc) (file curr : Nat) (chunk : List UInt8) : (s.stored file curr chunk).nodeTab =
    Function.update s.nodeTab file
      { s.nodeTab file with size := (s.nodeTab file).size + chunk.length } := rfl

theorem written_last {content : List UInt8} (pending : s.Pending file curr p)
    (fits : content.length ≤ blockSize)
    (closed : s' = ((s.stored file curr content).withMark curr true).withNext curr nil64) :
    s.Written file p [curr] content s' := by
  subst closed
  constructor
  · rfl
  · have links : (((s.stored file curr content).withMark curr true).withNext curr nil64).next =
        Function.update s.next curr nil64 := by simp [stored, addSize]
    have firsts : (((s.stored file curr content).withMark curr true).withNext curr nil64).first = s.first := by
      simp [stored]
    rw [links, firsts]
    exact pending
  · intro i other
    simp [stored_node, other]
  · simp [stored, addSize, first]
  · intro b outside
    have other : b ≠ curr := fun same => outside (by simp [same])
    simp [stored, addSize, other]
  · intro b
    by_cases same : b = curr <;> simp [stored, addSize, same]
  · intro b outside
    have other : b ≠ curr := by simpa using outside
    simp [stored_data, other]
  · have bytes := take_blockBytes_store (s.data curr) fits
    simpa [contentOn, stored_data] using bytes

theorem Written.cons {next_ : Nat} {taken : List Nat} {content : List UInt8} (full : blockSize ≤ content.length)
    (fresh : curr ∉ taken)
    (rest : Written (((s.stored file curr (content.take blockSize)).withMark curr true).withNext curr next_) file
      (p ++ [curr]) taken (content.drop blockSize) s') : s.Written file p (curr :: taken) content s' := by
  have chunkLength : (content.take blockSize).length = blockSize := by simp [full]
  constructor
  · exact rest.superblock
  · simpa using rest.linked
  · intro i other
    rw [rest.others i other]
    simp [stored_node, other]
  · rw [rest.node]
    simp [stored_node, first, chunkLength]
    omega
  · intro b outside
    have other : b ≠ curr := fun same => outside (by simp [same])
    rw [rest.links b (by simpa using outside)]
    simp [stored, addSize, other]
  · intro b
    rw [rest.marks b]
    by_cases same : b = curr <;> simp [stored, addSize, same]
  · intro b outside
    rw [List.mem_cons, not_or] at outside
    rw [rest.data b outside.2]
    simp [stored_data, outside.1]
  · have here : s'.data curr = store (s.data curr) 0 (content.take blockSize) := by
      rw [rest.data curr fresh]
      simp [stored_data]
    have block : blockBytes (store (s.data curr) 0 (content.take blockSize)) = content.take blockSize := by
      have bytes := take_blockBytes_store (s.data curr) chunkLength.le
      rwa [chunkLength, List.take_of_length_le (length_blockBytes _).le] at bytes
    -- the rest of the content is on the blocks behind
    have others : (taken.flatMap fun b => blockBytes (s'.data b)).take (content.length - blockSize) =
        content.drop blockSize := by
      have bytes := rest.content
      rwa [contentOn, List.length_drop] at bytes
    unfold contentOn
    rw [List.flatMap_cons, here, block, List.take_append, chunkLength,
      List.take_of_length_le (by rw [chunkLength]; exact full), others, List.take_append_drop]

theorem findFreeDatablock_not_mem {blocks : List Nat}
    (marked : ∀ b ∈ blocks, b < s.datablocksNum ∧ s.dataMap b = true) : s.findFreeDatablock ∉ blocks := by
  intro member
  obtain ⟨inRange, held⟩ := marked _ member
  cases free : s.freeBlocks with
  | nil =>
    rw [findFreeDatablock_of_nil free] at inRange
    exact none32_not_lt s inRange
  | cons b rest =>
    rw [findFreeDatablock_of_cons free, (mem_freeBlocks free).2] at held
    cases held

theorem findFreeDatablock_ne_nil64 (s : VirtualDisc) : s.findFreeDatablock ≠ nil64 := by
  cases free : s.freeBlocks with
  | nil =>
    rw [findFreeDatablock_of_nil free]
    exact none32_ne_nil64
  | cons b rest =>
    rw [findFreeDatablock_of_cons free]
    exact ne_nil64 (mem_freeBlocks free).1

/-- The disc on which the writer chooses its next block: `curr` is full and marked. -/
def filled (s : VirtualDisc) (file curr : Nat) (content : List UInt8) : VirtualDisc :=
  (s.stored file curr (content.take blockSize)).withMark curr true

theorem filled_freeBlocks (file : Nat) (content : List UInt8) {rest : List Nat} (free : s.freeBlocks = curr :: rest) :
    (s.filled file curr content).freeBlocks = rest := by
  refine unmarked_mark (show unmarked s.datablocksNum s.dataMap = [curr] ++ rest from free) fun c _ => ?_
  by_cases same : c = curr <;> simp [filled, stored, addSize, same]

theorem writeLoop_last {fuel : Nat} {content : List UInt8} (some_ : content ≠ [])
    (short : content.length < blockSize) (inRange : curr < s.datablocksNum) :
    writeLoop file (fuel + 1) s ⟨content, false⟩ curr =
      .ok ([], ((s.stored file curr content).withMark curr true).withNext curr nil64) := by
  have positive : 0 < content.length := List.length_pos_iff.mpr some_
  have amount : min blockSize content.length ≠ 0 := by omega
  have inStored : curr < (s.stored file curr content).datablocksNum := inRange
  have inMarked : curr < ((s.stored file curr content).withMark curr true).datablocksNum := inRange
  simp only [writeLoop, fillBlock_of_ne_nil some_ inRange, ok_bind, Bool.false_eq_true, if_false, amount,
    List.take_of_length_le short.le, decide_eq_true short, if_true, setMark_eq_ok _ inStored,
    setNext_eq_ok _ inMarked]

theorem writeLoop_full {fuel : Nat} {content : List UInt8} (full : blockSize ≤ content.length)
    (inRange : curr < s.datablocksNum) : writeLoop file (fuel + 1) s ⟨content, false⟩ curr =
      writeLoop file fuel ((s.filled file curr content).withNext curr (s.filled file curr content).findFreeDatablock)
        ⟨content.drop blockSize, false⟩ (s.filled file curr content).findFreeDatablock := by
  have some_ : content ≠ [] := by
    intro none_
    rw [none_] at full
    cases full
  have amount : min blockSize content.length ≠ 0 := by
    rw [Nat.min_eq_left full]
    decide
  have inStored : curr < (s.stored file curr (content.take blockSize)).datablocksNum := inRange
  have inMarked : curr < (s.filled file curr content).datablocksNum := inRange
  have linked :
      ((s.filled file curr content).withNext curr (s.filled file curr content).findFreeDatablock).next curr =
        (s.filled file curr content).findFreeDatablock := by simp
  simp only [writeLoop, fillBlock_of_ne_nil some_ inRange, ok_bind, Bool.false_eq_true, if_false, amount,
    decide_eq_false (Nat.not_lt.mpr full), setMark_eq_ok _ inStored]
  change ((s.filled file curr content).setNext curr (s.filled file curr content).findFreeDatablock >>= _) = _
  simp only [setNext_eq_ok _ inMarked, ok_bind, linked, findFreeDatablock_ne_nil64, if_false]

/-- The outer loop: with enough free blocks for `content` the writer takes the first of them. -/
theorem writeLoop_spec {fuel : Nat} {content : List UInt8} (pending : s.Pending file curr p)
    (chosen : curr = s.findFreeDatablock) (bounded : ∀ b ∈ p, b < s.datablocksNum ∧ s.dataMap b = true)
    (enough : blocksRead content.length ≤ s.freeBlocks.length) (fuelled : content.length < fuel) :
    ∃ s', writeLoop file fuel s ⟨content, false⟩ curr = .ok ([], s') ∧
      s.Written file p (s.freeBlocks.take (blocksFor content.length)) content s' := by
  induction fuel generalizing s content curr p with
  | zero => simp at fuelled
  | succ fuel ih =>
    obtain ⟨b, rest, free⟩ : ∃ b rest, s.freeBlocks = b :: rest := by
      refine List.exists_cons_of_ne_nil fun none_ => ?_
      rw [none_, List.length_nil] at enough
      exact absurd enough (Nat.not_succ_le_zero _)
    rw [findFreeDatablock_of_cons free] at chosen
    subst chosen
    have inRange := (mem_freeBlocks free).1
    -- a round that reads nothing unhooks the block that was chosen for it
    by_cases ended : content = []
    · subst ended
      have few : p.length ≤ s.datablocksNum := by
        have unique : p.Nodup := (List.nodup_append.mp (Chain.nodup pending)).1
        have within : p ⊆ List.range s.datablocksNum := fun b member => List.mem_range.mpr (bounded b member).1
        simpa using (List.subperm_of_subset unique within).length_le
      obtain ⟨s', removed, written⟩ :=
        removeDatablockFromInode_spec pending (fun b member => (bounded b member).1) few
      refine ⟨s', ?_, by simpa [blocksFor_zero] using written⟩
      simp [writeLoop, fillBlock_nil inRange, removed]
    rw [free]
    by_cases short : content.length < blockSize
    · refine ⟨_, writeLoop_last ended short inRange, ?_⟩
      rw [blocksFor_of_le (List.length_pos_iff.mpr ended) short.le, List.take_succ_cons, List.take_zero]
      exact written_last pending short.le rfl
    · -- a full round hooks on the next free block, whether or not more is to be read
      have full : blockSize ≤ content.length := Nat.le_of_not_lt short
      have freeT := filled_freeBlocks file content free
      rw [writeLoop_full full inRange]
      have boundedT : ∀ b ∈ p ++ [curr], b < (s.filled file curr content).datablocksNum ∧
          (s.filled file curr content).dataMap b = true := by
        intro b member
        rcases List.mem_append.mp member with member | member
        · refine ⟨(bounded b member).1, ?_⟩
          by_cases same : b = curr <;> simp [filled, stored, addSize, same, (bounded b member).2]
        · rw [List.mem_singleton.mp member]
          exact ⟨inRange, by simp [filled]⟩
      have pendingNext := pending.advance
        ((s.filled file curr content).withNext curr (s.filled file curr content).findFreeDatablock)
        (findFreeDatablock_not_mem boundedT) (findFreeDatablock_ne_nil64 _) (by simp [filled, stored])
        (by simp [filled, stored, addSize])
      have length := blocksFor_of_ge full
      have remaining : (content.drop blockSize).length = content.length - blockSize := List.length_drop
      have some_ : 0 < blockSize := by decide
      have enoughT : blocksRead (content.drop blockSize).length ≤ (s.filled file curr content).freeBlocks.length := by
        rw [free, List.length_cons, blocksRead_of_ge full] at enough
        rw [freeT, remaining]
        omega
      obtain ⟨s', looped, written⟩ := ih pendingNext rfl boundedT enoughT (by rw [remaining]; omega)
      refine ⟨s', looped, ?_⟩
      change Written _ file _ (List.take _ (s.filled file curr content).freeBlocks) _ s' at written
      rw [freeT, remaining] at written
      rw [length, List.take_succ_cons]
      apply written.cons full
      intro member
      have unique := nodup_unmarked s.datablocksNum s.dataMap
      rw [show unmarked s.datablocksNum s.dataMap = curr :: rest from free, List.nodup_cons] at unique
      exact unique.1 (List.mem_of_mem_take member)

/-- Without enough free blocks the writer comes to the index for nothing free and does not return. -/
theorem writeLoop_short {fuel : Nat} {content : List UInt8} (chosen : curr = s.findFreeDatablock)
    (short : s.freeBlocks.length < blocksRead content.length) (outcome : List Output × VirtualDisc) :
    writeLoop file fuel s ⟨content, false⟩ curr ≠ .ok outcome := by
  induction fuel generalizing s content curr with
  | zero =>
    intro returned
    cases returned
  | succ fuel ih =>
    cases free : s.freeBlocks with
    | nil =>
      -- the search returns `-1`, which is no index of the table
      have outside := none32_not_lt s
      have start : (0 : Nat) < blockSize := by decide
      rw [chosen, findFreeDatablock_of_nil free]
      simp [writeLoop, fillBlock, start, block, outside]
    | cons b rest =>
      rw [findFreeDatablock_of_cons free] at chosen
      subst chosen
      rw [free, List.length_cons] at short
      by_cases last : content.length < blockSize
      · rw [blocksRead_of_lt last] at short
        omega
      · have full : blockSize ≤ content.length := Nat.le_of_not_lt last
        rw [writeLoop_full full (mem_freeBlocks free).1]
        apply ih rfl
        change (s.filled file curr content).freeBlocks.length < blocksRead (content.drop blockSize).length
        rw [blocksRead_of_ge full] at short
        rw [filled_freeBlocks file content free, List.length_drop]
        omega

/-! ## The two operations -/

variable {chain : Nat → List Nat} {dir : Nat} {filename path : CString}

theorem mem_freeNodes {i : Nat} : i ∈ s.freeNodes ↔ i < s.inodesNum ∧ (s.nodeTab i).type = .empty := by
  simp [freeNodes]

theorem findFreeNode_mem (free : s.freeNodes ≠ []) : s.findFreeNode ∈ s.freeNodes := by
  rw [findFreeNode_eq]
  cases listed : s.freeNodes with
  | nil => exact absurd listed free
  | cons i rest => simp

theorem findFreeNode_eq_none32_iff : s.findFreeNode = none32 ↔ s.freeNodes = [] := by
  constructor
  · intro none_
    by_contra free
    have inRange := (mem_freeNodes.mp (findFreeNode_mem free)).1
    have size : s.inodesNum < 2 ^ 32 := s.superblock.inodesNum_lt
    rw [none_, none32] at inRange
    omega
  · intro none_
    rw [findFreeNode_eq, none_]
    rfl

def allocated (s : VirtualDisc) : VirtualDisc :=
  s.withNode s.findFreeNode { s.nodeTab s.findFreeNode with referencesNum := 1, type := .file, size := 0 }

@[simp] theorem allocated_first : s.allocated.first = s.first := by
  simp [allocated, first]

theorem PoolOf.allocated (pool : s.PoolOf chain) : s.allocated.PoolOf chain :=
  pool.frame rfl allocated_first rfl rfl

/-- After the name is in the directory, copying is the writer's loop from an empty file. -/
theorem copyInto_eq {content : List UInt8} {t : VirtualDisc} {out : List Output} (free : s.freeNodes ≠ [])
    (added : s.allocated.addElemToDir dir filename s.findFreeNode = .ok (out, t)) :
    s.copyInto dir filename (some content) = (do
      let (written, s') ← writeLoop s.findFreeNode (content.length + 1)
        (t.withFirst s.findFreeNode t.findFreeDatablock) ⟨content, false⟩ t.findFreeDatablock
      .ok (out ++ written, s')) := by
  have some_ : s.findFreeNode ≠ none32 := fun none_ => free (findFreeNode_eq_none32_iff.mp none_)
  rw [copyInto, if_neg some_]
  have started : (t.withFirst s.findFreeNode t.findFreeDatablock).first s.findFreeNode = t.findFreeDatablock := by
    simp
  change (s.allocated.addElemToDir dir filename s.findFreeNode >>= _) = _
  simp only [added, ok_bind, started, findFreeDatablock_ne_nil64, if_false]

theorem copyInto_spec (content : List UInt8) {t : VirtualDisc} {out : List Output} (free : s.freeNodes ≠ [])
    (added : s.allocated.addElemToDir dir filename s.findFreeNode = .ok (out, t))
    (enough : blocksRead content.length ≤ t.freeBlocks.length) :
    ∃ s', s.copyInto dir filename (some content) = .ok (out, s') ∧
      (t.withFirst s.findFreeNode t.findFreeDatablock).Written s.findFreeNode []
        (t.freeBlocks.take (blocksFor content.length)) content s' := by
  have pending : (t.withFirst s.findFreeNode t.findFreeDatablock).Pending s.findFreeNode t.findFreeDatablock [] := by
    unfold Pending
    simp only [withFirst_next, withFirst_first, Function.update_self, List.nil_append]
    refine .link (findFreeDatablock_ne_nil64 t) ?_
    rw [Function.update_self]
    exact .stop
  obtain ⟨s', looped, written⟩ := writeLoop_spec pending rfl
    (fun b member => absurd member List.not_mem_nil) enough (Nat.lt_succ_self content.length)
  refine ⟨s', ?_, written⟩
  rw [copyInto_eq free added, looped]
  simp

theorem blocksRead_of_copyInto {content : List UInt8} {t : VirtualDisc} {out more : List Output}
    (free : s.freeNodes ≠ []) (added : s.allocated.addElemToDir dir filename s.findFreeNode = .ok (more, t))
    (returned : s.copyInto dir filename (some content) = .ok (out, s')) :
    blocksRead content.length ≤ t.freeBlocks.length := by
  by_contra few
  rw [copyInto_eq free added] at returned
  obtain ⟨result, looped, _⟩ := bind_eq_ok.mp returned
  have short : (t.withFirst s.findFreeNode t.findFreeDatablock).freeBlocks.length < blocksRead content.length :=
    Nat.lt_of_not_le few
  exact writeLoop_short rfl short result looped

/-- The inode has the content on blocks of its own that are marked, as many as are needed. -/
structure Stores (s : VirtualDisc) (i : Nat) (content : List UInt8) (blocks : List Nat) : Prop where
  size : (s.nodeTab i).size = content.length
  linked : Chain s.next nil64 (s.first i) blocks
  length : blocks.length = blocksFor content.length
  held : ∀ b ∈ blocks, b < s.datablocksNum ∧ s.dataMap b = true
  bytes : s.contentOn blocks content.length = content

theorem Stores.output {i : Nat} {content : List UInt8} {blocks : List Nat} (stores : s.Stores i content blocks) :
    s.outputLoop (s.datablocksNum + 1) (s.first i) (s.nodeTab i).size = .ok content := by
  have bounded : ∀ b ∈ blocks, b < s.datablocksNum := fun b member => (stores.held b member).1
  rw [stores.size, outputLoop_eq stores.linked bounded (Nat.lt_succ_of_le (stores.linked.length_le bounded))
    stores.length, stores.bytes]

theorem copyFileToDisc_stores {content : List UInt8} {t : VirtualDisc} {out : List Output} {taken : List Nat}
    {extra : List DirectoryElement} (reaches : s.findDirInode path = .ok (out, some dir))
    (unnamed : s.findInDir dir filename = .ok none) (inode : s.freeNodes ≠ [])
    (added : s.allocated.addElemToDir dir filename s.findFreeNode = .ok ([], t))
    (inserted : s.allocated.Inserted chain dir (newElem filename s.findFreeNode) taken extra t)
    (enough : taken.length + blocksRead content.length ≤ s.freeBlocks.length) :
    ∃ s' blocks, s.copyFileToDisc filename path (some content) = .ok (out, s') ∧
      (s'.nodeTab s.findFreeNode).type = .file ∧ s'.Stores s.findFreeNode content blocks := by
  -- the entry may have taken a block
  have left : blocksRead content.length ≤ t.freeBlocks.length := by
    have parts := congrArg List.length inserted.free
    rw [List.length_append] at parts
    have same : s.allocated.freeBlocks = s.freeBlocks := rfl
    rw [same] at parts
    omega
  obtain ⟨s', copied, written⟩ := copyInto_spec content inode added left
  refine ⟨s', t.freeBlocks.take (blocksFor content.length), ?_, ?_, ?_, written.linked, ?_, ?_, written.content⟩
  · rw [copyFileToDisc, reaches]
    simp only [ok_bind, unnamed, copied, List.append_nil]
  · rw [written.node]
    simp [inserted.nodes, allocated]
  · rw [written.node]
    simp [inserted.nodes, allocated]
  · rw [List.length_take, Nat.min_eq_left ((blocksFor_le_blocksRead _).trans left)]
  · intro b member
    constructor
    · have listed := (mem_unmarked.mp (List.mem_of_mem_take member)).1
      rwa [datablocksNum, written.superblock]
    · have taken : b ∈ t.freeBlocks.take (blocksFor content.length) := member
      rw [written.marks]
      simp [taken]

/-- The whole content is stored, and nothing but the warnings of the path is printed. -/
def Accepts (s : VirtualDisc) (filename path : CString) (content : List UInt8) (out : List Output) : Prop :=
  ∃ s' blocks, s.copyFileToDisc filename path (some content) = .ok (out, s') ∧
    (s'.nodeTab s.findFreeNode).type = .file ∧ s'.Stores s.findFreeNode content blocks

/-- A directory with an unused slot takes a file for which there are blocks if and
only if it does not end with the last free block: the writer looks for its end in one more. -/
theorem accepts_iff (pool : s.PoolOf chain) {out : List Output} (content : List UInt8)
    (reaches : s.findDirInode path = .ok (out, some dir)) (unnamed : s.findInDir dir filename = .ok none)
    (slot : s.roomy (s.chainOf dir) ≠ []) (inode : s.freeNodes ≠ [])
    (room : blocksFor content.length ≤ s.freeBlocks.length) :
    s.Accepts filename path content out ↔
      content.length % blockSize ≠ 0 ∨ blocksFor content.length < s.freeBlocks.length := by
  have inRange := inRange_of_findInDir unnamed
  rw [pool.chainOf_eq inRange] at slot
  have some_ : chain dir ≠ [] := fun none_ => slot (by simp [none_, roomy])
  have slotA : s.allocated.roomy (chain dir) ≠ [] := slot
  -- the directory has a slot, so its entry takes no block
  have added := addElemToDir_of_some pool.allocated inRange some_ filename s.findFreeNode
  rw [insertElem_fills pool.allocated inRange slotA] at added
  have inserted := fill_inserted pool.allocated (newElem_storable filename s.findFreeNode) slotA
  have enough : blocksRead content.length ≤ s.freeBlocks.length ↔
      content.length % blockSize ≠ 0 ∨ blocksFor content.length < s.freeBlocks.length := by
    have fewer := blocksFor_le_blocksRead content.length
    have more := blocksRead_le_succ content.length
    rw [← blocksRead_eq_blocksFor_iff]
    omega
  rw [← enough]
  constructor
  · -- a writer that returns has had a block to look for the end of the file in
    rintro ⟨s', blocks, copied, -⟩
    rw [copyFileToDisc, reaches] at copied
    simp only [ok_bind, unnamed] at copied
    obtain ⟨⟨written, t⟩, copying, _⟩ := bind_eq_ok.mp copied
    have parts := congrArg List.length inserted.free
    rw [List.nil_append] at parts
    exact (blocksRead_of_copyInto inode added copying).trans parts.ge
  · intro enough
    exact copyFileToDisc_stores reaches unnamed inode added inserted (by simpa using enough)

theorem letter_not_nul : (0 : UInt8) ∉ [97] := by decide

def newDisc : VirtualDisc := create ⟨[97], letter_not_nul⟩ 200000

/-- The new disc when a directory has been made in the root directory. -/
def wideDisc : VirtualDisc := (newDisc.withNode 1 ⟨0, nil64, .directory, 1⟩).begun 0 0 (newElem ⟨[97], letter_not_nul⟩ 1)

example : wideDisc.datablocksNum = 21 ∧ wideDisc.freeBlocks.length = 20 := by decide +kernel

theorem newDisc_free : (newDisc.withNode 1 ⟨0, nil64, .directory, 1⟩).freeBlocks = 0 :: (List.range 20).map Nat.succ := by
  decide +kernel

theorem wideDisc_pool : ∃ chain, wideDisc.PoolOf chain := by
  have named : (newDisc.withNode 1 ⟨0, nil64, .directory, 1⟩).first = newDisc.first := by
    funext i
    by_cases same : i = 1 <;> simp [newDisc, create, blank, first, same]
  have made : (newDisc.withNode 1 ⟨0, nil64, .directory, 1⟩).PoolOf fun _ => [] := blank_pool.frame rfl named rfl rfl
  exact ⟨_, (begun_inserted made (by decide +kernel) (newElem_storable ⟨[97], letter_not_nul⟩ 1) rfl newDisc_free).pool⟩

theorem makeDir_newDisc : newDisc.makeDir ⟨[97], letter_not_nul⟩ = .ok ([], wideDisc) := by
  have path : components ⟨[97], letter_not_nul⟩ = [⟨[97], letter_not_nul⟩] := by decide +kernel
  have unnamed : newDisc.findInDir 0 ⟨[97], letter_not_nul⟩ = .ok none :=
    findInDir_of_chain_nil blank_pool (by decide +kernel) rfl
  have inode : newDisc.findFreeNode = 1 := by decide +kernel
  have empty : newDisc.nodeTab 1 = ⟨0, nil64, .empty, 0⟩ := rfl
  have nil : (newDisc.withNode 1 ⟨0, nil64, .directory, 1⟩).first 0 = nil64 := rfl
  have inserted : (newDisc.withNode 1 ⟨0, nil64, .directory, 1⟩).insertDir 0 (newElem ⟨[97], letter_not_nul⟩ 1) =
      .ok (none, wideDisc) := insertDir_begins nil newDisc_free
  have valid : warnInvalid ⟨[97], letter_not_nul⟩ = [] := by decide +kernel
  rw [makeDir, path, makeDirFrom, unnamed]
  simp only [ok_bind, inode, empty]
  rw [if_neg (by decide), inserted]
  simp only [ok_bind, makeDirFrom, valid]
  rfl

theorem accepts_iff_wideDisc : wideDisc.Accepts ⟨[102], by decide⟩ rootPath [1, 2, 3] [] ↔
    [(1 : UInt8), 2, 3].length % blockSize ≠ 0 ∨ blocksFor [(1 : UInt8), 2, 3].length < wideDisc.freeBlocks.length := by
  obtain ⟨chain, pool⟩ := wideDisc_pool
  have reaches : wideDisc.findDirInode rootPath = .ok ([], some 0) := by decide +kernel
  have unnamed : wideDisc.findInDir 0 ⟨[102], by decide⟩ = .ok none := by decide +kernel
  exact accepts_iff pool _ reaches unnamed (by decide +kernel) (by decide +kernel) (by decide +kernel)

/-- A content that fills the free blocks, all twenty, to the last byte. -/
theorem exact_fit_fails : newDisc.makeDir ⟨[97], letter_not_nul⟩ = .ok ([], wideDisc) ∧
    ∃ (chain : Nat → List Nat) (filename : CString) (content : List UInt8), wideDisc.PoolOf chain ∧
      wideDisc.findDirInode rootPath = .ok ([], some 0) ∧ wideDisc.findInDir 0 filename = .ok none ∧
      wideDisc.roomy (wideDisc.chainOf 0) ≠ [] ∧ wideDisc.freeNodes ≠ [] ∧
      blocksFor content.length = wideDisc.freeBlocks.length ∧ ¬ wideDisc.Accepts filename rootPath content [] := by
  obtain ⟨chain, pool⟩ := wideDisc_pool
  have reaches : wideDisc.findDirInode rootPath = .ok ([], some 0) := by decide +kernel
  have unnamed : wideDisc.findInDir 0 ⟨[102], by decide⟩ = .ok none := by decide +kernel
  have slot : wideDisc.roomy (wideDisc.chainOf 0) ≠ [] := by decide +kernel
  have inode : wideDisc.freeNodes ≠ [] := by decide +kernel
  have length : (List.replicate (20 * blockSize) (7 : UInt8)).length = 20 * blockSize := List.length_replicate
  have fits : blocksFor (List.replicate (20 * blockSize) (7 : UInt8)).length = wideDisc.freeBlocks.length := by
    rw [length]
    decide +kernel
  refine ⟨makeDir_newDisc, chain, ⟨[102], by decide⟩, _, pool, reaches, unnamed, slot, inode, fits, ?_⟩
  rw [accepts_iff pool _ reaches unnamed slot inode fits.le, fits, length]
  simp

end VirtualDisc
end SoiStud.FileSystem
