import Mathlib.Algebra.Ring.Int.Defs
import SoiStud.Library.Words
import SoiStud.Memory.Coalescing

/-! The system call `hole_map` and the command `t` that reads its answer.

The caller says how many bytes its buffer has, the loop takes the number for one
of elements, and as many bytes are copied as the caller says, whatever the loop has
written. `stack` is what stands in the memory of MM from the array `buf` on.
-/

set_option autoImplicit false

namespace SoiStud.Memory

open Library

/-- `sizeof(phys_clicks)`, and that of the elements of the caller's buffer. -/
def elemBytes : Nat := 4

def Constants.bufLen (c : Constants) : Nat := c.nrHoles * 2 + 1

/-- The loop of `do_hole_map`. -/
def fillBuf (c : Constants) (s : State) (size : Int) : Nat → Nat → Nat → Memory → Except Fault (Nat × Memory)
  | 0, _, _, _ => .error .outOfFuel
  | fuel + 1, hp, i, buf =>
    if hp ≠ c.nil ∧ (s.hole hp).base < s.swapBase ∧ i < size - 1 then
      let buf := storeWord elemBytes buf i (s.hole hp).len
      let buf := storeWord elemBytes buf (i + 1) (s.hole hp).base
      fillBuf c s size fuel (s.hole hp).next (i + 2) buf
    else .ok (i, buf)

/-- `sys_copy` from MM to a caller whose buffer is all its own. -/
def sysCopy (bytes : Nat) (src dst : Memory) : Memory := fun a => if a < bytes then src a else dst a

/-- What the call returns, and the memory of the caller from `m1_p1` on. -/
def doHoleMap (c : Constants) (m1_i1 : Int) (stack caller : Memory) (s : State) : Except Fault (Nat × Memory) := do
  let (i, buf) ← fillBuf c s m1_i1 (c.nrHoles + 1) s.holeHead 0 stack
  let buf := storeWord elemBytes buf i 0
  .ok (i / 2, sysCopy (toClicks m1_i1) buf caller)

/-- A `size_t` assigned to an `int`. -/
def toInt (n : Nat) : Int := if n < 2 ^ 31 then n else n - 2 ^ 32

def holeMap (c : Constants) (nbytes : Nat) (stack caller : Memory) (s : State) : Except Fault (Nat × Memory) :=
  doHoleMap c (toInt nbytes) stack caller s

/-- The loop of `t.c`: the lengths that are printed, up to the first zero. -/
def readHoles (b : Memory) : Nat → Nat → Option (List Nat)
  | 0, _ => none
  | fuel + 1, p =>
    if loadWord elemBytes b p ≠ 0 then (readHoles b fuel (p + 2)).map (loadWord elemBytes b p :: ·) else some []

variable {c : Constants} {s : State} {holes slots rest l : List Nat} {hp i fuel nbytes : Nat} {size : Int}
  {buf stack caller : Memory}

def below (s : State) (holes : List Nat) : List Nat := holes.takeWhile fun i => (s.hole i).base < s.swapBase

def pairs (s : State) (l : List Nat) : List Nat := l.flatMap fun i => [(s.hole i).len, (s.hole i).base]

theorem length_pairs (s : State) (l : List Nat) : (pairs s l).length = 2 * l.length :=
  @length_flatMap_of_sized Nat 2 Nat (fun i => [(s.hole i).len, (s.hole i).base]) (fun _ => rfl) l

/-- The loop writes two elements for a hole and stops at half of what it takes for the number of elements. -/
theorem fillBuf_spec (chain : Chain s.next c.nil hp rest) (enough : rest.length < fuel) :
    fillBuf c s size fuel hp i buf =
      .ok (i + 2 * ((below s rest).take ((size - i) / 2).toNat).length,
        storeWords elemBytes buf i (pairs s ((below s rest).take ((size - i) / 2).toNat))) := by
  induction fuel generalizing hp rest i buf with
  | zero => exact absurd enough (Nat.not_lt_zero _)
  | succ fuel ih =>
    rw [fillBuf]
    cases rest with
    | nil =>
      rw [if_neg fun goes => goes.1 chain.eq_nil, below, List.takeWhile_nil, List.take_nil]
      rfl
    | cons hp' after =>
      obtain rfl := chain.head_eq
      -- there is a hole in memory and room for two elements
      by_cases goes : (s.hole hp).base < s.swapBase ∧ (i : Int) < size - 1
      · have more : ((size - i) / 2).toNat = ((size - (i + 2 : Nat)) / 2).toNat + 1 := by omega
        have first : below s (hp :: after) = hp :: below s after := List.takeWhile_cons_of_pos (decide_eq_true goes.1)
        have next := @ih after (s.next hp) (i + 2)
          (storeWord elemBytes (storeWord elemBytes buf i (s.hole hp).len) (i + 1) (s.hole hp).base)
          chain.tail (Nat.lt_of_succ_lt_succ enough)
        rw [if_pos ⟨chain.ne_nil, goes.1, goes.2⟩, first, more, List.take_succ_cons]
        refine next.trans (congrArg _ (Prod.ext ?_ rfl))
        simp only [List.length_cons]
        omega
      · rw [if_neg fun all => goes all.2]
        have none_ : (below s (hp :: after)).take ((size - i) / 2).toNat = [] := by
          by_cases low : (s.hole hp).base < s.swapBase
          · have done : ((size - i) / 2).toNat = 0 := by omega
            rw [done, List.take_zero]
          · rw [below, List.takeWhile_cons_of_neg (by simpa using low), List.take_nil]
        rw [none_]
        rfl

/-- What the call comes to: these holes, a zero, and the bytes that the caller asked for. -/
theorem doHoleMap_eq (table : Table c s holes slots) :
    doHoleMap c size stack caller s =
      .ok (((below s holes).take (size / 2).toNat).length,
        sysCopy (toClicks size) (storeWords elemBytes stack 0 (pairs s ((below s holes).take (size / 2).toNat) ++ [0]))
          caller) := by
  rw [doHoleMap, fillBuf_spec table.linked (Nat.lt_succ_of_le table.length_le), ok_bind, storeWords_append, length_pairs]
  simp only [Int.natCast_zero, Int.sub_zero, Nat.zero_add, storeWords]
  rw [Nat.mul_div_cancel_left _ (by decide)]

theorem toClicks_toInt (word : nbytes < clickRange) : toClicks (toInt nbytes) = nbytes := by
  unfold toClicks toInt clickRange at *
  split <;> omega

def shown (s : State) (holes : List Nat) (nbytes : Nat) : List Nat := (below s holes).take (toInt nbytes / 2).toNat

theorem holeMap_eq (table : Table c s holes slots) (word : nbytes < clickRange) :
    holeMap c nbytes stack caller s =
      .ok ((shown s holes nbytes).length,
        sysCopy nbytes (storeWords elemBytes stack 0 (pairs s (shown s holes nbytes) ++ [0])) caller) := by
  rw [holeMap, doHoleMap_eq table, toClicks_toInt word]
  rfl

theorem length_shown (s : State) (holes : List Nat) (word : nbytes < clickRange) :
    (shown s holes nbytes).length = min (if nbytes < 2 ^ 31 then nbytes / 2 else 0) (below s holes).length := by
  rw [shown, List.length_take]
  congr 1
  unfold toInt clickRange at *
  split <;> omega

/-- The loop of the reader, where the pairs and a zero stand. -/
theorem readHoles_spec {b : Memory} {p : Nat} (some_ : ∀ i ∈ l, (s.hole i).len ≠ 0)
    (stored : ∀ j (bounded : j < (pairs s l ++ [0]).length), loadWord elemBytes b (p + j) = (pairs s l ++ [0])[j]) :
    readHoles b (l.length + 1) p = some (l.map fun i => (s.hole i).len) := by
  induction l generalizing p with
  | nil =>
    have zero : loadWord elemBytes b p = 0 := stored 0 (by simp [pairs])
    rw [readHoles, if_neg (by simp [zero])]
    rfl
  | cons i rest ih =>
    obtain ⟨here, others⟩ := List.forall_mem_cons.mp some_
    have first : loadWord elemBytes b p = (s.hole i).len := stored 0 (by simp [pairs])
    have next := @ih (p + 2) others fun j bounded => by
      have later := stored (j + 2) (by simpa [pairs] using bounded)
      rw [Nat.add_assoc, Nat.add_comm 2 j]
      exact later
    rw [readHoles, first, if_pos here, List.length_cons, next]
    rfl

/-- What `hole_map` is to do with a buffer of so many bytes: as many holes below `swap_base` as
fit with a zero behind them, in order of their addresses, and that number for an answer. A
reader that stops at the zero comes to the same number. -/
def MapsHoles (c : Constants) (nbytes : Nat) (s : State) (holes : List Nat) (stack caller : Memory) : Prop :=
  let k := min (below s holes).length ((nbytes / elemBytes - 1) / 2)
  let first := (below s holes).take k
  ∃ after, holeMap c nbytes stack caller s = .ok (k, after) ∧ elemBytes * (2 * k + 1) ≤ nbytes ∧
    (∀ j (bounded : j < (pairs s first ++ [0]).length), loadWord elemBytes after j = (pairs s first ++ [0])[j]) ∧
    readHoles after (k + 1) 0 = some (first.map fun i => (s.hole i).len)

theorem loadWord_sysCopy (small : ∀ v ∈ l, v < clickRange) (all : elemBytes * l.length ≤ nbytes)
    (stack caller : Memory) (j : Nat) (bounded : j < l.length) :
    loadWord elemBytes (sysCopy nbytes (storeWords elemBytes stack 0 l) caller) j = l[j] := by
  have copied : loadWord elemBytes (sysCopy nbytes (storeWords elemBytes stack 0 l) caller) j =
      loadWord elemBytes (storeWords elemBytes stack 0 l) (0 + j) := by
    rw [Nat.zero_add]
    refine loadWord_congr fun a _ high => if_pos ?_
    unfold elemBytes at *
    omega
  exact copied.trans (loadWord_storeWords bounded (small _ (List.getElem_mem bounded)))

theorem small_pairs (range : ∀ i ∈ l, (s.hole i).base < clickRange ∧ (s.hole i).len < clickRange) :
    ∀ v ∈ pairs s l ++ [0], v < clickRange := by
  intro v member
  simp only [pairs, List.mem_append, List.mem_flatMap, List.mem_cons, List.not_mem_nil, or_false] at member
  rcases member with ⟨i, listed, rfl | rfl⟩ | rfl
  · exact (range i listed).2
  · exact (range i listed).1
  · decide

/-- The call does what it should exactly if the holes below `swap_base` and the zero fit into the buffer, the
size of which has to be an `int` unless there is nothing to write. -/
theorem mapsHoles_iff (table : Table c s holes slots) (separated : Separated (extents s holes))
    (range : ∀ i ∈ holes, (s.hole i).base < clickRange ∧ (s.hole i).len < clickRange) (word : nbytes < clickRange)
    (room : elemBytes ≤ nbytes) :
    (∀ stack caller, MapsHoles c nbytes s holes stack caller) ↔
      elemBytes * (2 * (below s holes).length + 1) ≤ nbytes ∧ (nbytes < 2 ^ 31 ∨ below s holes = []) := by
  have count := length_shown s holes word
  constructor
  · intro maps
    obtain ⟨after, ran, -⟩ := maps (fun _ => 0) fun _ => 0
    rw [holeMap_eq table word] at ran
    have number := congrArg Prod.fst (Except.ok.inj ran)
    dsimp only at number
    rw [count] at number
    rw [← List.length_eq_zero_iff]
    unfold elemBytes at *
    split at number <;> omega
  · rintro ⟨fits, int⟩ stack caller
    -- the count that the call returns is then that of all the holes below `swap_base`
    have whole : min (below s holes).length ((nbytes / elemBytes - 1) / 2) = (below s holes).length := by
      unfold elemBytes at *
      omega
    have all : shown s holes nbytes = below s holes := by
      refine List.take_of_length_le ?_
      rw [shown, List.length_take] at count
      rw [← List.length_eq_zero_iff] at int
      unfold elemBytes at *
      split at count <;> omega
    have members : ∀ i ∈ below s holes, i ∈ holes := fun i member => List.takeWhile_subset _ member
    have length : (pairs s (below s holes) ++ [0]).length = 2 * (below s holes).length + 1 := by
      rw [List.length_append, length_pairs]
      rfl
    have copied : elemBytes * (pairs s (below s holes) ++ [0]).length ≤ nbytes := length ▸ fits
    have stored := loadWord_sysCopy (small_pairs fun i member => range i (members i member)) copied stack caller
    unfold MapsHoles
    simp only [whole, List.take_length]
    refine ⟨_, by rw [holeMap_eq table word, all], fits, stored, ?_⟩
    refine readHoles_spec (fun i member => ?_) fun j bounded => by rw [Nat.zero_add]; exact stored j bounded
    exact (separated.nonempty _ (List.mem_map_of_mem (members i member))).ne'

theorem mapsHoles_iff_twoHoles : (below twoHoles [0, 1]).length = 2 ∧
    ∀ stack caller, MapsHoles small 20 twoHoles [0, 1] stack caller :=
  ⟨by decide, (mapsHoles_iff twoHoles_table twoHoles_separated (by decide) (by decide) (by decide)).mpr
    ⟨by decide, .inl (by decide)⟩⟩

/-- A buffer of three elements has room for one hole, and two are reported. -/
theorem mapsHoles_fails : (∃ after, holeMap small 12 (fun _ => 0) (fun _ => 0) twoHoles = .ok (2, after)) ∧
    ¬ ∀ stack caller, MapsHoles small 12 twoHoles [0, 1] stack caller := by
  obtain ⟨after, ran⟩ : ∃ after, holeMap small 12 (fun _ => 0) (fun _ => 0) twoHoles = .ok (2, after) := ⟨_, rfl⟩
  refine ⟨⟨after, ran⟩, fun maps => ?_⟩
  obtain ⟨after', ran', -⟩ := maps (fun _ => 0) fun _ => 0
  have number : 2 = min (below twoHoles [0, 1]).length ((12 / elemBytes - 1) / 2) :=
    congrArg Prod.fst (Except.ok.inj (ran.symm.trans ran'))
  exact absurd number (by decide)

/-- The bytes that are copied to the caller are those of `buf` that this call has written, and do not
depend on what stood on the stack of MM. -/
structure OwnBytes (c : Constants) (nbytes : Nat) (s : State) : Prop where
  inside : toClicks (toInt nbytes) ≤ elemBytes * c.bufLen
  written : ∀ stack i buf, fillBuf c s (toInt nbytes) (c.nrHoles + 1) s.holeHead 0 stack = .ok (i, buf) →
    toClicks (toInt nbytes) ≤ elemBytes * (i + 1)
  same : ∀ stack stack' caller, holeMap c nbytes stack caller s = holeMap c nbytes stack' caller s

theorem length_shown_words (s : State) (holes : List Nat) (nbytes : Nat) :
    (pairs s (shown s holes nbytes) ++ [0]).length = 2 * (shown s holes nbytes).length + 1 := by
  rw [List.length_append, length_pairs]
  rfl

theorem copied_le_written (table : Table c s holes slots) (word : nbytes < clickRange)
    (same : ∀ stack stack' caller, holeMap c nbytes stack caller s = holeMap c nbytes stack' caller s) :
    nbytes ≤ elemBytes * (2 * (shown s holes nbytes).length + 1) := by
  by_contra more
  have equal := same (fun _ => 0) (fun _ => 1) fun _ => 0
  rw [holeMap_eq table word, holeMap_eq table word] at equal
  -- the first byte behind the zero is still that of the stack
  let a := elemBytes * (2 * (shown s holes nbytes).length + 1)
  have copied : a < nbytes := Nat.not_le.mp more
  have behind : elemBytes * (0 + (pairs s (shown s holes nbytes) ++ [0]).length) ≤ a := by
    rw [Nat.zero_add, length_shown_words]
  have byte := congrFun (congrArg Prod.snd (Except.ok.inj equal)) a
  dsimp only [sysCopy] at byte
  rw [if_pos copied, if_pos copied, storeWords_outside (.inr behind), storeWords_outside (.inr behind)] at byte
  exact absurd byte (by decide)

/-- Only what the call has written is copied, exactly if the caller asks for no more than the holes below
`swap_base` and the zero take. -/
theorem ownBytes_iff (table : Table c s holes slots) (word : nbytes < clickRange) :
    OwnBytes c nbytes s ↔ nbytes < 2 ^ 31 ∧ nbytes ≤ elemBytes * (2 * (below s holes).length + 1) := by
  have count := length_shown s holes word
  constructor
  · intro own
    have written := copied_le_written table word own.same
    unfold elemBytes at *
    split at count <;> omega
  · rintro ⟨int, asked⟩
    have few : (below s holes).length ≤ holes.length := (List.takeWhile_sublist _).length_le
    have slots := table.length_le
    have written : nbytes ≤ elemBytes * (2 * (shown s holes nbytes).length + 1) := by
      rw [if_pos int] at count
      unfold elemBytes at *
      omega
    refine ⟨?_, fun stack i buf ran => ?_, fun stack stack' caller => ?_⟩
    · rw [toClicks_toInt word]
      unfold Constants.bufLen elemBytes at *
      omega
    · rw [fillBuf_spec table.linked (Nat.lt_succ_of_le slots)] at ran
      have elements := congrArg Prod.fst (Except.ok.inj ran)
      simp only [Int.natCast_zero, Int.sub_zero, Nat.zero_add] at elements
      rw [toClicks_toInt word, ← elements]
      exact written
    · -- every byte that is copied has been written, so the stack below it does not show
      rw [holeMap_eq table word, holeMap_eq table word]
      refine congrArg _ (Prod.ext rfl (funext fun a => ?_))
      dsimp only [sysCopy]
      split
      next copied =>
        refine storeWords_inside ⟨Nat.mul_zero elemBytes ▸ Nat.zero_le a, ?_⟩
        rw [Nat.zero_add, length_shown_words]
        exact copied.trans_le written
      next => rfl

theorem ownBytes_iff_twoHoles : OwnBytes small 4 twoHoles :=
  (ownBytes_iff twoHoles_table (by decide)).mpr ⟨by decide, by decide⟩

/-- The buffer of `t.c` is larger than `buf`: the caller comes to see what stands behind it. -/
theorem ownBytes_fails : ¬ toClicks (toInt 4096) ≤ elemBytes * small.bufLen ∧ ¬ OwnBytes small 4096 twoHoles ∧
    ∃ stack stack' caller, holeMap small 4096 stack caller twoHoles ≠ holeMap small 4096 stack' caller twoHoles := by
  refine ⟨by decide, fun own => absurd own.inside (by decide), fun _ => 0, fun _ => 1, fun _ => 0, fun same => ?_⟩
  have byte := congrFun (congrArg Prod.snd (Except.ok.inj same)) 1000
  exact absurd byte (by decide)

end SoiStud.Memory
