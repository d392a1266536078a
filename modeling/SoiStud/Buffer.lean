import SoiStud.Library.Transition
import Mathlib.Data.List.Basic
import Mathlib.Algebra.Order.Group.Int
import Mathlib.Data.Fintype.Defs
import Mathlib.Data.Finset.Insert

/-! The FIFO buffer of integers of the producer/consumer programs and the four
conditions that guard access to it. -/

set_option autoImplicit false

namespace SoiStud

/-- `class Buffer`: the vector `buffer`, its first element being the oldest. -/
structure Buffer where
  buffer : List Int
  deriving DecidableEq, Repr

namespace Buffer

def put (b : Buffer) (num : Int) : Buffer := ⟨b.buffer ++ [num]⟩

/-- The value taken and the buffer left; an empty buffer yields the marker `-1`. -/
def get (b : Buffer) : Int × Buffer :=
  match b.buffer with
  | [] => (-1, b)
  | value :: rest => (value, ⟨rest⟩)

def count (b : Buffer) : Nat := b.buffer.length

def countEven (b : Buffer) : Nat := b.buffer.countP fun num => num % 2 = 0

def countOdd (b : Buffer) : Nat := b.buffer.length - b.countEven

def peekFirst (b : Buffer) : Int :=
  match b.buffer with
  | [] => -1
  | value :: _ => value

theorem countEven_le_count (b : Buffer) : b.countEven ≤ b.count := List.countP_le_length

theorem countEven_add_countOdd (b : Buffer) : b.countEven + b.countOdd = b.count := by
  have := b.countEven_le_count
  simp only [countOdd, count] at this ⊢
  omega

@[simp] theorem count_put (b : Buffer) (num : Int) : (b.put num).count = b.count + 1 := by
  simp [put, count]

theorem countEven_put_even (b : Buffer) {num : Int} (even : num % 2 = 0) :
    (b.put num).countEven = b.countEven + 1 := by
  simp [put, countEven, List.countP_append, even]

theorem countEven_put_odd (b : Buffer) {num : Int} (odd : num % 2 ≠ 0) :
    (b.put num).countEven = b.countEven := by
  simpa [put, countEven, List.countP_append] using odd

theorem countOdd_put_even (b : Buffer) {num : Int} (even : num % 2 = 0) :
    (b.put num).countOdd = b.countOdd := by
  have before := b.countEven_add_countOdd
  have after := (b.put num).countEven_add_countOdd
  rw [count_put, countEven_put_even b even] at after
  omega

theorem countOdd_put_odd (b : Buffer) {num : Int} (odd : num % 2 ≠ 0) :
    (b.put num).countOdd = b.countOdd + 1 := by
  have before := b.countEven_add_countOdd
  have after := (b.put num).countEven_add_countOdd
  rw [count_put, countEven_put_odd b odd] at after
  omega

theorem buffer_eq_cons_get {b : Buffer} (nonempty : 0 < b.count) :
    b.buffer = b.get.1 :: b.get.2.buffer := by
  rcases b with ⟨_ | ⟨value, rest⟩⟩
  · simp [count] at nonempty
  · rfl

theorem get_fst (b : Buffer) : b.get.1 = b.peekFirst := by
  rcases b with ⟨_ | ⟨value, rest⟩⟩ <;> rfl

theorem countEven_get_even {b : Buffer} (nonempty : 0 < b.count) (even : b.peekFirst % 2 = 0) :
    b.countEven = b.get.2.countEven + 1 := by
  rcases b with ⟨_ | ⟨value, rest⟩⟩
  · simp [count] at nonempty
  · have isEven : decide (value % 2 = 0) = true := decide_eq_true even
    exact List.countP_cons_of_pos isEven

theorem countEven_get_odd {b : Buffer} (odd : b.peekFirst % 2 ≠ 0) :
    b.get.2.countEven = b.countEven := by
  rcases b with ⟨_ | ⟨value, rest⟩⟩
  · rfl
  · have isOdd : ¬ decide (value % 2 = 0) = true := fun even => odd (of_decide_eq_true even)
    exact (List.countP_cons_of_neg (p := fun num => decide (num % 2 = 0)) isOdd).symm

theorem count_get {b : Buffer} (nonempty : 0 < b.count) : b.count = b.get.2.count + 1 := by
  rcases b with ⟨_ | ⟨value, rest⟩⟩
  · simp [count] at nonempty
  · simp [get, count]

theorem countOdd_get_even {b : Buffer} (nonempty : 0 < b.count) (even : b.peekFirst % 2 = 0) :
    b.get.2.countOdd = b.countOdd := by
  have := b.countEven_add_countOdd
  have := b.get.2.countEven_add_countOdd
  have := count_get nonempty
  have := countEven_get_even nonempty even
  omega

theorem countOdd_get_odd {b : Buffer} (nonempty : 0 < b.count) (odd : b.peekFirst % 2 ≠ 0) :
    b.countOdd = b.get.2.countOdd + 1 := by
  have := b.countEven_add_countOdd
  have := b.get.2.countEven_add_countOdd
  have := count_get nonempty
  have := countEven_get_odd odd
  omega

end Buffer

def canProdEven (buffer : Buffer) : Bool := buffer.countEven < 10

def canProdOdd (buffer : Buffer) : Bool := buffer.countEven > buffer.countOdd

def canConsEven (buffer : Buffer) : Bool :=
  buffer.count ≥ 3 && buffer.peekFirst ≠ -1 && buffer.peekFirst % 2 = 0

def canConsOdd (buffer : Buffer) : Bool :=
  buffer.count ≥ 7 && buffer.peekFirst ≠ -1 && buffer.peekFirst % 2 ≠ 0

/-- The four conditions, one for each kind of process. -/
inductive Kind where
  | prodEven
  | prodOdd
  | consEven
  | consOdd
  deriving DecidableEq, Repr

instance : Fintype Kind where
  elems := {.prodEven, .prodOdd, .consEven, .consOdd}
  complete k := by cases k <;> decide

def Kind.guard : Kind → Buffer → Bool
  | .prodEven => canProdEven
  | .prodOdd => canProdOdd
  | .consEven => canConsEven
  | .consOdd => canConsOdd

@[simp] theorem guard_prodEven (b : Buffer) : Kind.prodEven.guard b = true ↔ b.countEven < 10 := by
  simp [Kind.guard, canProdEven]

@[simp] theorem guard_prodOdd (b : Buffer) :
    Kind.prodOdd.guard b = true ↔ b.countOdd < b.countEven := by
  simp [Kind.guard, canProdOdd]

@[simp] theorem guard_consEven (b : Buffer) :
    Kind.consEven.guard b = true ↔ 3 ≤ b.count ∧ b.peekFirst ≠ -1 ∧ b.peekFirst % 2 = 0 := by
  simp [Kind.guard, canConsEven, and_assoc]

@[simp] theorem guard_consOdd (b : Buffer) :
    Kind.consOdd.guard b = true ↔ 7 ≤ b.count ∧ b.peekFirst ≠ -1 ∧ b.peekFirst % 2 ≠ 0 := by
  simp [Kind.guard, canConsOdd, and_assoc]

def Kind.Counts (k : Kind) (b b' : Buffer) : Prop :=
  match k with
  | .prodEven => b'.countEven = b.countEven + 1 ∧ b'.countOdd = b.countOdd
  | .prodOdd => b'.countEven = b.countEven ∧ b'.countOdd = b.countOdd + 1
  | .consEven => b.countEven = b'.countEven + 1 ∧ b'.countOdd = b.countOdd
  | .consOdd => b'.countEven = b.countEven ∧ b.countOdd = b'.countOdd + 1

/-- Whatever non-negative numbers the buffer holds, one of the four conditions is true. -/
theorem exists_guard (b : Buffer) (nonnegative : ∀ num ∈ b.buffer, 0 ≤ num) :
    ∃ k : Kind, k.guard b = true := by
  by_cases fewEvens : b.countEven < 10
  · exact ⟨.prodEven, (guard_prodEven b).mpr fewEvens⟩
  by_cases moreEvens : b.countOdd < b.countEven
  · exact ⟨.prodOdd, (guard_prodOdd b).mpr moreEvens⟩
  -- at least ten evens and as many odds: some consumer can take the head
  have total := b.countEven_add_countOdd
  have long : 7 ≤ b.count := by omega
  have head : 0 ≤ b.peekFirst := by
    rcases b with ⟨_ | ⟨value, rest⟩⟩
    · simp [Buffer.count] at long
    · exact nonnegative value (by simp)
  by_cases even : b.peekFirst % 2 = 0
  · exact ⟨.consEven, (guard_consEven b).mpr ⟨by omega, by omega, even⟩⟩
  · exact ⟨.consOdd, (guard_consOdd b).mpr ⟨long, by omega, even⟩⟩

/-- What a process of this kind gets and leaves: a producer puts `num`, a consumer takes the head. -/
def Kind.visit (k : Kind) (num : Int) (b : Buffer) : Int × Buffer :=
  match k with
  | .prodEven | .prodOdd => (num, b.put num)
  | .consEven | .consOdd => b.get

/-- The buffer alone, under the rules of the exercise. A label is the kind of the
process and the number that it puts or takes. -/
def specification : Library.System Buffer (Kind × Int) where
  init b := b = ⟨[]⟩
  step b label b' :=
    match label with
    | (.prodEven, num) => num % 2 = 0 ∧ b.countEven < 10 ∧ b' = b.put num
    | (.prodOdd, num) => num % 2 ≠ 0 ∧ b.countOdd < b.countEven ∧ b' = b.put num
    | (.consEven, val) => val % 2 = 0 ∧ 3 ≤ b.count ∧ b.get = (val, b')
    | (.consOdd, val) => val % 2 ≠ 0 ∧ 7 ≤ b.count ∧ b.get = (val, b')

theorem specification_visit {k : Kind} {num : Int} {b : Buffer} (true_ : k.guard b = true)
    (even : k = .prodEven → num % 2 = 0) (odd : k = .prodOdd → num % 2 ≠ 0) :
    specification.step b (k, (k.visit num b).1) (k.visit num b).2 := by
  cases k with
  | prodEven => exact ⟨even rfl, (guard_prodEven b).mp true_, rfl⟩
  | prodOdd => exact ⟨odd rfl, (guard_prodOdd b).mp true_, rfl⟩
  | consEven =>
    obtain ⟨long, -, head⟩ := (guard_consEven b).mp true_
    rw [← Buffer.get_fst] at head
    exact ⟨head, long, rfl⟩
  | consOdd =>
    obtain ⟨long, -, head⟩ := (guard_consOdd b).mp true_
    rw [← Buffer.get_fst] at head
    exact ⟨head, long, rfl⟩

end SoiStud
