import SoiStud.Library.Encoding

/-! Words of one width in a memory of bytes.

A word is stored with its lowest byte first. A row of words that is stored
determines the bytes of its place, whatever stood there, and no others.
-/

set_option autoImplicit false

namespace SoiStud.Library

abbrev Memory := Nat → UInt8

variable {width : Nat} {mem mem' : Memory} {i j v a : Nat} {l m : List Nat}

def storeWord (width : Nat) (mem : Memory) (i v : Nat) : Memory := fun a =>
  if width * i ≤ a ∧ a < width * (i + 1) then (toBytes width v).getD (a - width * i) 0 else mem a

def loadWord (width : Nat) (mem : Memory) (i : Nat) : Nat :=
  ofBytes ((List.range width).map fun k => mem (width * i + k))

def storeWords (width : Nat) : Memory → Nat → List Nat → Memory
  | mem, _, [] => mem
  | mem, i, v :: rest => storeWords width (storeWord width mem i v) (i + 1) rest

theorem storeWords_append : storeWords width mem i (l ++ m) = storeWords width (storeWords width mem i l) (i + l.length) m := by
  induction l generalizing mem i with
  | nil => rfl
  | cons v rest ih =>
    rw [List.cons_append, storeWords, storeWords, ih, List.length_cons, Nat.add_right_comm, Nat.add_assoc]

theorem storeWord_outside (outside : a < width * i ∨ width * (i + 1) ≤ a) : storeWord width mem i v a = mem a :=
  if_neg (by omega)

theorem storeWords_outside (outside : a < width * i ∨ width * (i + l.length) ≤ a) : storeWords width mem i l a = mem a := by
  induction l generalizing mem i with
  | nil => rfl
  | cons v rest ih =>
    have next : width * (i + 1) = width * i + width := by rw [Nat.mul_add, Nat.mul_one]
    have whole : width * (i + (v :: rest).length) = width * (i + 1 + rest.length) := by
      rw [List.length_cons, Nat.add_right_comm, Nat.add_assoc]
    have grows : width * (i + 1) ≤ width * (i + 1 + rest.length) := Nat.mul_le_mul_left width (Nat.le_add_right _ _)
    rw [storeWords, ih (by omega), storeWord_outside (by omega)]

theorem storeWords_inside (inside : width * i ≤ a ∧ a < width * (i + l.length)) :
    storeWords width mem i l a = storeWords width mem' i l a := by
  induction l generalizing mem mem' i with
  | nil =>
    rw [List.length_nil, Nat.add_zero] at inside
    omega
  | cons v rest ih =>
    rw [storeWords, storeWords]
    by_cases here : a < width * (i + 1)
    · rw [storeWords_outside (.inl here), storeWords_outside (.inl here), storeWord, storeWord, if_pos ⟨inside.1, here⟩,
        if_pos ⟨inside.1, here⟩]
    · refine ih ⟨Nat.not_lt.mp here, ?_⟩
      rw [List.length_cons] at inside
      rw [Nat.add_right_comm, Nat.add_assoc]
      exact inside.2

theorem loadWord_congr (same : ∀ a, width * i ≤ a → a < width * (i + 1) → mem a = mem' a) :
    loadWord width mem i = loadWord width mem' i := by
  refine congrArg ofBytes (List.map_congr_left fun k inside => ?_)
  have below := List.mem_range.mp inside
  refine same _ (Nat.le_add_right _ _) ?_
  rw [Nat.mul_add, Nat.mul_one]
  omega

theorem loadWord_storeWord (small : v < 256 ^ width) : loadWord width (storeWord width mem i v) i = v := by
  have bytes : (List.range width).map (fun k => storeWord width mem i v (width * i + k)) = toBytes width v := by
    refine List.ext_getElem (by simp) fun k first second => ?_
    rw [length_toBytes] at second
    have inside : width * i ≤ width * i + k ∧ width * i + k < width * (i + 1) := by
      rw [Nat.mul_add, Nat.mul_one]
      omega
    simp [storeWord, inside, second]
  rw [loadWord, bytes, ofBytes_toBytes small]

theorem loadWord_storeWords (bounded : j < l.length) (small : l[j] < 256 ^ width) :
    loadWord width (storeWords width mem i l) (i + j) = l[j] := by
  induction l generalizing mem i j with
  | nil => cases bounded
  | cons v rest ih =>
    rw [storeWords]
    cases j with
    | zero =>
      rw [Nat.add_zero]
      exact (loadWord_congr fun a _ high => storeWords_outside (.inl high)).trans (loadWord_storeWord small)
    | succ j =>
      have next := @ih (storeWord width mem i v) (i + 1) j (Nat.lt_of_succ_lt_succ bounded) small
      rwa [Nat.add_right_comm, Nat.add_assoc] at next

end SoiStud.Library
