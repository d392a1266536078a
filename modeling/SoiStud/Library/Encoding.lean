import Mathlib.Algebra.Group.Nat.Defs
import Mathlib.Data.List.Basic

/-! Numbers as little-endian bytes, and records of one width in a string of bytes.

Nothing here names a particular program.
-/

set_option autoImplicit false

namespace SoiStud.Library

def toBytes : Nat → Nat → List UInt8
  | 0, _ => []
  | width + 1, n => UInt8.ofNat n :: toBytes width (n / 256)

def ofBytes : List UInt8 → Nat
  | [] => 0
  | byte :: rest => byte.toNat + 256 * ofBytes rest

@[simp] theorem length_toBytes (width n : Nat) : (toBytes width n).length = width := by
  induction width generalizing n with
  | zero => rfl
  | succ width ih => rw [toBytes, List.length_cons, ih]

theorem ofBytes_lt (bytes : List UInt8) : ofBytes bytes < 256 ^ bytes.length := by
  induction bytes with
  | nil => exact Nat.one_pos
  | cons byte rest ih =>
    have small := byte.toNat_lt
    rw [ofBytes, List.length_cons, Nat.pow_succ]
    omega

theorem ofBytes_toBytes {width n : Nat} (fits : n < 256 ^ width) : ofBytes (toBytes width n) = n := by
  induction width generalizing n with
  | zero => rw [toBytes, ofBytes, Nat.lt_one_iff.mp fits]
  | succ width ih =>
    rw [Nat.pow_succ] at fits
    rw [toBytes, ofBytes, ih (Nat.div_lt_of_lt_mul (by omega)), UInt8.toNat_ofNat']
    omega

section
variable {α : Type*} {width : Nat}

def record (width i : Nat) (string : List α) : List α := (string.drop (width * i)).take width

theorem record_append {first : List α} (sized : first.length = width) (rest : List α) :
    record width 0 (first ++ rest) = first ∧ ∀ i, record width (i + 1) (first ++ rest) = record width i rest := by
  subst sized
  refine ⟨by simp [record], fun i => ?_⟩
  rw [record, record, Nat.mul_add, Nat.mul_one, Nat.add_comm, List.drop_append, List.drop_of_length_le (by omega),
    Nat.add_sub_cancel_left, List.nil_append]

variable {β : Type*} {encode : β → List α}

theorem record_flatMap (sized : ∀ b, (encode b).length = width) {l : List β} {i : Nat} (bounded : i < l.length) :
    record width i (l.flatMap encode) = encode l[i] := by
  induction l generalizing i with
  | nil => cases bounded
  | cons b rest ih =>
    obtain ⟨here, later⟩ := record_append (sized b) (rest.flatMap encode)
    rw [List.flatMap_cons]
    cases i with
    | zero => exact here
    | succ i =>
      rw [later]
      exact ih (Nat.lt_of_succ_lt_succ bounded)

theorem length_flatMap_of_sized (sized : ∀ b, (encode b).length = width) (l : List β) :
    (l.flatMap encode).length = width * l.length := by
  induction l with
  | nil => rfl
  | cons b rest ih => rw [List.flatMap_cons, List.length_append, sized, ih, List.length_cons, Nat.mul_succ, Nat.add_comm]

end

end SoiStud.Library
