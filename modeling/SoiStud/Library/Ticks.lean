import Mathlib.Algebra.Ring.Int.Defs
import Mathlib.Order.Basic

/-! Counters of 32 bits, and the numbers that they stand for while they do not wrap.

Nothing here names a particular program.
-/

set_option autoImplicit false

namespace SoiStud.Library

variable {t u : Int32} {n : Nat}

theorem toInt_add (low : -2 ^ 31 ≤ t.toInt + u.toInt) (high : t.toInt + u.toInt < 2 ^ 31) :
    (t + u).toInt = t.toInt + u.toInt := by
  rw [Int32.toInt_add]
  exact Int.bmod_eq_of_le (by omega) (by omega)

theorem toInt_add_ofNat (fits : t.toInt + n < 2 ^ 31) : (t + .ofNat n).toInt = t.toInt + n := by
  have low := t.le_toInt
  have size : Int32.size = 2 ^ 32 := rfl
  rw [Int32.toInt_add, Int32.toInt_ofNat', size, Int.add_bmod_bmod]
  exact Int.bmod_eq_of_le (by omega) (by omega)

theorem toInt_ofNat_add (positive : 0 ≤ u.toInt) (fits : n + u.toInt < 2 ^ 31) : (.ofNat n + u : Int32).toInt = n + u.toInt := by
  have single : (Int32.ofNat n).toInt = n := Int32.toInt_ofNat_of_lt (by omega)
  rw [toInt_add (by rw [single]; omega) (by rw [single]; omega), single]

end SoiStud.Library
