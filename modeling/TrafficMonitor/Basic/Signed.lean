import Mathlib.Algebra.Order.Ring.Int

/-!
# Signed integers of a fixed width

Arithmetic on signed integers of `w` bits in which a result that does not fit is an outcome of
its own, and the loop that reads a number digit by digit in it.

Proved here:

* `push_natCast`: one digit is taken exactly if the number with it fits;
* `foldlM_push`: a text of digits is read exactly if its number fits.
-/

namespace TrafficMonitor.Signed

/-- The integer is one of `w` bits. -/
def Fits (w : Nat) (n : Int) : Prop := -2 ^ (w - 1) ≤ n ∧ n < 2 ^ (w - 1)

instance (w : Nat) (n : Int) : Decidable (Fits w n) := inferInstanceAs (Decidable (_ ∧ _))

/-- A result of the arithmetic; `none` is an overflow. -/
def checked (w : Nat) (n : Int) : Option Int := if Fits w n then some n else none

variable {w : Nat}

theorem bound_eq (w : Nat) : (2 : Int) ^ (w - 1) = (2 ^ (w - 1) : Nat) := by simp

theorem fits_natCast {n : Nat} : Fits w n ↔ n < 2 ^ (w - 1) := by
  unfold Fits
  rw [bound_eq]
  omega

/-- A negated number needs no room that the number itself does not need. -/
theorem fits_neg {n : Nat} (h : n < 2 ^ (w - 1)) : Fits w (-n : Int) := by
  unfold Fits
  rw [bound_eq]
  omega

theorem checked_natCast (n : Nat) :
    checked w n = if n < 2 ^ (w - 1) then some (n : Int) else none := by
  unfold checked
  simp only [fits_natCast]

/-! ## Digits -/

section Digits

variable {α : Type*} (base : Nat) (digit : α → Nat)

/-- The number so far with one more digit. -/
def shift (n : Nat) (a : α) : Nat := base * n + digit a

/-- The same in `w` bits: a product and a sum, of which each may overflow. -/
def push (w : Nat) (v : Int) (a : α) : Option Int :=
  (checked w (v * base)).bind fun p => checked w (p + digit a)

variable {base}

theorem le_foldl_shift (hb : 0 < base) (s : List α) (n : Nat) :
    n ≤ s.foldl (shift base digit) n := by
  induction s generalizing n with
  | nil => exact Nat.le_refl n
  | cons a s ih =>
    have hmul : n ≤ base * n := Nat.le_mul_of_pos_left n hb
    have hstep : n ≤ shift base digit n a := Nat.le_trans hmul (Nat.le_add_right _ _)
    exact Nat.le_trans hstep (ih _)

/-- The product overflows only if the sum does. -/
theorem push_natCast (n : Nat) (a : α) :
    push base digit w n a = checked w (shift base digit n a : Nat) := by
  have hmul : (n : Int) * base = (base * n : Nat) := by rw [Int.natCast_mul, Int.mul_comm]
  have hadd : ((base * n : Nat) : Int) + digit a = (shift base digit n a : Nat) :=
    (Int.natCast_add _ _).symm
  unfold push
  rw [hmul, checked_natCast, checked_natCast]
  by_cases h : base * n < 2 ^ (w - 1)
  · rw [if_pos h, Option.bind_some, hadd, checked_natCast]
  · have hle : base * n ≤ shift base digit n a := Nat.le_add_right _ _
    rw [if_neg h, Option.bind_none, if_neg (by omega)]

/-- The number only grows, so the loop overflows exactly if the whole number does not fit. -/
theorem foldlM_push (hb : 0 < base) (s : List α) {n : Nat} (hn : n < 2 ^ (w - 1)) :
    s.foldlM (push base digit w) (n : Int) = checked w (s.foldl (shift base digit) n : Nat) := by
  induction s generalizing n with
  | nil =>
    rw [List.foldlM_nil, List.foldl_nil, checked_natCast, if_pos hn]
    rfl
  | cons a s ih =>
    rw [List.foldlM_cons, List.foldl_cons, push_natCast, checked_natCast]
    by_cases h : shift base digit n a < 2 ^ (w - 1)
    · rw [if_pos h]
      exact ih h
    · have hle := le_foldl_shift digit hb s (shift base digit n a)
      rw [if_neg h, checked_natCast, if_neg (by omega)]
      rfl

end Digits

end TrafficMonitor.Signed
