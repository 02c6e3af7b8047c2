import Mathlib.Data.List.Basic
import Mathlib.Tactic.Common

/-!
# One's complement checksums

The checksum of RFC 1071: the bytes are taken as words of 16 bits, the words are added with the
carries put back, and the complement of the sum goes into the checksum field.

Proved here:

* `fold_eq`: the sum with its carries put back is the remainder by 65535, with 65535 for 0;
* `verifies_iff`: the words then give all ones exactly if 65535 divides their sum;
* `verifies_fill`: with the checksum in its field they do;
* `checksum_eq_zero_iff`: when the checksum is zero.
-/

namespace TrafficMonitor.Checksum

/-- The sum of the words, high byte first; an odd byte at the end is a high byte. -/
def wordSum : List UInt8 → Nat
  | a :: b :: s => 256 * a.toNat + b.toNat + wordSum s
  | [a] => 256 * a.toNat
  | [] => 0

/-- Put the carries back until the sum fits in 16 bits. -/
def fold (n : Nat) : Nat := if n / 65536 = 0 then n else fold (n % 65536 + n / 65536)
termination_by n
decreasing_by omega

/-- The bytes of a word. -/
def wordBytes (n : Nat) : List UInt8 := [UInt8.ofNat (n / 256), UInt8.ofNat (n % 256)]

def checksum (s : List UInt8) : Nat := 65535 - fold (wordSum s)

/-- What the receiver tests: the sum over everything is all ones. -/
def Verifies (s : List UInt8) : Prop := fold (wordSum s) = 65535

/-! ## Sums -/

/-- Behind an even number of bytes the words begin anew. -/
theorem wordSum_append {a : List UInt8} {n : Nat} (h : a.length = 2 * n) (s : List UInt8) :
    wordSum (a ++ s) = wordSum a + wordSum s := by
  induction n generalizing a with
  | zero =>
    obtain rfl := List.eq_nil_of_length_eq_zero h
    simp [wordSum]
  | succ n ih =>
    rcases a with _ | ⟨x, _ | ⟨y, a⟩⟩
    · simp at h
    · simp at h
      omega
    · have hrest := ih (a := a) (by simp at h; omega)
      simp only [List.cons_append, wordSum, hrest]
      omega

theorem wordSum_wordBytes {n : Nat} (h : n < 65536) (s : List UInt8) :
    wordSum (wordBytes n ++ s) = n + wordSum s := by
  have hdiv : n / 256 < 256 := by omega
  have hhi : (UInt8.ofNat (n / 256)).toNat = n / 256 := UInt8.toNat_ofNat_of_lt hdiv
  have hlo : (UInt8.ofNat (n % 256)).toNat = n % 256 :=
    UInt8.toNat_ofNat_of_lt (Nat.mod_lt n (by omega))
  simp only [wordBytes, List.cons_append, List.nil_append, wordSum, hhi, hlo]
  omega

theorem wordSum_le (s : List UInt8) : wordSum s ≤ 65535 * ((s.length + 1) / 2) := by
  fun_induction wordSum s with
  | case1 a b s ih =>
    have ha := a.toNat_lt
    have hb := b.toNat_lt
    have hlen : ((a :: b :: s).length + 1) / 2 = (s.length + 1) / 2 + 1 := by
      simp only [List.length_cons]
      omega
    rw [hlen]
    omega
  | case2 a =>
    have ha := a.toNat_lt
    simp only [List.length_singleton]
    omega
  | case3 => simp

/-! ## Carries -/

theorem fold_eq {n : Nat} (h : 0 < n) : fold n = (n - 1) % 65535 + 1 := by
  induction n using Nat.strongRecOn with
  | _ n ih =>
    rw [fold]
    split
    next hsmall => omega
    next hlarge =>
      rw [ih (n % 65536 + n / 65536) (by omega) (by omega)]
      omega

theorem fold_zero : fold 0 = 0 := by
  rw [fold]
  rfl

theorem fold_le (n : Nat) : fold n ≤ 65535 := by
  rcases Nat.eq_zero_or_pos n with rfl | h
  · rw [fold_zero]
    omega
  · rw [fold_eq h]
    omega

/-- Putting carries back does not change the remainder by 65535. -/
theorem fold_mod (n : Nat) : fold n % 65535 = n % 65535 := by
  rcases Nat.eq_zero_or_pos n with rfl | h
  · rw [fold_zero]
  · rw [fold_eq h]
    omega

/-! ## Checksums -/

theorem verifies_iff (s : List UInt8) : Verifies s ↔ 0 < wordSum s ∧ 65535 ∣ wordSum s := by
  rw [Verifies, Nat.dvd_iff_mod_eq_zero]
  rcases Nat.eq_zero_or_pos (wordSum s) with h | h
  · rw [h, fold_zero]
    omega
  · rw [fold_eq h]
    omega

theorem checksum_eq_zero_iff (s : List UInt8) : checksum s = 0 ↔ 0 < wordSum s ∧ 65535 ∣ wordSum s := by
  have hle := fold_le (wordSum s)
  rw [← verifies_iff, Verifies, checksum]
  omega

theorem checksum_lt (s : List UInt8) : checksum s < 65536 := by
  unfold checksum
  omega

/-- **The checksum verifies**: computed with a zero field, and put into the field. -/
theorem verifies_fill {a : List UInt8} {n : Nat} (h : a.length = 2 * n) (s : List UInt8) :
    Verifies (a ++ (wordBytes (checksum (a ++ (wordBytes 0 ++ s))) ++ s)) := by
  have hzero : wordSum (a ++ (wordBytes 0 ++ s)) = wordSum a + wordSum s := by
    rw [wordSum_append h, wordSum_wordBytes (by omega), Nat.zero_add]
  have hsum := checksum_lt (a ++ (wordBytes 0 ++ s))
  have hmod := fold_mod (wordSum a + wordSum s)
  have hle := fold_le (wordSum a + wordSum s)
  rw [verifies_iff, wordSum_append h, wordSum_wordBytes hsum, checksum, hzero]
  rcases Nat.eq_zero_or_pos (wordSum a + wordSum s) with hs | hs
  · rw [hs, fold_zero]
    omega
  · have hfold := fold_eq hs
    omega

end TrafficMonitor.Checksum
