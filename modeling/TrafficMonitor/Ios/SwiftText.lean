import TrafficMonitor.Client.AddressText

/-!
# Numbers in texts

`split` of a text and the initializers `UInt8(_:)` and `UInt16(_:radix:)` of the iOS client. The
texts here are ASCII, so a character is a byte.

Proved here: the initializers read back what `decimal` and `hexWord` write.
-/

namespace TrafficMonitor.SwiftText

open Bytes AddressText
open Dissect (hexWord inet_ntop4)

def PLUS : UInt8 := 43
def MINUS : UInt8 := 45

/-- `split(separator:)`; empty pieces are left out. -/
def split (separator : UInt8) (s : Bytes) : List Bytes :=
  (Lines.parts separator s).filter fun part => !part.isEmpty

/-- The digits of a number that may not go above `top`. -/
def digits (digit : UInt8 → Option Nat) (radix top : Nat) : Nat → Bytes → Option Nat
  | n, [] => some n
  | n, c :: s => match digit c with
    | none => none
    | some d => if radix * n + d ≤ top then digits digit radix top (radix * n + d) s else none

/-- The initializer of an unsigned type with the largest value `top`: a sign may stand before the
digits, and after a minus the number stays 0. -/
def unsigned (digit : UInt8 → Option Nat) (radix top : Nat) : Bytes → Option Nat
  | [] => none
  | c :: s =>
    if c = PLUS then if s = [] then none else digits digit radix top 0 s
    else if c = MINUS then if s = [] then none else digits digit radix 0 0 s
    else digits digit radix top 0 (c :: s)

/-- `UInt8(_:)` -/
def uint8 (s : Bytes) : Option UInt8 :=
  (unsigned (fun c => if isDigit c then some (c.toNat - 48) else none) 10 255 s).map UInt8.ofNat

/-- `UInt16(_:radix: 16)` -/
def uint16 (s : Bytes) : Option Nat := unsigned Inet.hexDigitValue 16 65535 s

/-! ## Reading back -/

theorem uint8_decimal (b : UInt8) : uint8 (decimal b.toNat) = some b := by
  have hall : ∀ n < 256, uint8 (decimal n) = some (UInt8.ofNat n) := by decide +kernel
  rw [hall b.toNat b.toNat_lt, UInt8.ofNat_toNat]

theorem split_inet_ntop4 (a b c d : UInt8) : split Inet.DOT (inet_ntop4 [a, b, c, d]) =
    [decimal a.toNat, decimal b.toNat, decimal c.toNat, decimal d.toNat] := by
  have hne (n : Nat) : (decimal n).isEmpty = false := by simp [decimal, Nat.toDigits_ne_nil]
  simp [split, Lines.parts, fields_inet_ntop4, hne]

theorem digits_append {digit : UInt8 → Option Nat} {radix top n m : Nat} {s : Bytes}
    (h : digits digit radix top n s = some m) (t : Bytes) :
    digits digit radix top n (s ++ t) = digits digit radix top m t := by
  induction s generalizing n with
  | nil =>
    obtain rfl : n = m := Option.some.inj h
    rfl
  | cons c s ih =>
    cases hc : digit c with
    | none => simp [digits, hc] at h
    | some d =>
      by_cases hd : radix * n + d ≤ top
      · simp only [digits, hc, if_pos hd] at h
        simp only [List.cons_append, digits, hc, if_pos hd]
        exact ih h
      · simp [digits, hc, hd] at h

theorem digits_hexWord {w : Nat} (h : w < 65536) :
    digits Inet.hexDigitValue 16 65535 0 (hexWord w) = some w := by
  induction w using Nat.strong_induction_on with
  | _ w ih =>
    by_cases hw : w < 16
    · rw [hexWord_of_lt hw]
      simp only [digits, hexDigitValue_hexDigit hw]
      rw [if_pos (by omega)]
      simp
    · rw [hexWord_of_le (by omega), digits_append (ih (w / 16) (by omega) (by omega))]
      simp only [digits, hexDigitValue_hexDigit (Nat.mod_lt w (by omega : 16 > 0))]
      rw [if_pos (by omega), Nat.div_add_mod]

theorem uint16_hexWord {w : Nat} (h : w < 65536) : uint16 (hexWord w) = some w := by
  obtain ⟨c, s, hc⟩ := List.exists_cons_of_ne_nil (hexWord_ne_nil w)
  have hdigit := hexDigitValue_of_mem (n := w) (c := c) (by simp [hc])
  have hplus : c ≠ PLUS := by
    rintro rfl
    exact absurd hdigit (by decide)
  have hminus : c ≠ MINUS := by
    rintro rfl
    exact absurd hdigit (by decide)
  rw [uint16, hc, unsigned, if_neg hplus, if_neg hminus, ← hc]
  exact digits_hexWord h

end TrafficMonitor.SwiftText
