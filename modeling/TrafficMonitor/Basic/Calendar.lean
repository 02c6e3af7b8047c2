import Mathlib.Algebra.GroupWithZero.Nat
import TrafficMonitor.Basic.Bytes

/-!
# The Gregorian calendar

Days of the proleptic Gregorian calendar are counted from the first day of year 0 by
adding up the lengths of the years and months before them. A `Time` is a date and a
time of day in UTC; `unix` is the number of seconds since 1970, and `text` writes it as
`YYYY-MM-DDTHH:MM:SSZ`.

Proved here:

* `daysBeforeYear_succ`: the closed form of the count of days;
* `digitsValue_padded`, `padded_digitsValue`: numbers of a fixed width read back, and
  every text of that many digits is one;
* `ofUnix_unix`: a time of the calendar is found again from its seconds.
-/

namespace TrafficMonitor

/-! ## Days -/

namespace Calendar

def isLeap (y : Nat) : Bool := (y % 4 = 0 && y % 100 ≠ 0) || y % 400 = 0

def yearLength (y : Nat) : Nat := if isLeap y then 366 else 365

/-- The length of the month `m`, from 1 to 12. -/
def monthLength (y m : Nat) : Nat :=
  if m = 2 then if isLeap y then 29 else 28
  else if m = 4 ∨ m = 6 ∨ m = 9 ∨ m = 11 then 30 else 31

def daysBeforeYear : Nat → Nat
  | 0 => 0
  | y + 1 => daysBeforeYear y + yearLength y

/-- The days of the months 1 to `m`. -/
def daysOfMonths (y : Nat) : Nat → Nat
  | 0 => 0
  | m + 1 => daysOfMonths y m + monthLength y (m + 1)

/-- The number of the day `d` of the month `m`; the first day of year 0 has number 0. -/
def dayNumber (y m d : Nat) : Nat := daysBeforeYear y + daysOfMonths y (m - 1) + (d - 1)

theorem daysBeforeYear_succ (y : Nat) :
    daysBeforeYear (y + 1) = 365 * y + 366 + y / 4 - y / 100 + y / 400 := by
  induction y with
  | zero => rfl
  | succ y ih =>
    rw [daysBeforeYear, ih]
    simp only [yearLength, isLeap, Bool.or_eq_true, Bool.and_eq_true, decide_eq_true_eq]
    split <;> omega

theorem daysBeforeYear_epoch : daysBeforeYear 1970 = 719528 := daysBeforeYear_succ 1969

/-- Takes whole periods off `n`, the first of them being number `i`, at most `fuel` of them:
the number of the period that `n` falls into, and what is left. -/
def peel (len : Nat → Nat) : Nat → Nat → Nat → Nat × Nat
  | 0, i, n => (i, n)
  | fuel + 1, i, n => if n < len i then (i, n) else peel len fuel (i + 1) (n - len i)

theorem peel_sum (len : Nat → Nat) (fuel : Nat) {k i r : Nat} (hk : k ≤ fuel) (hr : r < len (i + k)) :
    peel len fuel i (((List.range k).map fun j => len (i + j)).sum + r) = (i + k, r) := by
  induction k generalizing fuel i with
  | zero =>
    cases fuel with
    | zero => simp [peel]
    | succ fuel =>
      rw [Nat.add_zero] at hr
      simp [peel, hr]
  | succ k ih =>
    obtain ⟨fuel, rfl⟩ : ∃ f, fuel = f + 1 := ⟨fuel - 1, by omega⟩
    have e : ((List.range (k + 1)).map fun j => len (i + j)).sum =
        len i + ((List.range k).map fun j => len (i + 1 + j)).sum := by
      rw [List.range_succ_eq_map]
      simp [Function.comp_def, Nat.add_comm, Nat.add_left_comm]
    rw [peel, if_neg (by omega), e]
    have hi : i + 1 + k = i + (k + 1) := by omega
    have hn : len i + ((List.range k).map fun j => len (i + 1 + j)).sum + r - len i =
        ((List.range k).map fun j => len (i + 1 + j)).sum + r := by omega
    rw [hn, ih fuel (by omega) (hi ▸ hr), hi]

theorem daysBeforeYear_eq_sum (y : Nat) :
    daysBeforeYear y = ((List.range y).map fun j => yearLength (0 + j)).sum := by
  induction y with
  | zero => rfl
  | succ y ih => simp [daysBeforeYear, ih, List.range_succ]

theorem daysOfMonths_eq_sum (y m : Nat) :
    daysOfMonths y m = ((List.range m).map fun j => monthLength y (1 + j)).sum := by
  induction m with
  | zero => rfl
  | succ m ih => simp [daysOfMonths, ih, List.range_succ, Nat.add_comm]

/-- A day of the year before the day after its last one. -/
theorem daysOfMonths_add_lt {y m d : Nat} (hm : m < 12) (hd : d < monthLength y (m + 1)) :
    daysOfMonths y m + d < yearLength y := by
  have hm' : m = 0 ∨ m = 1 ∨ m = 2 ∨ m = 3 ∨ m = 4 ∨ m = 5 ∨ m = 6 ∨ m = 7 ∨ m = 8 ∨ m = 9 ∨
      m = 10 ∨ m = 11 := by omega
  rcases hm' with rfl | rfl | rfl | rfl | rfl | rfl | rfl | rfl | rfl | rfl | rfl | rfl <;>
    cases hl : isLeap y <;> simp [daysOfMonths, monthLength, yearLength, hl] at hd ⊢ <;> omega

end Calendar

/-! ## Numbers of a fixed width -/

namespace Bytes

/-- `n` with `k` decimal digits. -/
def padded : Nat → Nat → Bytes
  | 0, _ => []
  | k + 1, n => padded k (n / 10) ++ [UInt8.ofNat (48 + n % 10)]

@[simp] theorem length_padded (k n : Nat) : (padded k n).length = k := by
  induction k generalizing n with
  | zero => rfl
  | succ k ih => simp [padded, ih]

private theorem toNat_digit (n : Nat) : (UInt8.ofNat (48 + n % 10)).toNat = 48 + n % 10 := by
  rw [UInt8.toNat_ofNat']
  omega

theorem isDigit_of_mem_padded {k n : Nat} {b : UInt8} (h : b ∈ padded k n) : isDigit b = true := by
  induction k generalizing n with
  | zero => simp [padded] at h
  | succ k ih =>
    rcases List.mem_append.mp h with h | h
    · exact ih h
    · rw [List.mem_singleton] at h
      subst h
      simp only [isDigit, Bool.and_eq_true, decide_eq_true_eq, UInt8.le_iff_toNat_le, toNat_digit,
        UInt8.reduceToNat]
      omega

theorem digitsValue_snoc (s : Bytes) (b : UInt8) :
    digitsValue (s ++ [b]) = 10 * digitsValue s + (b.toNat - 48) := by
  simp [digitsValue]

theorem digitsValue_padded {k n : Nat} (h : n < 10 ^ k) : digitsValue (padded k n) = n := by
  induction k generalizing n with
  | zero =>
    have : n = 0 := by simpa using h
    subst this
    rfl
  | succ k ih =>
    rw [padded, digitsValue_snoc, ih (by omega), toNat_digit]
    omega

/-- A text of digits is the number it stands for, written with its length. -/
theorem padded_digitsValue {s : Bytes} (h : ∀ c ∈ s, isDigit c = true) :
    padded s.length (digitsValue s) = s := by
  induction s using List.reverseRecOn with
  | nil => rfl
  | append_singleton s b ih =>
    have hb := h b (by simp)
    simp only [isDigit, Bool.and_eq_true, decide_eq_true_eq, UInt8.le_iff_toNat_le,
      UInt8.reduceToNat] at hb
    have hlo : (10 * digitsValue s + (b.toNat - 48)) / 10 = digitsValue s := by omega
    have hhi : 48 + (10 * digitsValue s + (b.toNat - 48)) % 10 = b.toNat := by omega
    rw [List.length_append, List.length_singleton, padded, digitsValue_snoc, hlo, hhi,
      ih fun c hc => h c (by simp [hc])]
    simp

theorem digitsValue_lt {s : Bytes} (h : ∀ c ∈ s, isDigit c = true) :
    digitsValue s < 10 ^ s.length := by
  induction s using List.reverseRecOn with
  | nil => simp [digitsValue]
  | append_singleton s b ih =>
    have hb := h b (by simp)
    have hs := ih fun c hc => h c (by simp [hc])
    simp only [isDigit, Bool.and_eq_true, decide_eq_true_eq, UInt8.le_iff_toNat_le,
      UInt8.reduceToNat] at hb
    rw [digitsValue_snoc, List.length_append, List.length_singleton, Nat.pow_succ]
    omega

end Bytes

/-! ## Times -/

open Bytes

structure Time where
  year : Nat
  month : Nat
  day : Nat
  hour : Nat
  minute : Nat
  second : Nat
  deriving DecidableEq

/-- A date of the calendar with a year of four digits, and a time of that day. -/
structure Time.Valid (t : Time) : Prop where
  year : t.year < 10000
  month : 1 ≤ t.month ∧ t.month ≤ 12
  day : 1 ≤ t.day ∧ t.day ≤ Calendar.monthLength t.year t.month
  hour : t.hour < 24
  minute : t.minute < 60
  second : t.second < 60

/-- Seconds since the beginning of 1970. -/
def Time.unix (t : Time) : Int :=
  ((Calendar.dayNumber t.year t.month t.day : Int) - Calendar.dayNumber 1970 1 1) * 86400 +
    t.hour * 3600 + t.minute * 60 + t.second

/-- `YYYY-MM-DDTHH:MM:SSZ` -/
def Time.text (t : Time) : Bytes :=
  padded 4 t.year ++ ascii "-" ++ padded 2 t.month ++ ascii "-" ++ padded 2 t.day ++
    ascii "T" ++ padded 2 t.hour ++ ascii ":" ++ padded 2 t.minute ++ ascii ":" ++
    padded 2 t.second ++ ascii "Z"

/-- The time that is so many seconds after the beginning of 1970. -/
def Time.ofUnix (x : Int) : Time :=
  let seconds := (x % 86400).toNat
  let (year, n) := Calendar.peel Calendar.yearLength 9999 0
    (x / 86400 + Calendar.dayNumber 1970 1 1).toNat
  let (month, day) := Calendar.peel (Calendar.monthLength year) 12 1 n
  ⟨year, month, day + 1, seconds / 3600, seconds / 60 % 60, seconds % 60⟩

theorem Time.ofUnix_unix {t : Time} (h : t.Valid) : Time.ofUnix t.unix = t := by
  have := h.year
  have hm := h.month
  have hd := h.day
  have := h.hour
  have := h.minute
  have := h.second
  have hdays : (t.unix / 86400 + Calendar.dayNumber 1970 1 1).toNat =
      Calendar.daysBeforeYear t.year +
        (Calendar.daysOfMonths t.year (t.month - 1) + (t.day - 1)) := by
    rw [← Nat.add_assoc]
    change _ = Calendar.dayNumber t.year t.month t.day
    unfold Time.unix
    omega
  have hsecs : (t.unix % 86400).toNat = t.hour * 3600 + t.minute * 60 + t.second := by
    unfold Time.unix
    omega
  have hmonth : t.month - 1 + 1 = t.month := by omega
  have hlt := Calendar.daysOfMonths_add_lt (y := t.year) (m := t.month - 1) (d := t.day - 1)
    (by omega) (by rw [hmonth]; omega)
  have hy := Calendar.peel_sum Calendar.yearLength 9999 (k := t.year) (i := 0)
    (r := Calendar.daysOfMonths t.year (t.month - 1) + (t.day - 1)) (by omega) (by simpa using hlt)
  have hmo := Calendar.peel_sum (Calendar.monthLength t.year) 12
    (k := t.month - 1) (i := 1) (r := t.day - 1) (by omega) (by
      rw [Nat.add_comm, hmonth]
      omega)
  rw [← Calendar.daysBeforeYear_eq_sum] at hy
  rw [← Calendar.daysOfMonths_eq_sum] at hmo
  have hday : t.day - 1 + 1 = t.day := by omega
  have hhour : (t.hour * 3600 + t.minute * 60 + t.second) / 3600 = t.hour := by omega
  have hminute : (t.hour * 3600 + t.minute * 60 + t.second) / 60 % 60 = t.minute := by omega
  have hsecond : (t.hour * 3600 + t.minute * 60 + t.second) % 60 = t.second := by omega
  have hmonth' : 1 + (t.month - 1) = t.month := by omega
  simp only [Time.ofUnix, hdays, hsecs, hy, Nat.zero_add, hmo, hmonth', hday, hhour, hminute,
    hsecond]

end TrafficMonitor
