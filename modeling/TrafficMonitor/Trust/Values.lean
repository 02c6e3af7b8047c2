import TrafficMonitor.Basic.Calendar

/-!
# Versions and expiry times of a delegation (`trust.hpp`, `detail`)

Proved here:

* `parseVersion_eq_some`: the accepted texts are the decimal numbers from 1 up to 10^18;
* `daysFromCivil_eq`: the algorithm counts the days of the calendar;
* `parseTime_eq_some`: the accepted texts are the times from the year 2000 on.
-/

namespace TrafficMonitor.Trust

open Bytes

/-! ## The code -/

def parseVersion (s : Bytes) : Option Nat :=
  if s.isEmpty || 18 < s.length || s.head? = some 48 then none
  else if s.all isDigit then some (digitsValue s) else none

/-- H. Hinnant's algorithm; `m` is an `unsigned`, so `m + -3` wraps around. -/
def daysFromCivil (y : Int) (m d : Nat) : Int :=
  let y := if m ≤ 2 then y - 1 else y
  let era := (if 0 ≤ y then y else y - 399).tdiv 400
  let yoe := (y - era * 400).toNat
  let doy := (153 * ((m + if 2 < m then 4294967296 - 3 else 9) % 4294967296) + 2) / 5 + d - 1
  let doe := yoe * 365 + yoe / 4 - yoe / 100 + doy
  era * 146097 + doe - 719468

/-- The lambda `num` of `parseTime`, on the digits it reads. -/
def num (s : Bytes) : Option Nat := if s.all isDigit then some (digitsValue s) else none

def kDays (m : Nat) : Nat := [31, 29, 31, 30, 31, 30, 31, 31, 30, 31, 30, 31].getD (m - 1) 0

/-- The checks of `parseTime` after the numbers are read. -/
def timeOf (t : Time) : Option Int :=
  if t.year < 2000 || t.month < 1 || 12 < t.month || t.day < 1 || kDays t.month < t.day ||
      23 < t.hour || 59 < t.minute || 59 < t.second then none
  else
    let leap := (t.year % 4 = 0 && t.year % 100 ≠ 0) || t.year % 400 = 0
    if t.month = 2 && t.day = 29 && !leap then none
    else some (daysFromCivil t.year t.month t.day * 86400 + t.hour * 3600 + t.minute * 60 + t.second)

def parseTime (s : Bytes) : Option Int :=
  match s with
  | [y₁, y₂, y₃, y₄, a, o₁, o₂, b, d₁, d₂, c, h₁, h₂, d, i₁, i₂, e, s₁, s₂, f] =>
    if [a, b, c, d, e, f] = ascii "--T::Z" then do
      let y ← num [y₁, y₂, y₃, y₄]
      let mo ← num [o₁, o₂]
      let da ← num [d₁, d₂]
      let h ← num [h₁, h₂]
      let mi ← num [i₁, i₂]
      let se ← num [s₁, s₂]
      timeOf ⟨y, mo, da, h, mi, se⟩
    else none
  | _ => none

/-! ## Versions -/

private theorem decimal_step {n d : Nat} (hn : 0 < n) (hd : d < 10) :
    decimal (10 * n + d) = decimal n ++ decimal d := by
  rw [decimal, ← Nat.toDigits_append_toDigits (by omega) hn hd, List.map_append]
  rfl

private theorem decimal_digit {d : Nat} (hd : d < 10) : decimal d = [UInt8.ofNat (48 + d)] := by
  have : ∀ d < 10, decimal d = [UInt8.ofNat (48 + d)] := by decide
  exact this d hd

theorem decimal_head {n : Nat} (hn : 0 < n) : (decimal n).head? ≠ some 48 := by
  induction n using Nat.strongRecOn with
  | ind n ih =>
    by_cases h : n < 10
    · have : ∀ d < 10, 0 < d → (decimal d).head? ≠ some 48 := by decide
      exact this n h hn
    · have e : decimal n = decimal (n / 10) ++ decimal (n % 10) := by
        rw [← decimal_step (by omega) (by omega), Nat.div_add_mod]
      rw [e, List.head?_append_of_ne_nil _ (decimal_ne_nil _)]
      exact ih (n / 10) (by omega) (by omega)

/-- A number without leading zeros is the decimal of its value. -/
private theorem decimal_digitsValue {s : Bytes} (hs : s ≠ []) (hd : ∀ c ∈ s, isDigit c = true)
    (h0 : s.head? ≠ some 48) : 0 < digitsValue s ∧ decimal (digitsValue s) = s := by
  induction s using List.reverseRecOn with
  | nil => exact absurd rfl hs
  | append_singleton s b ih =>
    have hb := hd b (by simp)
    simp only [isDigit, Bool.and_eq_true, decide_eq_true_eq, UInt8.le_iff_toNat_le,
      UInt8.reduceToNat] at hb
    have hdig : decimal (b.toNat - 48) = [b] := by
      rw [decimal_digit (by omega), Nat.add_sub_of_le hb.1, UInt8.ofNat_toNat]
    rw [digitsValue_snoc]
    by_cases he : s = []
    · subst he
      have hne : b.toNat ≠ 48 := by
        intro h
        have : b = 48 := UInt8.toNat_inj.mp h
        simp [this] at h0
      simp only [digitsValue, List.foldl_nil, Nat.mul_zero, Nat.zero_add, List.nil_append]
      exact ⟨by omega, hdig⟩
    · rw [List.head?_append_of_ne_nil _ he] at h0
      obtain ⟨hv, hs'⟩ := ih he (fun c hc => hd c (by simp [hc])) h0
      refine ⟨by omega, ?_⟩
      rw [decimal_step hv (by omega), hs', hdig]

/-- **Versions.** -/
theorem parseVersion_eq_some {s : Bytes} {n : Nat} :
    parseVersion s = some n ↔ s = decimal n ∧ 1 ≤ n ∧ n < 10 ^ 18 := by
  unfold parseVersion
  constructor
  · intro h
    split at h
    · cases h
    · rename_i hs
      simp only [Bool.or_eq_true, List.isEmpty_iff, decide_eq_true_eq, not_or, not_lt] at hs
      split at h
      · rename_i hd
        cases h
        have hd' := List.all_eq_true.mp hd
        obtain ⟨hpos, e⟩ := decimal_digitsValue hs.1.1 hd' hs.2
        exact ⟨e.symm, hpos, (digitsValue_lt hd').trans_le (Nat.pow_le_pow_right (by omega) hs.1.2)⟩
      · cases h
  · rintro ⟨rfl, hpos, hlt⟩
    have hlen := length_decimal_le (by omega) hlt
    have hd : (decimal n).all isDigit = true := List.all_eq_true.mpr fun c hc =>
      isDigit_of_mem_decimal hc
    rw [if_neg, if_pos hd, digitsValue_decimal]
    simp only [Bool.or_eq_true, List.isEmpty_iff, decide_eq_true_eq, not_or, not_lt]
    exact ⟨⟨decimal_ne_nil n, hlen⟩, decimal_head hpos⟩

/-! ## Times -/

/-- The day of a year that begins in March, from the month and the day. -/
private def dayOfYear (m d : Nat) : Nat :=
  (153 * ((m + if 2 < m then 4294967296 - 3 else 9) % 4294967296) + 2) / 5 + d - 1

/-- Counted in years that begin in March, with the leap day at their end. -/
private theorem daysFromCivil_march {y m : Nat} (d : Nat) {w : Nat}
    (hw : y = if m ≤ 2 then w + 1 else w) : daysFromCivil y m d =
      365 * w + w / 4 - w / 100 + w / 400 + dayOfYear m d - 719468 := by
  have e : (if m ≤ 2 then (y : Int) - 1 else y) = w := by
    split at hw
    · rename_i h
      rw [if_pos h, hw]
      omega
    · rename_i h
      rw [if_neg h, hw]
  simp only [daysFromCivil, e, dayOfYear]
  rw [if_pos (by omega), Int.tdiv_eq_ediv_of_nonneg (by omega)]
  omega

/-- The days of the months before `m`, in years that begin in March and in the calendar. -/
private theorem dayOfYear_eq {y m d : Nat} (hm : 1 ≤ m ∧ m ≤ 12) (hd : 1 ≤ d) :
    dayOfYear m d + (if m ≤ 2 then 0 else 59 + if Calendar.isLeap y then 1 else 0) =
      Calendar.daysOfMonths y (m - 1) + (d - 1) + (if m ≤ 2 then 306 else 0) := by
  have hm' : m = 1 ∨ m = 2 ∨ m = 3 ∨ m = 4 ∨ m = 5 ∨ m = 6 ∨ m = 7 ∨ m = 8 ∨ m = 9 ∨ m = 10 ∨
      m = 11 ∨ m = 12 := by omega
  rcases hm' with rfl | rfl | rfl | rfl | rfl | rfl | rfl | rfl | rfl | rfl | rfl | rfl <;>
    cases hl : Calendar.isLeap y <;>
    simp [dayOfYear, Calendar.daysOfMonths, Calendar.monthLength, hl] <;> omega

theorem daysFromCivil_eq {y m d : Nat} (hy : 1 ≤ y) (hm : 1 ≤ m ∧ m ≤ 12) (hd : 1 ≤ d) :
    daysFromCivil y m d = (Calendar.dayNumber y m d : Int) - Calendar.dayNumber 1970 1 1 := by
  obtain ⟨z, rfl⟩ := Nat.exists_eq_add_of_le' hy
  have hz := Calendar.daysBeforeYear_succ z
  have he : Calendar.dayNumber 1970 1 1 = 719528 := by
    rw [Calendar.dayNumber, Calendar.daysBeforeYear_epoch]
    rfl
  have hdoy := dayOfYear_eq (y := z + 1) hm hd
  rw [he, Calendar.dayNumber, hz]
  by_cases h2 : m ≤ 2
  · rw [daysFromCivil_march d (w := z) (by simp [h2])]
    simp only [h2, ↓reduceIte] at hdoy
    omega
  · rw [daysFromCivil_march d (w := z + 1) (by simp [h2])]
    simp only [h2, ↓reduceIte, Calendar.isLeap, Bool.or_eq_true, Bool.and_eq_true,
      decide_eq_true_eq] at hdoy
    split at hdoy <;> omega

/-- The table of month lengths, with the check for the 29th of February after it. -/
private theorem kDays_iff {y m d : Nat} (hm : 1 ≤ m ∧ m ≤ 12) :
    (d ≤ kDays m ∧ ¬(m = 2 ∧ d = 29 ∧ Calendar.isLeap y = false)) ↔
      d ≤ Calendar.monthLength y m := by
  have hm' : m = 1 ∨ m = 2 ∨ m = 3 ∨ m = 4 ∨ m = 5 ∨ m = 6 ∨ m = 7 ∨ m = 8 ∨ m = 9 ∨ m = 10 ∨
      m = 11 ∨ m = 12 := by omega
  rcases hm' with rfl | rfl | rfl | rfl | rfl | rfl | rfl | rfl | rfl | rfl | rfl | rfl <;>
    cases hl : Calendar.isLeap y <;> simp [kDays, Calendar.monthLength, hl]
  omega

/-- The checks accept the dates of the calendar from the year 2000 on. -/
private theorem timeOf_eq_some {t : Time} {x : Int} (hy : t.year < 10000) :
    timeOf t = some x ↔ t.Valid ∧ 2000 ≤ t.year ∧ x = t.unix := by
  have hleap : ((t.year % 4 = 0 && t.year % 100 ≠ 0) || t.year % 400 = 0) =
      Calendar.isLeap t.year := rfl
  constructor
  · intro h
    unfold timeOf at h
    split at h
    · cases h
    · rename_i hc
      simp only [Bool.or_eq_true, decide_eq_true_eq, not_or, not_lt] at hc
      simp only [hleap] at h
      split at h
      · cases h
      · rename_i hf
        cases h
        have hm : 1 ≤ t.month ∧ t.month ≤ 12 := by omega
        have hd := (kDays_iff (y := t.year) (d := t.day) hm).mp
          ⟨by omega, by simpa [and_assoc] using hf⟩
        refine ⟨⟨hy, hm, ⟨by omega, hd⟩, by omega, by omega, by omega⟩, by omega, ?_⟩
        rw [Time.unix, daysFromCivil_eq (y := t.year) (d := t.day) (by omega) hm (by omega)]
  · rintro ⟨hv, h2, hx⟩
    rw [hx]
    obtain ⟨hd, hf⟩ := (kDays_iff hv.month).mpr hv.day.2
    have := hv.month
    have := hv.day
    have := hv.hour
    have := hv.minute
    have := hv.second
    unfold timeOf
    rw [if_neg]
    · simp only [hleap]
      rw [if_neg (by simpa [and_assoc] using hf), Time.unix,
        daysFromCivil_eq (y := t.year) (d := t.day) (by omega) hv.month (by omega)]
    · simp only [Bool.or_eq_true, decide_eq_true_eq, not_or, not_lt]
      omega

private theorem num_padded {k n : Nat} (h : n < 10 ^ k) : num (padded k n) = some n := by
  rw [num, if_pos (List.all_eq_true.mpr fun c hc => isDigit_of_mem_padded hc), digitsValue_padded h]

private theorem num_eq_some {s : Bytes} {n : Nat} (h : num s = some n) :
    padded s.length n = s ∧ n < 10 ^ s.length := by
  unfold num at h
  split at h
  · rename_i hd
    cases h
    exact ⟨padded_digitsValue (List.all_eq_true.mp hd), digitsValue_lt (List.all_eq_true.mp hd)⟩
  · cases h

private theorem parseTime_text {t : Time} (h : t.Valid) : parseTime t.text = timeOf t := by
  have h4 := num_padded (k := 4) h.year
  have h2 : ∀ n < 100, num (padded 2 n) = some n := fun n hn => num_padded hn
  have hmo := h2 t.month (by have := h.month; omega)
  have hda := h2 t.day (by
    have := h.day
    have : Calendar.monthLength t.year t.month ≤ 31 := by
      unfold Calendar.monthLength
      split_ifs <;> omega
    omega)
  have hho := h2 t.hour (by have := h.hour; omega)
  have hmi := h2 t.minute (by have := h.minute; omega)
  have hse := h2 t.second (by have := h.second; omega)
  simp only [padded, List.nil_append, List.cons_append] at h4 hmo hda hho hmi hse
  simp [-UInt8.ofNat_add, Time.text, padded, ascii, parseTime, h4, hmo, hda, hho, hmi, hse]

/-- **Times.** -/
theorem parseTime_eq_some {s : Bytes} {x : Int} :
    parseTime s = some x ↔ ∃ t : Time, t.Valid ∧ 2000 ≤ t.year ∧ s = t.text ∧ x = t.unix := by
  constructor
  · intro h
    unfold parseTime at h
    split at h
    · rename_i y₁ y₂ y₃ y₄ a o₁ o₂ b d₁ d₂ c h₁ h₂ d i₁ i₂ e s₁ s₂ f
      split at h
      · rename_i hsep
        simp only [Option.bind_eq_bind, Option.bind_eq_some_iff] at h
        obtain ⟨y, hy, mo, hmo, da, hda, ho, hho, mi, hmi, se, hse, h⟩ := h
        obtain ⟨ey, ly⟩ := num_eq_some hy
        have ly' : y < 10000 := by simpa using ly
        obtain ⟨hv, h2, hx⟩ := (timeOf_eq_some (t := ⟨y, mo, da, ho, mi, se⟩) ly').mp h
        refine ⟨_, hv, h2, ?_, hx⟩
        have emo := (num_eq_some hmo).1
        have eda := (num_eq_some hda).1
        have eho := (num_eq_some hho).1
        have emi := (num_eq_some hmi).1
        have ese := (num_eq_some hse).1
        simp only [List.length_cons, List.length_nil, Nat.zero_add, Nat.reduceAdd] at ey emo eda eho emi ese
        rw [show ascii "--T::Z" = [45, 45, 84, 58, 58, 90] by decide] at hsep
        simp only [List.cons.injEq, and_true] at hsep
        simp [Time.text, ey, emo, eda, eho, emi, ese, hsep, ascii]
      · cases h
    · cases h
  · rintro ⟨t, hv, h2, hs, hx⟩
    rw [hs, parseTime_text hv]
    exact (timeOf_eq_some hv.year).mpr ⟨hv, h2, hx⟩

end TrafficMonitor.Trust
