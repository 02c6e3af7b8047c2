import TrafficMonitor.Basic.NetOrder
import TrafficMonitor.Trust.Values

/-!
# The order of times

The texts of times have fields of fixed widths, the most significant first, so they are ordered
as the times are.

Proved here:

* `dayNumber_lt`: later dates have larger numbers;
* `text_lt_iff_unix_lt`: texts of times are ordered as their seconds;
* `parseTime_spec`: what `parseTime` accepts, what it returns, and that this is monotone.
-/

namespace TrafficMonitor.Trust

open Bytes

/-! ## Dates -/

theorem daysBeforeYear_le {y z : Nat} (h : y ≤ z) :
    Calendar.daysBeforeYear y ≤ Calendar.daysBeforeYear z := by
  induction h with
  | refl => exact Nat.le_refl _
  | step _ ih => exact Nat.le_trans ih (Nat.le_add_right _ _)

theorem daysOfMonths_le (y : Nat) {m n : Nat} (h : m ≤ n) :
    Calendar.daysOfMonths y m ≤ Calendar.daysOfMonths y n := by
  induction h with
  | refl => exact Nat.le_refl _
  | step _ ih => exact Nat.le_trans ih (Nat.le_add_right _ _)

/-- `s` is on an earlier day than `t`. -/
def EarlierDay (s t : Time) : Prop :=
  s.year < t.year ∨ (s.year = t.year ∧ (s.month < t.month ∨ (s.month = t.month ∧ s.day < t.day)))

/-- **Dates.** An earlier day has a smaller number. -/
theorem dayNumber_lt {s t : Time} (hs : s.Valid) (h : EarlierDay s t) :
    Calendar.dayNumber s.year s.month s.day < Calendar.dayNumber t.year t.month t.day := by
  have hm := hs.month
  have hd := hs.day
  have hmonth : s.month - 1 + 1 = s.month := by omega
  unfold Calendar.dayNumber
  rcases h with hy | ⟨hy, hmo | ⟨hmo, hday⟩⟩
  · -- the whole year of `s` lies before `t`
    have hin := Calendar.daysOfMonths_add_lt (y := s.year) (m := s.month - 1) (d := s.day - 1)
      (by omega) (by rw [hmonth]; omega)
    have hle := daysBeforeYear_le (y := s.year + 1) (z := t.year) (by omega)
    rw [Calendar.daysBeforeYear] at hle
    omega
  · -- the whole month of `s` lies before `t`
    have hle := daysOfMonths_le t.year (m := s.month - 1 + 1) (n := t.month - 1) (by omega)
    rw [Calendar.daysOfMonths, hmonth, ← hy] at hle
    rw [← hy]
    omega
  · rw [hy, hmo]
    omega

theorem EarlierDay.unix_lt {s t : Time} (hs : s.Valid) (h : EarlierDay s t) : s.unix < t.unix := by
  have := hs.hour
  have := hs.minute
  have := hs.second
  have := dayNumber_lt hs h
  unfold Time.unix
  omega

/-- `s` is earlier on the same day. -/
def EarlierSameDay (s t : Time) : Prop :=
  s.year = t.year ∧ s.month = t.month ∧ s.day = t.day ∧
    (s.hour < t.hour ∨ (s.hour = t.hour ∧
      (s.minute < t.minute ∨ (s.minute = t.minute ∧ s.second < t.second))))

theorem EarlierSameDay.unix_lt {s t : Time} (hs : s.Valid) (h : EarlierSameDay s t) :
    s.unix < t.unix := by
  obtain ⟨hy, hm, hd, h⟩ := h
  have := hs.minute
  have := hs.second
  unfold Time.unix
  rw [hy, hm, hd]
  omega

/-! ## Texts -/

theorem padded_inj {k n m : Nat} (hn : n < 10 ^ k) (hm : m < 10 ^ k) :
    padded k n = padded k m ↔ n = m := by
  constructor
  · intro h
    rw [← digitsValue_padded hn, h, digitsValue_padded hm]
  · rintro rfl
    rfl

theorem lexLt_padded {k n m : Nat} (hn : n < 10 ^ k) (hm : m < 10 ^ k) :
    lexLt (padded k n) (padded k m) = true ↔ n < m := by
  induction k generalizing n m with
  | zero =>
    have hn0 : n = 0 := by simpa using hn
    have hm0 : m = 0 := by simpa using hm
    simp [hn0, hm0]
  | succ k ih =>
    have hdigit : lexLt [UInt8.ofNat (48 + n % 10)] [UInt8.ofNat (48 + m % 10)] = true ↔
        n % 10 < m % 10 := by
      simp only [lexLt, Bool.and_false, Bool.or_false, decide_eq_true_eq, UInt8.lt_iff_toNat_lt,
        UInt8.toNat_ofNat']
      omega
    rw [padded, padded, lexLt_append (by simp), ih (by omega) (by omega), hdigit,
      padded_inj (by omega) (by omega)]
    omega

/-- A number of a fixed width is compared before what follows it. -/
theorem lexLt_padded_append {k n m : Nat} (hn : n < 10 ^ k) (hm : m < 10 ^ k) (s t : Bytes) :
    lexLt (padded k n ++ s) (padded k m ++ t) = true ↔ n < m ∨ (n = m ∧ lexLt s t = true) := by
  rw [lexLt_append (by simp), lexLt_padded hn hm, padded_inj hn hm]

/-- A separator that both texts have decides nothing. -/
theorem lexLt_same_append (a s t : Bytes) : lexLt (a ++ s) (a ++ t) = true ↔ lexLt s t = true := by
  rw [lexLt_append rfl, lexLt_self]
  simp

theorem Valid.widths {t : Time} (h : t.Valid) : t.year < 10 ^ 4 ∧ t.month < 10 ^ 2 ∧
    t.day < 10 ^ 2 ∧ t.hour < 10 ^ 2 ∧ t.minute < 10 ^ 2 ∧ t.second < 10 ^ 2 := by
  have := h.year
  have := h.month
  have hday := h.day
  have := h.hour
  have := h.minute
  have := h.second
  have hlen : Calendar.monthLength t.year t.month ≤ 31 := by
    unfold Calendar.monthLength
    split
    · split <;> omega
    · split <;> omega
  omega

theorem text_lt_iff {s t : Time} (hs : s.Valid) (ht : t.Valid) :
    lexLt s.text t.text = true ↔ EarlierDay s t ∨ EarlierSameDay s t := by
  obtain ⟨hy, hmo, hd, hh, hmi, hse⟩ := Valid.widths hs
  obtain ⟨hy', hmo', hd', hh', hmi', hse'⟩ := Valid.widths ht
  simp only [Time.text, List.append_assoc]
  rw [lexLt_padded_append hy hy', lexLt_same_append, lexLt_padded_append hmo hmo',
    lexLt_same_append, lexLt_padded_append hd hd', lexLt_same_append, lexLt_padded_append hh hh',
    lexLt_same_append, lexLt_padded_append hmi hmi', lexLt_same_append,
    lexLt_padded_append hse hse', lexLt_self]
  unfold EarlierDay EarlierSameDay
  grind

/-- **Order.** Texts of times are ordered as their seconds. -/
theorem text_lt_iff_unix_lt {s t : Time} (hs : s.Valid) (ht : t.Valid) :
    lexLt s.text t.text = true ↔ s.unix < t.unix := by
  rw [text_lt_iff hs ht]
  constructor
  · rintro (h | h)
    · exact h.unix_lt hs
    · exact h.unix_lt hs
  · intro h
    by_contra hnot
    -- otherwise the times are equal or the other one is earlier
    have hcases : s = t ∨ EarlierDay t s ∨ EarlierSameDay t s := by
      unfold EarlierDay EarlierSameDay at hnot ⊢
      rw [Time.mk.injEq]
      omega
    rcases hcases with rfl | hrev | hrev
    · exact absurd h (Int.lt_irrefl _)
    · exact absurd h (Int.not_lt.mpr (Int.le_of_lt (hrev.unix_lt ht)))
    · exact absurd h (Int.not_lt.mpr (Int.le_of_lt (hrev.unix_lt ht)))

/-- **Timestamps.** The accepted texts are the times of the calendar from the year 2000 on, the
result is the count of seconds, and both are ordered alike. -/
theorem parseTime_spec :
    (∀ s x, parseTime s = some x ↔
      ∃ t : Time, t.Valid ∧ 2000 ≤ t.year ∧ s = t.text ∧ x = t.unix) ∧
    ∀ s₁ s₂ x₁ x₂, parseTime s₁ = some x₁ → parseTime s₂ = some x₂ →
      (lexLt s₁ s₂ = true ↔ x₁ < x₂) := by
  refine ⟨fun s x => parseTime_eq_some, fun s₁ s₂ x₁ x₂ h₁ h₂ => ?_⟩
  obtain ⟨t₁, hv₁, -, hs₁, hx₁⟩ := parseTime_eq_some.mp h₁
  obtain ⟨t₂, hv₂, -, hs₂, hx₂⟩ := parseTime_eq_some.mp h₂
  rw [hs₁, hs₂, hx₁, hx₂]
  exact text_lt_iff_unix_lt hv₁ hv₂

end TrafficMonitor.Trust
