import TrafficMonitor.System.HealthLine

/-!
# The drop percentages of the summary

`buildSummaryJson` shows the counters of a health line with two percentages, that `fmtPct` computes
in 64 bits. Proved here:

* `percentText_injective`: different hundredths have different texts;
* `fmtPct_exact_iff`: a text of `fmtPct` is exact unless its product wraps around;
* `percentages_iff`: for which counters both percentages are exact.
-/

namespace TrafficMonitor.Health

open Bytes

def DOT : UInt8 := 46

/-- The text of a number of hundredths. -/
def percentText (pct100 : Nat) : Bytes :=
  decimal (pct100 / 100) ++
    DOT :: ((if pct100 % 100 < 10 then ascii "0" else []) ++ decimal (pct100 % 100))

/-- `num * 10000ULL`. -/
def scaled (num : Nat) : Nat := num * 10000 % 2 ^ 64

def fmtPct (num denom : Nat) : Bytes :=
  if denom = 0 then ascii "0.00" else percentText (scaled num / denom)

def pcapTotal (hs : ClientHealthStats) : Nat := (hs.pcapRecv + hs.pcapDrop) % 2 ^ 64

/-- The text under `pcap_drop_pct`. -/
def pcapDropPct (hs : ClientHealthStats) : Bytes := fmtPct hs.pcapDrop (pcapTotal hs)

/-- The text under `buf_drop_pct`. -/
def bufDropPct (hs : ClientHealthStats) : Bytes := fmtPct hs.bufDrop hs.pcapRecv

/-! ## Texts -/

theorem digitsValue_fraction (f : Nat) :
    digitsValue ((if f < 10 then ascii "0" else []) ++ decimal f) = f := by
  split
  · rw [digitsValue, List.foldl_append]
    exact digitsValue_decimal f
  · exact digitsValue_decimal f

theorem percentText_injective {p q : Nat} (h : percentText p = percentText q) : p = q := by
  have hdot (n : Nat) : DOT ∉ decimal n := not_mem_decimal (by decide) n
  have hp := Lines.cut_append DOT (decimal (p / 100))
    ((if p % 100 < 10 then ascii "0" else []) ++ decimal (p % 100)) (hdot _)
  have hq := Lines.cut_append DOT (decimal (q / 100))
    ((if q % 100 < 10 then ascii "0" else []) ++ decimal (q % 100)) (hdot _)
  rw [← percentText, h, percentText, hq, Option.some.injEq, Prod.mk.injEq] at hp
  have hwhole := congrArg digitsValue hp.1
  have hfraction := congrArg digitsValue hp.2
  rw [digitsValue_decimal, digitsValue_decimal] at hwhole
  rw [digitsValue_fraction, digitsValue_fraction] at hfraction
  omega

theorem percentText_zero : percentText 0 = ascii "0.00" := by decide +kernel

/-- A product that wraps around changes the quotient by any divisor of 64 bits. -/
theorem scaled_div_eq_iff {num denom : Nat} (hpos : 0 < denom) (hd : denom < 2 ^ 64) :
    scaled num / denom = 10000 * num / denom ↔ num * 10000 < 2 ^ 64 := by
  rw [scaled, Nat.mul_comm 10000]
  refine ⟨fun h => ?_, fun h => by rw [Nat.mod_eq_of_lt h]⟩
  by_contra hge
  have hle : num * 10000 % 2 ^ 64 + denom ≤ num * 10000 := by omega
  have := Nat.div_le_div_right (c := denom) hle
  rw [Nat.add_div_right _ hpos] at this
  omega

theorem fmtPct_exact_iff {num denom : Nat} (hd : denom < 2 ^ 64) :
    fmtPct num denom = percentText (10000 * num / denom) ↔
      denom = 0 ∨ num ≤ 1844674407370955 := by
  rw [fmtPct]
  split
  next h =>
    subst h
    simp [percentText_zero]
  next h =>
    have hiff : scaled num / denom = 10000 * num / denom ↔ num * 10000 < 2 ^ 64 :=
      scaled_div_eq_iff (Nat.pos_of_ne_zero h) hd
    constructor
    · intro htext
      have := hiff.mp (percentText_injective htext)
      omega
    · intro hle
      rw [hiff.mpr (by omega)]

/-! ## Counters -/

theorem stoull_lt {s : Bytes} {n : Nat} (h : stoull s = some n) : n < 2 ^ 64 := by
  unfold stoull at h
  extract_lets t neg ds at h
  by_cases hds : ds = []
  · rw [if_pos hds] at h
    cases h
  · rw [if_neg hds] at h
    by_cases hv : 2 ^ 64 ≤ digitsValue ds
    · rw [if_pos hv] at h
      cases h
    · rw [if_neg hv, Option.some.injEq] at h
      split at h <;> omega

theorem toU64_lt {dst : Nat} (h : dst < 2 ^ 64) (val : Bytes) : toU64 val dst < 2 ^ 64 := by
  rw [toU64]
  cases hs : stoull val with
  | none => exact h
  | some n => exact stoull_lt hs

/-- The counters have 64 bits. -/
structure Counted (hs : ClientHealthStats) : Prop where
  pcapRecv : hs.pcapRecv < 2 ^ 64
  pcapDrop : hs.pcapDrop < 2 ^ 64
  bufDrop : hs.bufDrop < 2 ^ 64

theorem counted_set {hs : ClientHealthStats} (h : Counted hs) (k : Key) (val : Bytes) :
    Counted (k.set val hs) := by
  cases k with
  | pcap_recv => exact ⟨toU64_lt h.pcapRecv val, h.pcapDrop, h.bufDrop⟩
  | pcap_drop => exact ⟨h.pcapRecv, toU64_lt h.pcapDrop val, h.bufDrop⟩
  | buf_drop => exact ⟨h.pcapRecv, h.pcapDrop, toU64_lt h.bufDrop val⟩
  | _ => exact ⟨h.pcapRecv, h.pcapDrop, h.bufDrop⟩

theorem counted_applyToken {hs : ClientHealthStats} (h : Counted hs) (token : Bytes) :
    Counted (applyToken hs token) := by
  unfold applyToken
  split
  · exact h
  · split
    · exact h
    · split
      · exact h
      · exact counted_set h _ _

theorem counted_foldl {hs : ClientHealthStats} (h : Counted hs) (ts : List Bytes) :
    Counted (ts.foldl applyToken hs) := by
  induction ts generalizing hs with
  | nil => exact h
  | cons t ts ih => exact ih (counted_applyToken h t)

theorem counted_parseHealthLine (body : Bytes) : Counted (parseHealthLine body) :=
  counted_foldl ⟨by decide, by decide, by decide⟩ _

/-! ## The percentages -/

/-- A percentage of `n` in `d`, shown with the denominator that the code computed for `d`:
nothing wraps around, the text is that of the rounded quotient, and a part is at most 100.00. -/
structure ExactPct (n d denom : Nat) : Prop where
  sum : denom = d
  product : denom ≠ 0 → scaled n = n * 10000
  text : fmtPct n denom = percentText (10000 * n / d)
  part : n ≤ d → denom ≠ 0 → scaled n / denom ≤ 10000

theorem exactPct_iff {n d denom : Nat} (hd : denom < 2 ^ 64) :
    ExactPct n d denom ↔ denom = d ∧ (d = 0 ∨ n ≤ 1844674407370955) := by
  constructor
  · intro h
    obtain rfl := h.sum
    exact ⟨rfl, (fmtPct_exact_iff hd).mp h.text⟩
  · rintro ⟨rfl, hn⟩
    have hproduct : denom ≠ 0 → scaled n = n * 10000 := fun h0 =>
      Nat.mod_eq_of_lt (by omega)
    refine ⟨rfl, hproduct, (fmtPct_exact_iff hd).mpr hn, fun hle h0 => ?_⟩
    rw [hproduct h0]
    calc n * 10000 / denom ≤ denom * 10000 / denom :=
          Nat.div_le_div_right (Nat.mul_le_mul_right 10000 hle)
      _ = 10000 := Nat.mul_div_cancel_left 10000 (Nat.pos_of_ne_zero h0)

/-- Both percentages of a health line in the summary are exact. -/
structure ExactPercentages (hs : ClientHealthStats) : Prop where
  pcap : ExactPct hs.pcapDrop (hs.pcapRecv + hs.pcapDrop) (pcapTotal hs)
  buf : ExactPct hs.bufDrop hs.pcapRecv hs.pcapRecv

/-- **The percentages** of any health line are exact if and only if its counters are so small that
no product and no sum wraps around. -/
theorem percentages_iff (body : Bytes) :
    ExactPercentages (parseHealthLine body) ↔
      (parseHealthLine body).pcapDrop ≤ 1844674407370955 ∧
        (parseHealthLine body).pcapRecv + (parseHealthLine body).pcapDrop < 2 ^ 64 ∧
        ((parseHealthLine body).pcapRecv = 0 ∨
          (parseHealthLine body).bufDrop ≤ 1844674407370955) := by
  have hc := counted_parseHealthLine body
  generalize parseHealthLine body = hs at hc
  have htotal : pcapTotal hs < 2 ^ 64 := Nat.mod_lt _ (by decide)
  have hsum : pcapTotal hs = hs.pcapRecv + hs.pcapDrop ↔ hs.pcapRecv + hs.pcapDrop < 2 ^ 64 :=
    ⟨fun h => h ▸ htotal, fun h => Nat.mod_eq_of_lt h⟩
  constructor
  · intro h
    obtain ⟨htot, hdrop⟩ := (exactPct_iff htotal).mp h.pcap
    obtain ⟨-, hbuf⟩ := (exactPct_iff hc.pcapRecv).mp h.buf
    exact ⟨by omega, hsum.mp htot, hbuf⟩
  · rintro ⟨hdrop, hlt, hbuf⟩
    exact ⟨(exactPct_iff htotal).mpr ⟨hsum.mpr hlt, .inr hdrop⟩,
      (exactPct_iff hc.pcapRecv).mpr ⟨rfl, hbuf⟩⟩

/-- Every packet dropped and shown as `0.00`; a sum that wraps around and more than `100.00`. -/
theorem percentages_wrap :
    pcapDropPct (parseHealthLine (ascii "pcap_recv=0 pcap_drop=1844674407370956")) =
        ascii "0.00" ∧
      percentText (10000 * 1844674407370956 / (0 + 1844674407370956)) = ascii "100.00" ∧
      bufDropPct (parseHealthLine (ascii "pcap_recv=1844674407370956 buf_drop=1844674407370956")) =
        ascii "0.00" ∧
      pcapDropPct (parseHealthLine (ascii "pcap_recv=18446744073709551615 pcap_drop=1000")) =
        ascii "100.10" ∧
      ¬ ExactPercentages (parseHealthLine (ascii "pcap_recv=0 pcap_drop=1844674407370956")) := by
  have hproduct :
      pcapTotal (parseHealthLine (ascii "pcap_recv=0 pcap_drop=1844674407370956")) ≠ 0 ∧
        scaled (parseHealthLine (ascii "pcap_recv=0 pcap_drop=1844674407370956")).pcapDrop ≠
          (parseHealthLine (ascii "pcap_recv=0 pcap_drop=1844674407370956")).pcapDrop * 10000 := by
    decide +kernel
  exact ⟨by decide +kernel, by decide +kernel, by decide +kernel, by decide +kernel,
    fun h => hproduct.2 (h.pcap.product hproduct.1)⟩

end TrafficMonitor.Health
