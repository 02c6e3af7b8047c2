import Mathlib.Tactic.Common
import TrafficMonitor.Basic.Bytes

/-!
# Texts in UTF-8

A byte string is UTF-8 when it is the encoding of a list of characters. Proved here:

* `utf8_split`: at a byte below 128 a text can be cut, and both parts are UTF-8 exactly when
  the whole is;
* `utf8_append_ascii`: the same for a separator of several such bytes.
-/

namespace TrafficMonitor.Bytes

/-- The text is the UTF-8 encoding of some characters. -/
def Utf8 (s : Bytes) : Prop := ∃ cs : List Char, cs.flatMap String.utf8EncodeChar = s

theorem utf8_nil : Utf8 [] := ⟨[], rfl⟩

theorem Utf8.append {a b : Bytes} (ha : Utf8 a) (hb : Utf8 b) : Utf8 (a ++ b) := by
  obtain ⟨cs, rfl⟩ := ha
  obtain ⟨ds, rfl⟩ := hb
  exact ⟨cs ++ ds, List.flatMap_append⟩

/-- A character is one byte below 128, or several bytes from 128 on. -/
theorem utf8EncodeChar_cases (ch : Char) :
    (∃ c < 128, String.utf8EncodeChar ch = [c]) ∨
      (String.utf8EncodeChar ch ≠ [] ∧ ∀ b ∈ String.utf8EncodeChar ch, 128 ≤ b) := by
  have hbyte : ∀ {n : Nat}, 128 ≤ n → n < 256 → 128 ≤ UInt8.ofNat n := by
    intro n hlo hhi
    rw [UInt8.le_iff_toNat_le, UInt8.toNat_ofNat_of_lt' hhi]
    exact hlo
  fun_cases String.utf8EncodeChar
  next v hv =>
    refine .inl ⟨_, ?_, rfl⟩
    rw [UInt8.lt_iff_toNat_lt, UInt8.toNat_ofNat_of_lt' (by simp only [UInt8.size]; omega)]
    simp only [UInt8.reduceToNat]
    omega
  all_goals
    refine .inr ⟨List.cons_ne_nil _ _, fun b hb => ?_⟩
    simp only [List.mem_cons, List.not_mem_nil, or_false] at hb
    rcases hb with rfl | rfl | rfl | rfl <;> exact hbyte (by omega) (by omega)

theorem utf8_singleton {c : UInt8} (h : c < 128) : Utf8 [c] := by
  have hn : c.toNat < 128 := by simpa [UInt8.lt_iff_toNat_lt] using h
  have hv : (Char.ofNat c.toNat).val.toNat = c.toNat := by
    have hvalid : c.toNat.isValidChar := .inl (by omega)
    rw [Char.ofNat, dif_pos hvalid]
    rfl
  refine ⟨[Char.ofNat c.toNat], ?_⟩
  rw [List.flatMap_singleton, String.utf8EncodeChar]
  simp only [hv, if_pos (show c.toNat ≤ 127 by omega), UInt8.ofNat_toNat]

/-- **A cut at a byte below 128.** -/
theorem utf8_split {c : UInt8} (h : c < 128) (a b : Bytes) :
    Utf8 (a ++ c :: b) ↔ Utf8 a ∧ Utf8 b := by
  constructor
  · rintro ⟨cs, hcs⟩
    induction cs generalizing a with
    | nil => simp at hcs
    | cons ch cs ih =>
      rw [List.flatMap_cons] at hcs
      rcases List.append_eq_append_iff.mp hcs with ⟨a', ha, hrest⟩ | ⟨d, hd, hrest⟩
      · obtain ⟨ha', hb⟩ := ih a' hrest
        exact ⟨ha ▸ Utf8.append ⟨[ch], List.flatMap_singleton _ _⟩ ha', hb⟩
      · -- the cut is inside this character, so the character is the one byte
        cases d with
        | nil =>
          obtain ⟨ha', hb⟩ := ih [] hrest.symm
          rw [List.append_nil] at hd
          exact ⟨⟨[ch], by rw [List.flatMap_singleton, hd]⟩, hb⟩
        | cons e d =>
          obtain ⟨rfl, hb⟩ := List.cons.inj hrest
          rcases utf8EncodeChar_cases ch with ⟨x, -, hx⟩ | ⟨-, hall⟩
          · rw [hx] at hd
            cases a with
            | nil =>
              obtain ⟨rfl, hnil⟩ := List.cons.inj hd
              refine ⟨utf8_nil, ⟨cs, ?_⟩⟩
              rw [hb, ← hnil]
              rfl
            | cons y a =>
              have := congrArg List.length hd
              simp at this
          · have hc := hall c (by simp [hd])
            exact absurd h (UInt8.not_lt.mpr hc)
  · rintro ⟨ha, hb⟩
    exact ha.append ((utf8_singleton h).append hb)

/-- A separator of bytes below 128. -/
theorem utf8_append_ascii {sep : Bytes} (hsep : ∀ c ∈ sep, c < 128) (hne : sep ≠ []) (a b : Bytes) :
    Utf8 (a ++ (sep ++ b)) ↔ Utf8 a ∧ Utf8 b := by
  induction sep generalizing a with
  | nil => exact absurd rfl hne
  | cons c sep ih =>
    have hc := hsep c (by simp)
    rw [List.cons_append, utf8_split hc]
    by_cases he : sep = []
    · rw [he, List.nil_append]
    · have := ih (fun d hd => hsep d (by simp [hd])) he []
      rw [List.nil_append] at this
      rw [this]
      exact ⟨fun h => ⟨h.1, h.2.2⟩, fun h => ⟨h.1, utf8_nil, h.2⟩⟩

/-- Bytes below 128 before a text. -/
theorem utf8_ascii_append {s : Bytes} (hs : ∀ c ∈ s, c < 128) (b : Bytes) :
    Utf8 (s ++ b) ↔ Utf8 b := by
  induction s with
  | nil => rfl
  | cons c s ih =>
    have h := utf8_split (hs c (by simp)) [] (s ++ b)
    rw [List.nil_append] at h
    rw [List.cons_append, h, ih fun d hd => hs d (by simp [hd])]
    exact ⟨fun h => h.2, fun h => ⟨utf8_nil, h⟩⟩

theorem utf8_of_ascii {s : Bytes} (hs : ∀ c ∈ s, c < 128) : Utf8 s := by
  have h := utf8_ascii_append hs []
  rw [List.append_nil] at h
  exact h.mpr utf8_nil

end TrafficMonitor.Bytes
