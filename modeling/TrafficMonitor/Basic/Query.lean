import Mathlib.Data.List.Basic
import Mathlib.Tactic.Common
import TrafficMonitor.Basic.Lines
import TrafficMonitor.Basic.Bytes

/-!
# Query strings

The parameters of a request, as they are read from the text behind the question mark: pieces
between ampersands, of each the name up to the first equals sign, and the value behind it.

Proved here:

* `decode_of_plain`: a text without special characters is decoded to itself;
* `lookup_parse_text`: what was written as a parameter is read as that parameter.
-/

namespace TrafficMonitor.Query

open Bytes

def AMP : UInt8 := 38
def EQ : UInt8 := 61
def PERCENT : UInt8 := 37
def PLUS : UInt8 := 43

/-! ## Reading -/

def hexDigitValue (c : UInt8) : Option Nat :=
  if 48 ≤ c && c ≤ 57 then some (c.toNat - 48)
  else if 65 ≤ c && c ≤ 70 then some (c.toNat - 55)
  else if 97 ≤ c && c ≤ 102 then some (c.toNat - 87)
  else none

def isSpaceByte (c : UInt8) : Bool := c = SP || (9 ≤ c && c ≤ 13)

/-- `strtoul` of two bytes in base 16, if it takes both: blanks and a sign may stand in front. -/
def hexPair (a b : UInt8) : Option UInt8 := do
  let lo ← hexDigitValue b
  match hexDigitValue a with
  | some hi => some (UInt8.ofNat (16 * hi + lo))
  | none =>
    if isSpaceByte a || a = PLUS then some (UInt8.ofNat lo)
    else if a = 45 then some (0 - UInt8.ofNat lo)
    else none

/-- `decode_query_component` -/
def decode : Bytes → Bytes
  | [] => []
  | c :: a :: b :: s =>
    if c = PERCENT then match hexPair a b with
      | some v => v :: decode s
      | none => c :: decode (a :: b :: s)
    else (if c = PLUS then SP else c) :: decode (a :: b :: s)
  | c :: s => (if c = PLUS then SP else c) :: decode s

def isBlank (c : UInt8) : Bool := c = SP || c = TAB

def trim (s : Bytes) : Bytes := trimRight isBlank (s.dropWhile isBlank)

/-- `split`, which trims the pieces and leaves out the empty ones. -/
def pieces (s : Bytes) : List Bytes := ((s.splitOn AMP).map trim).filter (· ≠ [])

/-- `divide` at the first equals sign. -/
def divide (kv : Bytes) : Bytes × Bytes := (Lines.cut EQ kv).getD (kv, [])

/-- `parse_query_text`; a piece that was there before is left out. -/
def parse (s : Bytes) : List (Bytes × Bytes) :=
  (((pieces s).eraseDups.map divide).filter (·.1 ≠ [])).map fun p => (decode p.1, decode p.2)

/-! ## Writing -/

def pairText (p : Bytes × Bytes) : Bytes := p.1 ++ EQ :: p.2

def text (ps : List (Bytes × Bytes)) : Bytes := [AMP].intercalate (ps.map pairText)

/-- A byte that means only itself. -/
def plainByte (c : UInt8) : Bool :=
  c ≠ AMP && c ≠ EQ && c ≠ PERCENT && c ≠ PLUS && !isBlank c

def Plain (s : Bytes) : Prop := ∀ c ∈ s, plainByte c = true

instance (s : Bytes) : Decidable (Plain s) :=
  inferInstanceAs (Decidable (∀ c ∈ s, plainByte c = true))

theorem Plain.append {s t : Bytes} (hs : Plain s) (ht : Plain t) : Plain (s ++ t) := by
  intro c hc
  rcases List.mem_append.mp hc with hc | hc
  · exact hs c hc
  · exact ht c hc

/-- **Decoding** leaves a plain text alone. -/
theorem decode_of_plain {s : Bytes} (h : Plain s) : decode s = s := by
  induction s with
  | nil => rfl
  | cons c s ih =>
    obtain ⟨hc, hs⟩ := List.forall_mem_cons.mp h
    simp only [plainByte, Bool.and_eq_true, decide_eq_true_eq] at hc
    have ih := ih hs
    match s with
    | [] => simp [decode, hc.1.2]
    | [a] => simp only [decode, hc.1.2, if_false] at ih ⊢; rw [ih]
    | a :: b :: t => simp only [decode, hc.1.1.2, hc.1.2, if_false]; rw [ih]

/-- A text without blanks at its ends is not trimmed. -/
theorem trim_eq {s : Bytes} (h : ∀ c ∈ s, isBlank c = false) : trim s = s := by
  rw [trim, List.dropWhile_eq_self_iff.mpr]
  · exact trimRight_of_last fun hl => by simp [h _ (List.getLast_mem hl)]
  · intro hl
    simp [h _ (List.getElem_mem hl)]

theorem not_blank {s : Bytes} (h : Plain s) : ∀ c ∈ s, isBlank c = false := fun c hc => by
  have := h c hc
  simp only [plainByte, Bool.and_eq_true, Bool.not_eq_true'] at this
  exact this.2

theorem not_mem_of_plain {s : Bytes} (h : Plain s) : AMP ∉ s ∧ EQ ∉ s := by
  refine ⟨fun hm => ?_, fun hm => ?_⟩
  · have := h _ hm
    revert this
    decide
  · have := h _ hm
    revert this
    decide

/-- The pieces of what was written. -/
theorem pieces_text {ps : List (Bytes × Bytes)} (h : ∀ p ∈ ps, Plain p.1 ∧ Plain p.2) :
    pieces (text ps) = ps.map pairText := by
  have hblank : ∀ p ∈ ps, ∀ c ∈ pairText p, isBlank c = false := by
    intro p hp c hc
    rcases List.mem_append.mp hc with hc | hc
    · exact not_blank (h p hp).1 c hc
    · rcases List.mem_cons.mp hc with rfl | hc
      · decide
      · exact not_blank (h p hp).2 c hc
  by_cases hps : ps = []
  · subst hps
    simp [pieces, text, trim, trimRight, List.intercalate]
  · have hamp : ∀ l ∈ ps.map pairText, AMP ∉ l := by
      intro l hl
      obtain ⟨p, hp, rfl⟩ := List.mem_map.mp hl
      have : AMP ≠ EQ := by decide
      simp [pairText, (not_mem_of_plain (h p hp).1).1, (not_mem_of_plain (h p hp).2).1, this]
    rw [pieces, text, List.splitOn_intercalate AMP hamp (by simpa using hps), List.map_map,
      List.filter_eq_self.mpr]
    · exact List.map_congr_left fun p hp => trim_eq (hblank p hp)
    · intro l hl
      obtain ⟨p, hp, rfl⟩ := List.mem_map.mp hl
      have : pairText p ≠ [] := by simp [pairText]
      simpa [trim_eq (hblank p hp)] using this

theorem not_mem_text {c : UInt8} (hc : c ≠ AMP ∧ c ≠ EQ) {ps : List (Bytes × Bytes)}
    (h : ∀ p ∈ ps, c ∉ p.1 ∧ c ∉ p.2) : c ∉ text ps := by
  induction ps with
  | nil => exact List.not_mem_nil
  | cons p ps ih =>
    obtain ⟨hp, h⟩ := List.forall_mem_cons.mp h
    have hpair : c ∉ pairText p := by simp [pairText, hp, hc.2]
    rw [text, List.map_cons]
    cases ps with
    | nil => simpa [List.intercalate] using hpair
    | cons q ps =>
      rw [List.intercalate_cons_of_ne_nil (by simp), List.append_assoc, List.singleton_append,
        List.mem_append, List.mem_cons, not_or, not_or]
      exact ⟨hpair, hc.1, ih h⟩

section Lookup

variable {α β γ : Type} [BEq β] (f : α → β × γ) (k : β)

theorem lookup_map_cons (a : α) (l : List α) : ((a :: l).map f).lookup k =
    if k == (f a).1 then some (f a).2 else (l.map f).lookup k := by
  rcases hf : f a with ⟨n, v⟩
  rw [List.map_cons, hf, List.lookup_cons]
  cases k == n <;> rfl

variable [BEq α] [LawfulBEq α]

/-- An element with another name does not matter. -/
theorem lookup_map_filter {a : α} (ha : (k == (f a).1) = false) (l : List α) :
    ((l.filter fun b => !b == a).map f).lookup k = (l.map f).lookup k := by
  induction l with
  | nil => rfl
  | cons b l ih =>
    by_cases hb : b = a
    · subst hb
      rw [List.filter_cons_of_neg (by simp), ih, lookup_map_cons, ha]
      rfl
    · rw [List.filter_cons_of_pos (by simp [hb]), lookup_map_cons, lookup_map_cons, ih]

/-- The first value of a name is not among the pieces that are left out. -/
theorem lookup_map_eraseDups (l : List α) : (l.eraseDups.map f).lookup k = (l.map f).lookup k := by
  match l with
  | [] => rfl
  | a :: l =>
    rw [List.eraseDups_cons, lookup_map_cons, lookup_map_cons]
    split
    · rfl
    · rename_i ha
      rw [lookup_map_eraseDups (l.filter fun b => !b == a)]
      exact lookup_map_filter f k (by simpa using ha) l
termination_by l.length
decreasing_by exact Nat.lt_succ_of_le (List.length_filter_le _ _)

end Lookup

theorem divide_pairText {p : Bytes × Bytes} (h : Plain p.1) : divide (pairText p) = p := by
  rw [divide, pairText, Lines.cut_append EQ _ _ (not_mem_of_plain h).2]
  rfl

/-- **What was written is read.** -/
theorem lookup_parse_text {ps : List (Bytes × Bytes)}
    (h : ∀ p ∈ ps, Plain p.1 ∧ Plain p.2 ∧ p.1 ≠ []) (k : Bytes) :
    (parse (text ps)).lookup k = ps.lookup k := by
  have hself : ∀ p ∈ (pieces (text ps)).eraseDups.map divide, p ∈ ps := by
    intro p hp
    rw [pieces_text fun p hp => ⟨(h p hp).1, (h p hp).2.1⟩] at hp
    obtain ⟨s, hs, rfl⟩ := List.mem_map.mp hp
    obtain ⟨q, hq, rfl⟩ := List.mem_map.mp (List.mem_eraseDups.mp hs)
    rwa [divide_pairText (h q hq).1]
  have hparse : parse (text ps) = (pieces (text ps)).eraseDups.map divide := by
    rw [parse, List.filter_eq_self.mpr]
    · refine (List.map_congr_left fun p hp => ?_).trans (List.map_id _)
      have := h p (hself p hp)
      rw [decode_of_plain this.1, decode_of_plain this.2.1]
      rfl
    · intro p hp
      simpa using (h p (hself p hp)).2.2
  rw [hparse, lookup_map_eraseDups, pieces_text fun p hp => ⟨(h p hp).1, (h p hp).2.1⟩, List.map_map]
  refine congrArg (List.lookup k) ((List.map_congr_left fun p hp => ?_).trans (List.map_id _))
  exact divide_pairText (h p hp).1

end TrafficMonitor.Query
