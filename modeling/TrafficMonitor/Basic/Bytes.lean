import Mathlib.Algebra.Group.Int.Defs
import Mathlib.Algebra.Group.Nat.Defs
import Mathlib.Data.List.Basic
import Mathlib.Data.List.DropRight
import Mathlib.Tactic.Common

/-!
# Byte strings

Texts are lists of bytes, as `std::string` holds them. `ascii` writes a literal;
`stripPrefix`, `hasSub`, `cStr` and `decimal` are the C++ idioms that the code uses
on them (`rfind(p, 0) == 0` followed by `substr`, `find`, `c_str`, `to_string`).
-/

namespace TrafficMonitor

abbrev Bytes := List UInt8

def ascii (s : String) : Bytes := s.toList.map fun c => UInt8.ofNat c.toNat

def LF : UInt8 := 10
def CR : UInt8 := 13
def SP : UInt8 := 32
def TAB : UInt8 := 9
def NUL : UInt8 := 0
def QUOTE : UInt8 := 34
def COMMA : UInt8 := 44
def COLON : UInt8 := 58
def LBRACKET : UInt8 := 91
def BACKSLASH : UInt8 := 92
def RBRACKET : UInt8 := 93
def LBRACE : UInt8 := 123
def RBRACE : UInt8 := 125

-- a condition on all bytes of a text is decided along the text, not over all 256 bytes
instance decidableForallMem (p : UInt8 → Prop) [DecidablePred p] (s : Bytes) :
    Decidable (∀ c ∈ s, p c) :=
  List.decidableBAll p s

instance lawfulBEq : LawfulBEq Bytes := inferInstance

namespace Bytes

/-- The text after the prefix `p`, if the text begins with it. -/
def stripPrefix (p s : Bytes) : Option Bytes :=
  if p.isPrefixOf s then some (s.drop p.length) else none

/-- The text after the first occurrence of `needle`. -/
def findAfter (needle : Bytes) : Bytes → Option Bytes
  | [] => none
  | c :: s => match stripPrefix needle (c :: s) with
    | some rest => some rest
    | none => findAfter needle s

/-- `sub` occurs somewhere in the text. -/
def hasSub (sub : Bytes) : Bytes → Bool
  | [] => sub.isEmpty
  | s@(_ :: t) => sub.isPrefixOf s || hasSub sub t

/-- What a C function sees of the text: the bytes before the first NUL. -/
def cStr (s : Bytes) : Bytes := s.takeWhile (· ≠ NUL)

/-- `while (!s.empty() && p(s.back())) s.pop_back();` -/
def trimRight (p : UInt8 → Bool) (s : Bytes) : Bytes := s.rdropWhile p

/-- `std::to_string` of an unsigned number. -/
def decimal (n : Nat) : Bytes := (Nat.toDigits 10 n).map fun c => UInt8.ofNat c.toNat

def isDigit (b : UInt8) : Bool := 48 ≤ b && b ≤ 57

/-- The value of a sequence of decimal digits. -/
def digitsValue (s : Bytes) : Nat := s.foldl (fun n b => 10 * n + (b.toNat - 48)) 0

def hexDigit (n : Nat) : UInt8 := if n < 10 then UInt8.ofNat (48 + n) else UInt8.ofNat (87 + n)

/-- `"%02x"` for every byte. -/
def hex (s : Bytes) : Bytes := s.flatMap fun b => [hexDigit (b.toNat / 16), hexDigit (b.toNat % 16)]

def isHexDigit (b : UInt8) : Bool := isDigit b || (97 ≤ b && b ≤ 102)

/-- `std::isalnum` in the C locale. -/
def isAlnum (b : UInt8) : Bool := isDigit b || (65 ≤ b && b ≤ 90) || (97 ≤ b && b ≤ 122)

/-! ## Literals -/

/-- The bytes of a literal from the list of its characters, which is evaluated faster than the
literal is. -/
theorem ascii_ofList (l : List Char) :
    ascii (String.ofList l) = l.map fun c => UInt8.ofNat c.toNat := by
  rw [ascii, String.toList_ofList]

theorem ascii_append (s t : String) : ascii (s ++ t) = ascii s ++ ascii t := by
  rw [ascii, String.toList_append, List.map_append]
  rfl

/-! ## Prefixes and substrings -/

@[simp] theorem stripPrefix_append (p s : Bytes) : stripPrefix p (p ++ s) = some s := by
  simp [stripPrefix]

theorem stripPrefix_eq_some {p s t : Bytes} : stripPrefix p s = some t ↔ s = p ++ t := by
  constructor
  · intro h
    unfold stripPrefix at h
    split at h
    · rename_i hp
      obtain ⟨u, rfl⟩ := List.isPrefixOf_iff_prefix.mp hp
      simpa using h
    · cases h
  · rintro rfl
    exact stripPrefix_append p t

theorem stripPrefix_cons_self (c : UInt8) (p s : Bytes) :
    stripPrefix (c :: p) (c :: s) = stripPrefix p s := by
  simp [stripPrefix, List.isPrefixOf]

theorem stripPrefix_head {c d : UInt8} (h : c ≠ d) (p s : Bytes) :
    stripPrefix (c :: p) (d :: s) = none := by
  simp [stripPrefix, List.isPrefixOf, h]

theorem findAfter_append (needle s : Bytes) (h : needle ≠ []) :
    findAfter needle (needle ++ s) = some s := by
  obtain ⟨c, n, rfl⟩ := List.exists_cons_of_ne_nil h
  have hs : stripPrefix (c :: n) (c :: (n ++ s)) = some s := stripPrefix_append (c :: n) s
  rw [List.cons_append, findAfter, hs]

theorem findAfter_cons {needle s : Bytes} {c : UInt8} (h : stripPrefix needle (c :: s) = none) :
    findAfter needle (c :: s) = findAfter needle s := by
  rw [findAfter, h]

/-- The search passes over bytes that do not begin the needle. -/
theorem findAfter_skip {q : UInt8} {n s t : Bytes} (h : q ∉ s) :
    findAfter (q :: n) (s ++ t) = findAfter (q :: n) t := by
  induction s with
  | nil => rfl
  | cons c s ih =>
    rw [List.mem_cons, not_or] at h
    rw [List.cons_append, findAfter_cons (stripPrefix_head h.1 n (s ++ t))]
    exact ih h.2

theorem findAfter_eq_some {n s t : Bytes} (h : findAfter n s = some t) :
    ∃ a, s = a ++ (n ++ t) := by
  induction s with
  | nil => cases h
  | cons c s ih =>
    rw [findAfter] at h
    split at h
    next u hu =>
      obtain rfl := Option.some.inj h
      exact ⟨[], (stripPrefix_eq_some.mp hu).trans (List.nil_append _).symm⟩
    · obtain ⟨a, rfl⟩ := ih h
      exact ⟨c :: a, rfl⟩

/-- The first occurrence has every later text behind it. -/
theorem findAfter_infix {n : Bytes} (hn : n ≠ []) (a b : Bytes) :
    ∃ t, findAfter n (a ++ (n ++ b)) = some t ∧ b <:+ t := by
  induction a with
  | nil => exact ⟨b, findAfter_append n b hn, List.suffix_refl b⟩
  | cons c a ih =>
    rw [List.cons_append, findAfter]
    split
    next u hu =>
      refine ⟨u, rfl, ?_⟩
      have e := stripPrefix_eq_some.mp hu
      have hlen := congrArg List.length e
      obtain ⟨d, m, rfl⟩ := List.exists_cons_of_ne_nil hn
      simp only [List.length_cons, List.length_append] at hlen
      have hb : b <:+ c :: (a ++ (d :: m ++ b)) := ⟨c :: (a ++ d :: m), by simp⟩
      have hu : u <:+ c :: (a ++ (d :: m ++ b)) := ⟨d :: m, e.symm⟩
      exact List.suffix_of_suffix_length_le hb hu (by omega)
    · exact ih

theorem cStr_of_not_mem {s : Bytes} (h : NUL ∉ s) : cStr s = s := by
  unfold cStr
  rw [List.takeWhile_eq_self_iff]
  intro b hb
  have : b ≠ NUL := fun e => h (e ▸ hb)
  simpa using this

theorem trimRight_of_last {p : UInt8 → Bool} {s : Bytes}
    (h : ∀ hl : s ≠ [], p (s.getLast hl) = false) : trimRight p s = s := by
  unfold trimRight
  rw [List.rdropWhile_eq_self_iff]
  intro hl
  simp [h hl]

/-! ## Decimal numbers -/

private theorem toNat_of_isDigit {c : Char} (h : c.isDigit = true) :
    (UInt8.ofNat c.toNat).toNat = c.toNat ∧ 48 ≤ c.toNat ∧ c.toNat ≤ 57 := by
  simp only [Char.isDigit, Bool.and_eq_true, decide_eq_true_eq, ge_iff_le,
    UInt32.le_iff_toNat_le] at h
  change 48 ≤ c.toNat ∧ c.toNat ≤ 57 at h
  refine ⟨?_, h⟩
  simp only [UInt8.toNat_ofNat']
  omega

theorem isDigit_of_mem_decimal {n : Nat} {b : UInt8} (h : b ∈ decimal n) : isDigit b = true := by
  obtain ⟨c, hc, rfl⟩ := List.mem_map.mp h
  obtain ⟨e, hlo, hhi⟩ := toNat_of_isDigit (Nat.isDigit_of_mem_toDigits (by omega) (by omega) hc)
  simp only [isDigit, Bool.and_eq_true, decide_eq_true_eq, UInt8.le_iff_toNat_le, e]
  exact ⟨hlo, hhi⟩

theorem not_mem_decimal {b : UInt8} (h : isDigit b = false) (n : Nat) : b ∉ decimal n := fun hb =>
  Bool.false_ne_true (h.symm.trans (isDigit_of_mem_decimal hb))

theorem decimal_ne_nil (n : Nat) : decimal n ≠ [] := by
  simp [decimal, Nat.toDigits_ne_nil]

theorem length_decimal_le {n k : Nat} (hk : 0 < k) (h : n < 10 ^ k) : (decimal n).length ≤ k := by
  rw [decimal, List.length_map]
  exact (Nat.length_toDigits_le_iff (by omega) hk).mpr h

private theorem foldl_digits (cs : List Char) (hc : ∀ c ∈ cs, c.isDigit = true) (acc : Nat) :
    (cs.map fun c => UInt8.ofNat c.toNat).foldl (fun n b => 10 * n + (b.toNat - 48)) acc =
      Nat.ofDigitChars 10 cs acc := by
  induction cs generalizing acc with
  | nil => rfl
  | cons c cs ih =>
    have e := (toNat_of_isDigit (hc c (by simp))).1
    simp only [List.map_cons, List.foldl_cons, e]
    rw [ih fun d hd => hc d (by simp [hd])]
    rfl

/-- **Decimal round trip.** -/
theorem digitsValue_decimal (n : Nat) : digitsValue (decimal n) = n := by
  unfold digitsValue decimal
  rw [foldl_digits _ fun c hc => Nat.isDigit_of_mem_toDigits (by omega) (by omega) hc]
  exact Nat.ofDigitChars_ten_toDigits

/-! ## Hexadecimal -/

@[simp] theorem length_hex (s : Bytes) : (hex s).length = 2 * s.length := by
  induction s with
  | nil => rfl
  | cons b s ih =>
    simp only [hex, List.flatMap_cons, List.length_append, List.length_cons,
      List.length_nil] at ih ⊢
    omega

theorem isHexDigit_hexDigit {n : Nat} (h : n < 16) : isHexDigit (hexDigit n) = true := by
  have : ∀ n < 16, isHexDigit (hexDigit n) = true := by decide
  exact this n h

theorem isHexDigit_of_mem_hex {s : Bytes} {c : UInt8} (h : c ∈ hex s) : isHexDigit c = true := by
  obtain ⟨b, _, hc⟩ := List.mem_flatMap.mp h
  have hb := b.toNat_lt
  simp only [List.mem_cons, List.not_mem_nil, or_false] at hc
  rcases hc with rfl | rfl
  · exact isHexDigit_hexDigit (by omega)
  · exact isHexDigit_hexDigit (by omega)

end Bytes

end TrafficMonitor
