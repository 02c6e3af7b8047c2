import Mathlib.Tactic.Common
import TrafficMonitor.Basic.Bytes

/-!
# JSON texts

The grammar of RFC-style JSON as a recursive descent over bytes. A value keeps its numbers
as texts, and the escapes of its strings are undone; a pair of `\u` escapes is kept as its
two code units.

Proved here:

* `Parses` and its rules: the text of a string, a number, an array or an object of parsed
  texts is parsed to it, whatever follows;
* `parse_sound`: a parsed text has two unescaped quotes for each string and key of its value,
  and the numbers of the value are numerals.
-/

namespace TrafficMonitor.Json

open Bytes

inductive Value
  | null
  | bool (b : Bool)
  | num (text : Bytes)
  | str (s : Bytes)
  | arr (xs : List Value)
  | obj (ms : List (Bytes × Value))

/-! ## Tokens -/

def isWs (c : UInt8) : Bool := c = SP || c = TAB || c = LF || c = CR

def skipWs (s : Bytes) : Bytes := s.dropWhile isWs

/-- `e` or `E`, an optional sign, and digits; or nothing. -/
def isExponent : Bytes → Bool
  | [] => true
  | c :: s =>
    let ds := if s.head? = some 43 ∨ s.head? = some 45 then s.tail else s
    (c = 101 || c = 69) && ds ≠ [] && ds.all isDigit

/-- A point and digits, or nothing, before an exponent. -/
def isFraction : Bytes → Bool
  | [] => true
  | c :: s =>
    if c = 46 then s.takeWhile isDigit ≠ [] && isExponent (s.dropWhile isDigit)
    else isExponent (c :: s)

/-- A numeral: an optional minus sign, digits without a superfluous zero, a fraction and an
exponent. -/
def isNumber (s : Bytes) : Bool :=
  let t := if s.head? = some 45 then s.tail else s
  let ds := t.takeWhile isDigit
  ds ≠ [] && (ds = [48] || ds.head? ≠ some 48) && isFraction (t.dropWhile isDigit)

/-- The bytes of numerals. -/
def isNumChar (c : UInt8) : Bool := isDigit c || c = 43 || c = 45 || c = 46 || c = 69 || c = 101

/-- The byte of a two-character escape. -/
def escaped (e : UInt8) : Option UInt8 :=
  if e = QUOTE || e = BACKSLASH || e = 47 then some e
  else if e = 98 then some 8
  else if e = 102 then some 12
  else if e = 110 then some LF
  else if e = 114 then some CR
  else if e = 116 then some TAB
  else none

def hexValue (c : UInt8) : Option Nat :=
  if isDigit c then some (c.toNat - 48)
  else if 97 ≤ c && c ≤ 102 then some (c.toNat - 87)
  else if 65 ≤ c && c ≤ 70 then some (c.toNat - 55)
  else none

/-- The encoding of a code unit. -/
def unit (u : Nat) : Bytes :=
  if u < 128 then [UInt8.ofNat u]
  else if u < 2048 then [UInt8.ofNat (192 + u / 64), UInt8.ofNat (128 + u % 64)]
  else [UInt8.ofNat (224 + u / 4096), UInt8.ofNat (128 + u / 64 % 64), UInt8.ofNat (128 + u % 64)]

/-- The contents of a string up to its closing quote, and the text after it. -/
def string : Bytes → Option (Bytes × Bytes)
  | [] => none
  | c :: s =>
    if c = QUOTE then some ([], s)
    else if c = BACKSLASH then match s with
      | 117 :: a :: b :: c :: d :: s => do
        let a ← hexValue a
        let b ← hexValue b
        let c ← hexValue c
        let d ← hexValue d
        let p ← string s
        some (unit (((a * 16 + b) * 16 + c) * 16 + d) ++ p.1, p.2)
      | e :: s => do
        let e ← escaped e
        let p ← string s
        some (e :: p.1, p.2)
      | [] => none
    else if c < 32 then none
    else do
      let p ← string s
      some (c :: p.1, p.2)

/-- A literal or a number. -/
def scalar (s : Bytes) : Option (Value × Bytes) :=
  match stripPrefix (ascii "true") s with
  | some t => some (.bool true, t)
  | none => match stripPrefix (ascii "false") s with
    | some t => some (.bool false, t)
    | none => match stripPrefix (ascii "null") s with
      | some t => some (.null, t)
      | none =>
        let t := s.takeWhile isNumChar
        if isNumber t then some (.num t, s.dropWhile isNumChar) else none

/-- The text after the character `c`. -/
def expect (c : UInt8) (s : Bytes) : Option Bytes :=
  match s with
  | [] => none
  | d :: s => if d = c then some s else none

/-! ## Values -/

mutual

/-- A value, and the text after it; `n` bounds the number of brackets and commas. -/
def value : Nat → Bytes → Option (Value × Bytes)
  | 0, _ => none
  | _, [] => none
  | n + 1, c :: s =>
    if c = QUOTE then (string s).map fun p => (.str p.1, p.2)
    else if c = LBRACE then match expect RBRACE (skipWs s) with
      | some t => some (.obj [], t)
      | none => (members n (skipWs s)).map fun p => (.obj p.1, p.2)
    else if c = LBRACKET then match expect RBRACKET (skipWs s) with
      | some t => some (.arr [], t)
      | none => (elements n (skipWs s)).map fun p => (.arr p.1, p.2)
    else scalar (c :: s)

/-- Members up to the closing brace. -/
def members : Nat → Bytes → Option (List (Bytes × Value) × Bytes)
  | 0, _ => none
  | n + 1, s => do
    let s ← expect QUOTE s
    let (key, s) ← string s
    let s ← expect COLON (skipWs s)
    let (v, s) ← value n (skipWs s)
    match expect RBRACE (skipWs s) with
    | some s => some ([(key, v)], s)
    | none => do
      let s ← expect COMMA (skipWs s)
      (members n (skipWs s)).map fun p => ((key, v) :: p.1, p.2)

/-- Elements up to the closing bracket. -/
def elements : Nat → Bytes → Option (List Value × Bytes)
  | 0, _ => none
  | n + 1, s => do
    let (v, s) ← value n s
    match expect RBRACKET (skipWs s) with
    | some s => some ([v], s)
    | none => do
      let s ← expect COMMA (skipWs s)
      (elements n (skipWs s)).map fun p => (v :: p.1, p.2)

end

/-- The value of a whole text. -/
def parse (s : Bytes) : Option Value := do
  let (v, rest) ← value (s.length + 1) (skipWs s)
  if skipWs rest = [] then some v else none

mutual

/-- The numbers of a value. -/
def numbers : Value → List Bytes
  | .num t => [t]
  | .arr xs => numbersAll xs
  | .obj ms => numbersMembers ms
  | _ => []

def numbersAll : List Value → List Bytes
  | [] => []
  | x :: xs => numbers x ++ numbersAll xs

def numbersMembers : List (Bytes × Value) → List Bytes
  | [] => []
  | (_, v) :: ms => numbers v ++ numbersMembers ms

end

mutual

/-- The number of strings and keys of a value. -/
def strings : Value → Nat
  | .str _ => 1
  | .arr xs => stringsAll xs
  | .obj ms => stringsMembers ms
  | _ => 0

def stringsAll : List Value → Nat
  | [] => 0
  | x :: xs => strings x + stringsAll xs

def stringsMembers : List (Bytes × Value) → Nat
  | [] => 0
  | (_, v) :: ms => 1 + strings v + stringsMembers ms

end

/-- The unescaped quotes of a text. -/
def quotes : Bytes → Nat
  | [] => 0
  | c :: s =>
    if c = BACKSLASH then match s with
      | [] => 0
      | _ :: s => quotes s
    else if c = QUOTE then quotes s + 1
    else quotes s

/-! ## Numerals -/

theorem isNumChar_of_isDigit {c : UInt8} (h : isDigit c = true) : isNumChar c = true := by
  simp [isNumChar, h]

theorem isNumChar_of_isExponent {s : Bytes} (h : isExponent s = true) :
    ∀ c ∈ s, isNumChar c = true := by
  cases s with
  | nil => simp
  | cons c s =>
    simp only [isExponent, Bool.and_eq_true, List.all_eq_true] at h
    obtain ⟨⟨hc, -⟩, hds⟩ := h
    intro d hd
    rcases List.mem_cons.mp hd with rfl | hd
    · simp only [Bool.or_eq_true, decide_eq_true_eq] at hc
      rcases hc with rfl | rfl <;> decide
    · cases s with
      | nil => cases hd
      | cons e s =>
        by_cases hsign : e = 43 ∨ e = 45
        · rw [if_pos (by simpa using hsign)] at hds
          rcases List.mem_cons.mp hd with rfl | hd
          · rcases hsign with rfl | rfl <;> decide
          · exact isNumChar_of_isDigit (hds d hd)
        · rw [if_neg (by simpa using hsign)] at hds
          exact isNumChar_of_isDigit (hds d hd)

theorem isNumChar_of_isFraction {s : Bytes} (h : isFraction s = true) :
    ∀ c ∈ s, isNumChar c = true := by
  cases s with
  | nil => simp
  | cons c s =>
    rw [isFraction] at h
    split at h
    next hc =>
      subst hc
      simp only [Bool.and_eq_true] at h
      intro d hd
      rcases List.mem_cons.mp hd with rfl | hd
      · decide
      · rw [← List.takeWhile_append_dropWhile (p := isDigit) (l := s), List.mem_append] at hd
        rcases hd with hd | hd
        · exact isNumChar_of_isDigit (List.mem_takeWhile_imp hd)
        · exact isNumChar_of_isExponent h.2 d hd
    · exact isNumChar_of_isExponent h

/-- A numeral begins with a digit or a minus sign, and has bytes of numerals only. -/
theorem isNumber_spec {s : Bytes} (h : isNumber s = true) :
    (∃ c t, s = c :: t ∧ (isDigit c = true ∨ c = 45)) ∧ ∀ c ∈ s, isNumChar c = true := by
  have hrest : ∀ t : Bytes, (t.takeWhile isDigit ≠ [] ∧ isFraction (t.dropWhile isDigit) = true) →
      (∃ c u, t = c :: u ∧ isDigit c = true) ∧ ∀ c ∈ t, isNumChar c = true := by
    rintro t ⟨hne, hf⟩
    constructor
    · cases t with
      | nil => exact absurd rfl hne
      | cons c u =>
        refine ⟨c, u, rfl, ?_⟩
        by_contra hc
        exact hne (List.takeWhile_cons_of_neg hc)
    · intro c hc
      rw [← List.takeWhile_append_dropWhile (p := isDigit) (l := t), List.mem_append] at hc
      rcases hc with hc | hc
      · exact isNumChar_of_isDigit (List.mem_takeWhile_imp hc)
      · exact isNumChar_of_isFraction hf c hc
  simp only [isNumber, Bool.and_eq_true, decide_eq_true_eq] at h
  obtain ⟨⟨hne, -⟩, hf⟩ := h
  cases s with
  | nil => exact absurd rfl hne
  | cons c s =>
    by_cases hc : c = 45
    · subst hc
      rw [if_pos (by simp)] at hne hf
      obtain ⟨-, hall⟩ := hrest s ⟨hne, hf⟩
      refine ⟨⟨45, s, rfl, .inr rfl⟩, fun d hd => ?_⟩
      rcases List.mem_cons.mp hd with rfl | hd
      · decide
      · exact hall d hd
    · rw [if_neg (by simpa using hc)] at hne hf
      obtain ⟨⟨d, u, e, hd⟩, hall⟩ := hrest (c :: s) ⟨hne, hf⟩
      exact ⟨⟨d, u, e, .inl hd⟩, hall⟩

/-! ## Texts that are parsed -/

/-- A text that begins neither with a blank nor with a closing bracket. -/
def Starts (text : Bytes) : Prop := ∃ c t, text = c :: t ∧ isWs c = false ∧ c ≠ RBRACKET

/-- The text is parsed to the value, whatever follows that does not go on with a numeral. -/
structure Parses (text : Bytes) (v : Value) : Prop where
  starts : Starts text
  value_append : ∀ n rest, text.length ≤ n → (∀ c ∈ rest.head?, isNumChar c = false) →
    value n (text ++ rest) = some (v, rest)

/-- The text is the contents of a string. -/
def Contents (text s : Bytes) : Prop :=
  ∀ rest, string (text ++ QUOTE :: rest) = some (s, rest)

structure ParsesMembers (text : Bytes) (ms : List (Bytes × Value)) : Prop where
  quote : ∃ t, text = QUOTE :: t
  members_append : ∀ n rest, text.length ≤ n → members n (text ++ rest) = some (ms, rest)

structure ParsesElements (text : Bytes) (vs : List Value) : Prop where
  starts : Starts text
  elements_append : ∀ n rest, text.length ≤ n → elements n (text ++ rest) = some (vs, rest)

theorem skipWs_cons {c : UInt8} (h : isWs c = false) (s : Bytes) : skipWs (c :: s) = c :: s :=
  List.dropWhile_cons_of_neg (by simp [h])

theorem skipWs_starts {text : Bytes} (h : Starts text) (rest : Bytes) :
    skipWs (text ++ rest) = text ++ rest := by
  obtain ⟨c, t, rfl, hc, -⟩ := h
  exact skipWs_cons hc _

@[simp] theorem expect_self (c : UInt8) (s : Bytes) : expect c (c :: s) = some s := by
  simp [expect]

theorem expect_ne {c d : UInt8} (h : d ≠ c) (s : Bytes) : expect c (d :: s) = none := by
  simp [expect, h]

theorem string_quote (s : Bytes) : string (QUOTE :: s) = some ([], s) := by
  rw [string.eq_def]
  simp

theorem parses_str {text s : Bytes} (h : Contents text s) :
    Parses (QUOTE :: (text ++ [QUOTE])) (.str s) where
  starts := ⟨_, _, rfl, by decide, by decide⟩
  value_append := by
    intro n rest hn _
    obtain ⟨n, rfl⟩ := Nat.exists_eq_succ_of_ne_zero (show n ≠ 0 by simp at hn; omega)
    rw [List.cons_append, List.append_assoc, List.singleton_append, value, if_pos rfl, h rest]
    rfl

theorem parses_num {text : Bytes} (h : isNumber text = true) : Parses text (.num text) := by
  obtain ⟨⟨c, t, rfl, hc⟩, hall⟩ := isNumber_spec h
  have hne : ∀ d : UInt8, isDigit d = false → d ≠ 45 → c ≠ d := by
    rintro d hd hm rfl
    rcases hc with hc | hc
    · rw [hd] at hc
      cases hc
    · exact hm hc
  constructor
  · refine ⟨c, t, rfl, ?_, hne _ (by decide) (by decide)⟩
    simp [isWs, hne SP (by decide) (by decide), hne TAB (by decide) (by decide),
      hne LF (by decide) (by decide), hne CR (by decide) (by decide)]
  · intro n rest hn hrest
    obtain ⟨n, rfl⟩ := Nat.exists_eq_succ_of_ne_zero (show n ≠ 0 by simp at hn; omega)
    have htake : (c :: t ++ rest).takeWhile isNumChar = c :: t := by
      rw [List.takeWhile_append_of_pos hall]
      cases rest with
      | nil => simp
      | cons d rest => simp [hrest d (by simp)]
    have hdrop : (c :: t ++ rest).dropWhile isNumChar = rest := by
      rw [List.dropWhile_append_of_pos hall]
      cases rest with
      | nil => rfl
      | cons d rest => exact List.dropWhile_cons_of_neg (by simp [hrest d (by simp)])
    have hno : ∀ (d : UInt8) (w : Bytes), c ≠ d → stripPrefix (d :: w) (c :: (t ++ rest)) = none := by
      intro d w hd
      simp [stripPrefix, List.isPrefixOf, Ne.symm hd]
    have htrue : stripPrefix (ascii "true") (c :: (t ++ rest)) = none :=
      hno 116 _ (hne _ (by decide) (by decide))
    have hfalse : stripPrefix (ascii "false") (c :: (t ++ rest)) = none :=
      hno 102 _ (hne _ (by decide) (by decide))
    have hnull : stripPrefix (ascii "null") (c :: (t ++ rest)) = none :=
      hno 110 _ (hne _ (by decide) (by decide))
    rw [List.cons_append] at htake hdrop ⊢
    rw [value, if_neg (hne _ (by decide) (by decide)), if_neg (hne _ (by decide) (by decide)),
      if_neg (hne _ (by decide) (by decide)), scalar, htrue, hfalse, hnull]
    simp only [htake, hdrop, h, if_true]

theorem parses_true : Parses (ascii "true") (.bool true) where
  starts := ⟨_, _, rfl, by decide, by decide⟩
  value_append := by
    intro n rest hn _
    obtain ⟨n, rfl⟩ := Nat.exists_eq_succ_of_ne_zero (show n ≠ 0 by simp [ascii] at hn; omega)
    have e : ascii "true" ++ rest = 116 :: (ascii "rue" ++ rest) := rfl
    have h : stripPrefix (ascii "true") (116 :: (ascii "rue" ++ rest)) = some rest :=
      stripPrefix_append (ascii "true") rest
    rw [e, value, if_neg (by decide), if_neg (by decide), if_neg (by decide), scalar, h]

/-- What follows a member or an element does not go on with a numeral. -/
theorem head_append {c : UInt8} (h : isNumChar c = false) (s : Bytes) :
    ∀ d ∈ (c :: s).head?, isNumChar d = false := by
  intro d hd
  cases hd
  exact h

/-- One more member, after the key and its value have been parsed. -/
theorem members_of_value {n : Nat} {text key vtext : Bytes} {v : Value} (hk : Contents text key)
    (hv : Parses vtext v) (hn : vtext.length ≤ n) {rest : Bytes}
    (hrest : ∀ d ∈ rest.head?, isNumChar d = false) :
    members (n + 1) (QUOTE :: (text ++ QUOTE :: COLON :: (vtext ++ rest))) =
      match expect RBRACE (skipWs rest) with
      | some s => some ([(key, v)], s)
      | none => (expect COMMA (skipWs rest)).bind fun s =>
        (members n (skipWs s)).map fun p => ((key, v) :: p.1, p.2) := by
  have hc : skipWs (COLON :: (vtext ++ rest)) = COLON :: (vtext ++ rest) :=
    skipWs_cons (by decide) _
  rw [members]
  simp only [expect_self, Option.bind_eq_bind, Option.bind_some, hk _, hc, skipWs_starts hv.starts,
    hv.value_append n rest hn hrest]

theorem parsesMembers_one {text key vtext : Bytes} {v : Value} (hk : Contents text key)
    (hv : Parses vtext v) :
    ParsesMembers (QUOTE :: (text ++ QUOTE :: COLON :: (vtext ++ [RBRACE]))) [(key, v)] where
  quote := ⟨_, rfl⟩
  members_append := by
    intro n rest hn
    simp only [List.length_cons, List.length_append] at hn
    obtain ⟨n, rfl⟩ := Nat.exists_eq_succ_of_ne_zero (show n ≠ 0 by omega)
    have h := members_of_value (n := n) hk hv (by omega)
      (head_append (by decide : isNumChar RBRACE = false) rest)
    rw [skipWs_cons (by decide), expect_self] at h
    simpa using h

theorem parsesMembers_cons {text key vtext mtext : Bytes} {v : Value} {ms : List (Bytes × Value)}
    (hk : Contents text key) (hv : Parses vtext v) (hm : ParsesMembers mtext ms) :
    ParsesMembers (QUOTE :: (text ++ QUOTE :: COLON :: (vtext ++ COMMA :: mtext)))
      ((key, v) :: ms) where
  quote := ⟨_, rfl⟩
  members_append := by
    intro n rest hn
    simp only [List.length_cons, List.length_append] at hn
    obtain ⟨n, rfl⟩ := Nat.exists_eq_succ_of_ne_zero (show n ≠ 0 by omega)
    have hstart : skipWs (mtext ++ rest) = mtext ++ rest := by
      obtain ⟨t, rfl⟩ := hm.quote
      exact skipWs_cons (by decide) _
    have h := members_of_value (n := n) hk hv (by omega)
      (head_append (by decide : isNumChar COMMA = false) (mtext ++ rest))
    rw [skipWs_cons (by decide), expect_ne (by decide), expect_self] at h
    simp only [Option.bind_some, hstart, hm.members_append n rest (by omega), Option.map_some] at h
    simpa using h

theorem parses_obj {text : Bytes} {ms : List (Bytes × Value)} (h : ParsesMembers text ms) :
    Parses (LBRACE :: text) (.obj ms) where
  starts := ⟨_, _, rfl, by decide, by decide⟩
  value_append := by
    intro n rest hn _
    rw [List.length_cons] at hn
    obtain ⟨n, rfl⟩ := Nat.exists_eq_succ_of_ne_zero (show n ≠ 0 by omega)
    have hm := h.members_append n rest (by omega)
    obtain ⟨t, rfl⟩ := h.quote
    have hstart : skipWs (QUOTE :: t ++ rest) = QUOTE :: t ++ rest := skipWs_cons (by decide) _
    have hno : expect RBRACE (QUOTE :: t ++ rest) = none := expect_ne (by decide) _
    rw [List.cons_append, value, if_neg (by decide), if_pos rfl, hstart, hno]
    simp only [hm, Option.map_some]

theorem parsesElements_one {text : Bytes} {v : Value} (hv : Parses text v) :
    ParsesElements (text ++ [RBRACKET]) [v] where
  starts := by
    obtain ⟨c, t, rfl, h⟩ := hv.starts
    exact ⟨c, t ++ [RBRACKET], rfl, h⟩
  elements_append := by
    intro n rest hn
    simp only [List.length_append, List.length_singleton] at hn
    obtain ⟨n, rfl⟩ := Nat.exists_eq_succ_of_ne_zero (show n ≠ 0 by omega)
    rw [List.append_assoc, List.singleton_append, elements]
    simp only [hv.value_append n _ (by omega)
      (head_append (by decide : isNumChar RBRACKET = false) rest), Option.bind_eq_bind,
      Option.bind_some, skipWs_cons (by decide : isWs RBRACKET = false), expect_self]

theorem parsesElements_cons {text etext : Bytes} {v : Value} {vs : List Value} (hv : Parses text v)
    (he : ParsesElements etext vs) : ParsesElements (text ++ COMMA :: etext) (v :: vs) where
  starts := by
    obtain ⟨c, t, rfl, h⟩ := hv.starts
    exact ⟨c, t ++ COMMA :: etext, rfl, h⟩
  elements_append := by
    intro n rest hn
    simp only [List.length_append, List.length_cons] at hn
    obtain ⟨n, rfl⟩ := Nat.exists_eq_succ_of_ne_zero (show n ≠ 0 by omega)
    have hno : expect RBRACKET (COMMA :: (etext ++ rest)) = none := expect_ne (by decide) _
    rw [List.append_assoc, List.cons_append, elements]
    simp only [hv.value_append n _ (by omega)
      (head_append (by decide : isNumChar COMMA = false) (etext ++ rest)), Option.bind_eq_bind,
      Option.bind_some, skipWs_cons (by decide : isWs COMMA = false), hno, expect_self,
      skipWs_starts he.starts, he.elements_append n rest (by omega), Option.map_some]

theorem parses_arr {text : Bytes} {vs : List Value} (h : ParsesElements text vs) :
    Parses (LBRACKET :: text) (.arr vs) where
  starts := ⟨_, _, rfl, by decide, by decide⟩
  value_append := by
    intro n rest hn _
    rw [List.length_cons] at hn
    obtain ⟨n, rfl⟩ := Nat.exists_eq_succ_of_ne_zero (show n ≠ 0 by omega)
    have hno : expect RBRACKET (text ++ rest) = none := by
      obtain ⟨c, t, rfl, -, hc⟩ := h.starts
      exact expect_ne hc _
    rw [List.cons_append, value, if_neg (by decide), if_neg (by decide), if_pos rfl,
      skipWs_starts h.starts, hno]
    simp only [h.elements_append n rest (by omega), Option.map_some]

theorem parses_arr_nil : Parses [LBRACKET, RBRACKET] (.arr []) where
  starts := ⟨_, _, rfl, by decide, by decide⟩
  value_append := by
    intro n rest hn _
    obtain ⟨n, rfl⟩ := Nat.exists_eq_succ_of_ne_zero (show n ≠ 0 by simp at hn; omega)
    have hs : skipWs (RBRACKET :: rest) = RBRACKET :: rest := skipWs_cons (by decide) _
    rw [List.cons_append, List.singleton_append, value, if_neg (by decide), if_neg (by decide),
      if_pos rfl, hs, expect_self]

/-- **A whole text**, with a line end behind it. -/
theorem parse_of_parses {text : Bytes} {v : Value} (h : Parses text v) :
    parse (text ++ [LF]) = some v := by
  have hrest : ∀ c ∈ [LF].head?, isNumChar c = false := head_append (by decide) []
  have hws : skipWs [LF] = [] := by decide
  rw [parse, skipWs_starts h.starts, h.value_append _ _ (by simp; omega) hrest]
  simp only [Option.bind_eq_bind, Option.bind_some, hws, if_true]

/-! ## What a parsed text has -/

/-- Bytes without a backslash. -/
theorem quotes_append {s : Bytes} (h : BACKSLASH ∉ s) (t : Bytes) :
    quotes (s ++ t) = s.count QUOTE + quotes t := by
  induction s with
  | nil => simp
  | cons c s ih =>
    rw [List.mem_cons, not_or] at h
    rw [List.cons_append, quotes.eq_def]
    simp only [Ne.symm h.1, if_false, ih h.2, List.count_cons]
    by_cases hq : c = QUOTE
    · subst hq
      simp
      omega
    · simp [hq]

theorem quotes_skipWs (s : Bytes) : quotes (skipWs s) = quotes s := by
  have hb : BACKSLASH ∉ s.takeWhile isWs := fun h =>
    absurd (List.mem_takeWhile_imp h) (by decide)
  have hq : QUOTE ∉ s.takeWhile isWs := fun h => absurd (List.mem_takeWhile_imp h) (by decide)
  have := quotes_append hb (s.dropWhile isWs)
  rw [List.takeWhile_append_dropWhile, List.count_eq_zero_of_not_mem hq, Nat.zero_add] at this
  exact this.symm

theorem expect_eq_some {c : UInt8} {s t : Bytes} (h : expect c s = some t) : s = c :: t := by
  cases s with
  | nil => cases h
  | cons d s =>
    rw [expect] at h
    split at h
    next e => rw [e, Option.some.inj h]
    · cases h

theorem quotes_cons {c : UInt8} (hq : c ≠ QUOTE) (hb : c ≠ BACKSLASH) (s : Bytes) :
    quotes (c :: s) = quotes s := by
  rw [quotes.eq_def]
  simp [hq, hb]

theorem quotes_quote (s : Bytes) : quotes (QUOTE :: s) = quotes s + 1 := by
  rw [quotes.eq_def]
  simp [show QUOTE ≠ BACKSLASH by decide]

theorem quotes_escape (c : UInt8) (s : Bytes) : quotes (BACKSLASH :: c :: s) = quotes s := by
  rw [quotes.eq_def]
  simp

theorem hexValue_plain {c : UInt8} {n : Nat} (h : hexValue c = some n) :
    c ≠ QUOTE ∧ c ≠ BACKSLASH := by
  constructor <;> rintro rfl <;> revert h <;> simp [hexValue, isDigit, QUOTE, BACKSLASH]

/-- The contents of a string have no unescaped quote but the closing one. -/
theorem string_quotes {s t rest : Bytes} (h : string s = some (t, rest)) :
    quotes s = quotes rest + 1 := by
  fun_induction string s generalizing t with
  | case1 => cases h
  | case2 s =>
    obtain ⟨-, rfl⟩ := Prod.mk.inj (Option.some.inj h)
    exact quotes_quote s
  | case3 _ a b c d s ih =>
    simp only [Option.bind_eq_bind, Option.bind_eq_some_iff, Option.some.injEq, Prod.mk.injEq] at h
    obtain ⟨u, ha, v, hb, w, hc, x, hd, p, hp, -, rfl⟩ := h
    rw [quotes_escape, quotes_cons (hexValue_plain ha).1 (hexValue_plain ha).2,
      quotes_cons (hexValue_plain hb).1 (hexValue_plain hb).2,
      quotes_cons (hexValue_plain hc).1 (hexValue_plain hc).2,
      quotes_cons (hexValue_plain hd).1 (hexValue_plain hd).2]
    exact ih hp
  | case4 e s _ _ ih =>
    simp only [Option.bind_eq_bind, Option.bind_eq_some_iff, Option.some.injEq, Prod.mk.injEq] at h
    obtain ⟨b, -, p, hp, -, rfl⟩ := h
    rw [quotes_escape]
    exact ih hp
  | case5 => cases h
  | case6 => cases h
  | case7 c s hq hb _ ih =>
    simp only [Option.bind_eq_bind, Option.bind_eq_some_iff, Option.some.injEq, Prod.mk.injEq] at h
    obtain ⟨p, hp, -, rfl⟩ := h
    rw [quotes_cons hq hb]
    exact ih hp

theorem quotes_plain {s : Bytes} (hq : QUOTE ∉ s) (hb : BACKSLASH ∉ s) (t : Bytes) :
    quotes (s ++ t) = quotes t := by
  rw [quotes_append hb, List.count_eq_zero_of_not_mem hq, Nat.zero_add]

/-- What holds of the text `s` and the rest behind a part of it: two quotes for each of `count`
strings, and only numerals. -/
def Sound (s rest : Bytes) (count : Nat) (nums : List Bytes) : Prop :=
  quotes s = quotes rest + 2 * count ∧ ∀ t ∈ nums, isNumber t = true

theorem Sound.trans {s t rest : Bytes} {i j : Nat} {nums more : List Bytes} (h : Sound s t i nums)
    (h' : Sound t rest j more) : Sound s rest (i + j) (nums ++ more) := by
  refine ⟨?_, ?_⟩
  · rw [h.1, h'.1]
    omega
  · intro x hx
    exact (List.mem_append.mp hx).elim (h.2 x) (h'.2 x)

/-- Blanks before a text. -/
theorem Sound.of_skipWs {s rest : Bytes} {count : Nat} {nums : List Bytes}
    (h : Sound (skipWs s) rest count nums) : Sound s rest count nums :=
  ⟨quotes_skipWs s ▸ h.1, h.2⟩

/-- A character before a text. -/
theorem Sound.cons {c : UInt8} (hq : c ≠ QUOTE) (hb : c ≠ BACKSLASH) {s rest : Bytes} {count : Nat}
    {nums : List Bytes} (h : Sound s rest count nums) : Sound (c :: s) rest count nums :=
  ⟨(quotes_cons hq hb s).trans h.1, h.2⟩

theorem sound_stripPrefix {w s t : Bytes} (hq : QUOTE ∉ w) (hb : BACKSLASH ∉ w)
    (h : stripPrefix w s = some t) : Sound s t 0 [] := by
  rw [stripPrefix_eq_some.mp h, Sound, quotes_plain hq hb]
  exact ⟨rfl, List.forall_mem_nil _⟩

theorem sound_expect {c : UInt8} {s t : Bytes} (hq : c ≠ QUOTE) (hb : c ≠ BACKSLASH)
    (h : expect c (skipWs s) = some t) : Sound s t 0 [] := by
  refine Sound.of_skipWs ?_
  rw [expect_eq_some h]
  exact Sound.cons hq hb ⟨rfl, List.forall_mem_nil _⟩

/-- A string behind its opening quote. -/
theorem sound_string {s t rest : Bytes} (h : string s = some (t, rest)) :
    Sound (QUOTE :: s) rest 1 [] := by
  refine ⟨?_, List.forall_mem_nil _⟩
  rw [quotes_quote, string_quotes h]

theorem scalar_sound {s rest : Bytes} {v : Value} (h : scalar s = some (v, rest)) :
    Sound s rest (strings v) (numbers v) := by
  unfold scalar at h
  split at h
  next t hs =>
    obtain ⟨rfl, rfl⟩ := Prod.mk.inj (Option.some.inj h)
    exact sound_stripPrefix (by decide) (by decide) hs
  split at h
  next t hs =>
    obtain ⟨rfl, rfl⟩ := Prod.mk.inj (Option.some.inj h)
    exact sound_stripPrefix (by decide) (by decide) hs
  split at h
  next t hs =>
    obtain ⟨rfl, rfl⟩ := Prod.mk.inj (Option.some.inj h)
    exact sound_stripPrefix (by decide) (by decide) hs
  simp only at h
  split at h
  next hn =>
    obtain ⟨rfl, rfl⟩ := Prod.mk.inj (Option.some.inj h)
    have hq : QUOTE ∉ s.takeWhile isNumChar := fun hm =>
      absurd (List.mem_takeWhile_imp hm) (by decide)
    have hb : BACKSLASH ∉ s.takeWhile isNumChar := fun hm =>
      absurd (List.mem_takeWhile_imp hm) (by decide)
    have hquotes := quotes_plain hq hb (s.dropWhile isNumChar)
    rw [List.takeWhile_append_dropWhile] at hquotes
    exact ⟨by simpa [strings] using hquotes, by simpa [numbers] using hn⟩
  · cases h

/-- Every value that is read with the bound `n` is sound. -/
def SoundValues (n : Nat) : Prop :=
  ∀ s v rest, value n s = some (v, rest) → Sound s rest (strings v) (numbers v)

def SoundMembers (n : Nat) : Prop :=
  ∀ s ms rest, members n s = some (ms, rest) → Sound s rest (stringsMembers ms) (numbersMembers ms)

def SoundElements (n : Nat) : Prop :=
  ∀ s vs rest, elements n s = some (vs, rest) → Sound s rest (stringsAll vs) (numbersAll vs)

theorem soundValues_succ {n : Nat} (hm : SoundMembers n) (he : SoundElements n) :
    SoundValues (n + 1) := by
  intro s v rest h
  cases s with
  | nil => simp [value] at h
  | cons c s =>
    rw [value] at h
    split at h
    next hc =>
      obtain ⟨p, hp, e⟩ := Option.map_eq_some_iff.mp h
      obtain ⟨rfl, rfl⟩ := Prod.mk.inj e
      rw [hc, strings, numbers]
      · exact sound_string hp
      all_goals simp
    split at h
    next hc =>
      refine hc ▸ Sound.cons (by decide) (by decide) ?_
      split at h
      next t ht =>
        obtain ⟨rfl, rfl⟩ := Prod.mk.inj (Option.some.inj h)
        exact sound_expect (by decide) (by decide) ht
      · obtain ⟨p, hp, e⟩ := Option.map_eq_some_iff.mp h
        obtain ⟨rfl, rfl⟩ := Prod.mk.inj e
        rw [strings, numbers]
        exact (hm _ _ _ hp).of_skipWs
    split at h
    next hc =>
      refine hc ▸ Sound.cons (by decide) (by decide) ?_
      split at h
      next t ht =>
        obtain ⟨rfl, rfl⟩ := Prod.mk.inj (Option.some.inj h)
        exact sound_expect (by decide) (by decide) ht
      · obtain ⟨p, hp, e⟩ := Option.map_eq_some_iff.mp h
        obtain ⟨rfl, rfl⟩ := Prod.mk.inj e
        rw [strings, numbers]
        exact (he _ _ _ hp).of_skipWs
    · exact scalar_sound h

theorem soundMembers_succ {n : Nat} (hv : SoundValues n) (hm : SoundMembers n) :
    SoundMembers (n + 1) := by
  intro s ms rest h
  rw [members] at h
  simp only [Option.bind_eq_bind, Option.bind_eq_some_iff, Prod.exists] at h
  obtain ⟨s₁, hs₁, key, s₂, hkey, s₃, hs₃, v, s₄, hval, h⟩ := h
  have hone : Sound s s₄ (1 + strings v) (numbers v) := by
    have hcolon := sound_expect (by decide) (by decide) hs₃
    have hmember := ((sound_string hkey).trans hcolon).trans (hv _ _ _ hval).of_skipWs
    rw [expect_eq_some hs₁]
    simpa using hmember
  split at h
  next t ht =>
    obtain ⟨rfl, rfl⟩ := Prod.mk.inj (Option.some.inj h)
    exact hone.trans (sound_expect (by decide) (by decide) ht)
  · obtain ⟨s₅, hs₅, h⟩ := Option.bind_eq_some_iff.mp h
    obtain ⟨p, hp, e⟩ := Option.map_eq_some_iff.mp h
    obtain ⟨rfl, rfl⟩ := Prod.mk.inj e
    have hcomma := sound_expect (by decide) (by decide) hs₅
    simpa [stringsMembers, numbersMembers] using
      hone.trans (hcomma.trans (hm _ _ _ hp).of_skipWs)

theorem soundElements_succ {n : Nat} (hv : SoundValues n) (he : SoundElements n) :
    SoundElements (n + 1) := by
  intro s vs rest h
  rw [elements] at h
  simp only [Option.bind_eq_bind, Option.bind_eq_some_iff, Prod.exists] at h
  obtain ⟨v, s₁, hval, h⟩ := h
  have hone := hv _ _ _ hval
  split at h
  next t ht =>
    obtain ⟨rfl, rfl⟩ := Prod.mk.inj (Option.some.inj h)
    exact hone.trans (sound_expect (by decide) (by decide) ht)
  · obtain ⟨s₂, hs₂, h⟩ := Option.bind_eq_some_iff.mp h
    obtain ⟨p, hp, e⟩ := Option.map_eq_some_iff.mp h
    obtain ⟨rfl, rfl⟩ := Prod.mk.inj e
    have hcomma := sound_expect (by decide) (by decide) hs₂
    simpa [stringsAll, numbersAll] using hone.trans (hcomma.trans (he _ _ _ hp).of_skipWs)

/-- **Soundness**, by induction on the bound, for values, members and elements at once. -/
theorem sound (n : Nat) : SoundValues n ∧ SoundMembers n ∧ SoundElements n := by
  induction n with
  | zero =>
    refine ⟨?_, ?_, ?_⟩ <;> intro s x rest h
    · simp [value] at h
    · simp [members] at h
    · simp [elements] at h
  | succ n ih =>
    obtain ⟨hv, hm, he⟩ := ih
    exact ⟨soundValues_succ hm he, soundMembers_succ hv hm, soundElements_succ hv he⟩

/-- **Soundness of whole texts.** -/
theorem parse_sound {s : Bytes} {v : Value} (h : parse s = some v) :
    quotes s = 2 * strings v ∧ ∀ t ∈ numbers v, isNumber t = true := by
  simp only [parse, Option.bind_eq_bind, Option.bind_eq_some_iff, Prod.exists] at h
  obtain ⟨w, rest, hv, h⟩ := h
  split at h
  next hws =>
    obtain rfl := Option.some.inj h
    obtain ⟨hquotes, hnums⟩ := (sound _).1 _ _ _ hv
    rw [quotes_skipWs, ← quotes_skipWs rest, hws] at hquotes
    exact ⟨by simpa [quotes] using hquotes, hnums⟩
  · cases h

end TrafficMonitor.Json
