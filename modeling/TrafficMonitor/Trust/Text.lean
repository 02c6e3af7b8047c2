import TrafficMonitor.Basic.Base64
import TrafficMonitor.Basic.Lines

/-!
# Readers of the strict text formats (`trust.hpp`, `detail`)

`b64Decode`, `splitLines`, `splitFields` and `isId` as the code has them, with the texts
that they accept.

Proved here:

* `b64Decode_eq_some`: the accepted texts are the padded encodings of nonempty values;
* `splitLines_eq_some`, `splitFields_eq_some`: the text is its lines, each ended by a line
  feed, or its fields, with single spaces between them.
-/

namespace TrafficMonitor.Trust

open Bytes Base64

/-! ## The code -/

/-- The lambda `val` of `b64Decode`. -/
def val (c : UInt8) : Option Nat :=
  if 65 ≤ c && c ≤ 90 then some (c.toNat - 65)
  else if 97 ≤ c && c ≤ 122 then some (c.toNat - 97 + 26)
  else if 48 ≤ c && c ≤ 57 then some (c.toNat - 48 + 52)
  else if c = 43 then some 62
  else if c = 47 then some 63
  else none

/-- The character `j` of a group; the padding character stands only at the end. -/
def sextetAt (last : Bool) (pad j : Nat) (c : UInt8) : Option Nat :=
  if c = PAD then if !last || j < 4 - pad then none else some 0 else val c

/-- One round of the loop of `b64Decode`. -/
def b64Group (last : Bool) (pad : Nat) (a b c d : UInt8) : Option Bytes := do
  let p ← sextetAt last pad 0 a
  let q ← sextetAt last pad 1 b
  let r ← sextetAt last pad 2 c
  let t ← sextetAt last pad 3 d
  let n := ((p * 64 + q) * 64 + r) * 64 + t
  if last && pad = 2 && n % 65536 ≠ 0 then none
  else if last && pad = 1 && n % 256 ≠ 0 then none
  else some ((octetsOf p q r t).take (if last then 3 - pad else 3))

def b64Groups (pad : Nat) : Bytes → Option Bytes
  | a :: b :: c :: d :: s => do
    let g ← b64Group s.isEmpty pad a b c d
    let rest ← b64Groups pad s
    some (g ++ rest)
  | _ => some []

/-- How many of the last two characters are padding. -/
def padOf (s : Bytes) : Nat := (s.rtake 2).count PAD

def b64Decode (s : Bytes) : Option Bytes :=
  if s.isEmpty || s.length % 4 ≠ 0 then none else b64Groups (padOf s) s

/-- The loop of `splitLines`, with the line that is being read and the lines before it. -/
def splitLinesFrom (line : Bytes) (lines : List Bytes) : Bytes → Option (List Bytes)
  | [] => some lines
  | c :: s =>
    if c = CR || c = NUL then none
    else if c = LF then
      if line.isEmpty then none else splitLinesFrom [] (lines ++ [line]) s
    else splitLinesFrom (line ++ [c]) lines s

def splitLines (s : Bytes) : Option (List Bytes) :=
  if s.getLast? = some LF then splitLinesFrom [] [] s else none

/-- The loop of `splitFields`. -/
def splitFieldsFrom (field : Bytes) (fields : List Bytes) : Bytes → Option (List Bytes)
  | [] => if field.isEmpty then none else some (fields ++ [field])
  | c :: s =>
    if c = SP then
      if field.isEmpty then none else splitFieldsFrom [] (fields ++ [field]) s
    else splitFieldsFrom (field ++ [c]) fields s

def splitFields (s : Bytes) (n : Nat) : Option (List Bytes) :=
  (splitFieldsFrom [] [] s).filter fun f => f.length = n

def isIdChar (c : UInt8) : Bool := (97 ≤ c && c ≤ 122) || (48 ≤ c && c ≤ 57) || c = 45

def isId (s : Bytes) : Bool := !s.isEmpty && s.length ≤ 32 && s.all isIdChar

def isKnownPlatform (p : Bytes) : Bool := p = ascii "linux-amd64" || p = ascii "windows-amd64"

/-! ## Base64 -/

private theorem val_eq_some {c : UInt8} {n : Nat} (h : val c = some n) :
    n < 64 ∧ standard.enc n = c := by
  have all : ∀ k : Fin 256, ∀ n ∈ val (UInt8.ofFin k), n < 64 ∧ standard.enc n = UInt8.ofFin k := by
    decide +kernel
  exact all c.toFin n h

private theorem val_enc {n : Nat} (h : n < 64) : val (standard.enc n) = some n := by
  have : ∀ n < 64, val (standard.enc n) = some n := by decide +kernel
  exact this n h

theorem sextetAt_enc {last : Bool} {pad j n : Nat} (h : n < 64) :
    sextetAt last pad j (standard.enc n) = some n := by
  rw [sextetAt, if_neg (enc_ne_pad h), val_enc h]

theorem sextetAt_pad {pad j : Nat} (h : 4 - pad ≤ j) : sextetAt true pad j PAD = some 0 := by
  simp [sextetAt, Nat.not_lt.mpr h]

/-- A character is read as its sextet, or is padding in one of the places for it. -/
private theorem sextetAt_cases {last : Bool} {pad j n : Nat} {c : UInt8}
    (h : sextetAt last pad j c = some n) :
    n < 64 ∧ (c ≠ PAD ∧ standard.enc n = c ∨ c = PAD ∧ last = true ∧ 4 - pad ≤ j ∧ n = 0) := by
  unfold sextetAt at h
  split at h
  · rename_i hc
    split at h
    · cases h
    · rename_i hn
      cases h
      simp only [Bool.or_eq_true, Bool.not_eq_true', decide_eq_true_eq, not_or, Bool.not_eq_false,
        not_lt] at hn
      exact ⟨by omega, .inr ⟨hc, hn.1, hn.2, rfl⟩⟩
  · rename_i hc
    exact ⟨(val_eq_some h).1, .inl ⟨hc, (val_eq_some h).2⟩⟩

/-- Four sextets are the group of the octets that they make up. -/
private theorem groupOf_octets {p q r t : Nat} (hp : p < 64) (hq : q < 64) (hr : r < 64)
    (ht : t < 64) {x y z : UInt8} (h : octetsOf p q r t = [x, y, z]) :
    groupOf (word x y z) = [p, q, r, t] := by
  simp only [octetsOf, List.cons.injEq, and_true, ← UInt8.toNat_inj, UInt8.toNat_ofNat'] at h
  obtain ⟨hx, hy, hz⟩ := h
  have hw : word x y z = ((p * 64 + q) * 64 + r) * 64 + t := by
    unfold word
    omega
  simp only [groupOf, hw, List.cons.injEq, and_true]
  refine ⟨?_, ?_, ?_, ?_⟩ <;> omega

private theorem b64Group_eq_some {last : Bool} {pad : Nat} {a b c d : UInt8} {g : Bytes}
    (h : b64Group last pad a b c d = some g) : ∃ p q r t,
      sextetAt last pad 0 a = some p ∧ sextetAt last pad 1 b = some q ∧
      sextetAt last pad 2 c = some r ∧ sextetAt last pad 3 d = some t ∧
      (last = true → pad = 2 → (((p * 64 + q) * 64 + r) * 64 + t) % 65536 = 0) ∧
      (last = true → pad = 1 → (((p * 64 + q) * 64 + r) * 64 + t) % 256 = 0) ∧
      g = (octetsOf p q r t).take (if last then 3 - pad else 3) := by
  simp only [b64Group, Option.bind_eq_bind, Option.bind_eq_some_iff] at h
  obtain ⟨p, hp, q, hq, r, hr, t, ht, h⟩ := h
  split at h
  · cases h
  · rename_i h₂
    split at h
    · cases h
    · rename_i h₁
      cases h
      simp only [Bool.and_eq_true, decide_eq_true_eq, ne_eq, not_and, not_not] at h₁ h₂
      exact ⟨p, q, r, t, hp, hq, hr, ht, fun hl e => h₂ ⟨hl, e⟩, fun hl e => h₁ ⟨hl, e⟩, rfl⟩

private theorem b64Group_of {last : Bool} {pad : Nat} {a b c d : UInt8} {p q r t : Nat}
    (hp : sextetAt last pad 0 a = some p) (hq : sextetAt last pad 1 b = some q)
    (hr : sextetAt last pad 2 c = some r) (ht : sextetAt last pad 3 d = some t)
    (h₂ : last = true → pad = 2 → (((p * 64 + q) * 64 + r) * 64 + t) % 65536 = 0)
    (h₁ : last = true → pad = 1 → (((p * 64 + q) * 64 + r) * 64 + t) % 256 = 0) :
    b64Group last pad a b c d = some ((octetsOf p q r t).take (if last then 3 - pad else 3)) := by
  simp only [b64Group, hp, hq, hr, ht, Option.bind_eq_bind, Option.bind_some]
  rw [if_neg, if_neg]
  · simpa using h₁
  · simpa using h₂

/-- A group of four characters of the alphabet is three octets. -/
private theorem b64Group_full {last : Bool} {pad : Nat} {a b c d : UInt8} {g : Bytes}
    (hl : last = true → pad = 0) (h : b64Group last pad a b c d = some g) :
    ∃ x y z, g = [x, y, z] ∧ [a, b, c, d] = (groupOf (word x y z)).map standard.enc := by
  obtain ⟨p, q, r, t, hp, hq, hr, ht, -, -, rfl⟩ := b64Group_eq_some h
  have plain : ∀ {j n : Nat} {e : UInt8}, j < 4 → sextetAt last pad j e = some n →
      n < 64 ∧ standard.enc n = e := by
    intro j n e hj he
    rcases sextetAt_cases he with ⟨hn, ⟨-, he⟩ | ⟨-, h, hj', -⟩⟩
    · exact ⟨hn, he⟩
    · have := hl h
      omega
  obtain ⟨lp, rfl⟩ := plain (by omega) hp
  obtain ⟨lq, rfl⟩ := plain (by omega) hq
  obtain ⟨lr, rfl⟩ := plain (by omega) hr
  obtain ⟨lt, rfl⟩ := plain (by omega) ht
  have h3 : (if last then 3 - pad else 3) = 3 := by
    cases last
    · rfl
    · simp [hl rfl]
  refine ⟨_, _, _, by rw [h3]; rfl, ?_⟩
  rw [groupOf_octets lp lq lr lt rfl]
  rfl

/-- The last group is the padded encoding of the octets that it is read as. -/
private theorem b64Group_last {a b c d : UInt8} {g : Bytes}
    (h : b64Group true ([c, d].count PAD) a b c d = some g) :
    g ≠ [] ∧ [a, b, c, d] = encodeBlock g := by
  by_cases hc : c = PAD <;> by_cases hd : d = PAD
  · have hpad : [c, d].count PAD = 2 := by simp [hc, hd]
    rw [hpad] at h
    obtain ⟨p, q, r, t, hp, hq, hr, ht, h₂, -, rfl⟩ := b64Group_eq_some h
    obtain ⟨lp, ⟨-, rfl⟩ | ⟨-, -, hj, -⟩⟩ := sextetAt_cases hp
    swap
    · omega
    obtain ⟨lq, ⟨-, rfl⟩ | ⟨-, -, hj, -⟩⟩ := sextetAt_cases hq
    swap
    · omega
    obtain ⟨-, ⟨hn, -⟩ | ⟨-, -, -, rfl⟩⟩ := sextetAt_cases hr
    · exact absurd hc hn
    obtain ⟨-, ⟨hn, -⟩ | ⟨-, -, -, rfl⟩⟩ := sextetAt_cases ht
    · exact absurd hd hn
    have hz := h₂ rfl rfl
    obtain ⟨x, ho⟩ : ∃ x, octetsOf p q 0 0 = [x, 0, 0] := by
      refine ⟨UInt8.ofNat ((((p * 64 + q) * 64 + 0) * 64 + 0) / 65536), ?_⟩
      simp only [octetsOf, List.cons.injEq, and_true, true_and, ← UInt8.toNat_inj,
        UInt8.toNat_ofNat', UInt8.toNat_zero]
      omega
    have hg := groupOf_octets lp lq (by omega) (by omega) ho
    refine ⟨by simp [ho], ?_⟩
    simp [ho, hc, hd, encodeBlock, sextets, hg, padding, List.replicate]
  · have hpad : [c, d].count PAD = 1 := by simp [hc, hd]
    rw [hpad] at h
    obtain ⟨p, q, r, t, -, -, hr, -, -, -, rfl⟩ := b64Group_eq_some h
    obtain ⟨-, ⟨hn, -⟩ | ⟨-, -, hj, -⟩⟩ := sextetAt_cases hr
    · exact absurd hc hn
    · omega
  · have hpad : [c, d].count PAD = 1 := by simp [hc, hd]
    rw [hpad] at h
    obtain ⟨p, q, r, t, hp, hq, hr, ht, -, h₁, rfl⟩ := b64Group_eq_some h
    obtain ⟨lp, ⟨-, rfl⟩ | ⟨-, -, hj, -⟩⟩ := sextetAt_cases hp
    swap
    · omega
    obtain ⟨lq, ⟨-, rfl⟩ | ⟨-, -, hj, -⟩⟩ := sextetAt_cases hq
    swap
    · omega
    obtain ⟨lr, ⟨-, rfl⟩ | ⟨hn, -⟩⟩ := sextetAt_cases hr
    swap
    · exact absurd hn hc
    obtain ⟨-, ⟨hn, -⟩ | ⟨-, -, -, rfl⟩⟩ := sextetAt_cases ht
    · exact absurd hd hn
    have hz := h₁ rfl rfl
    obtain ⟨x, y, ho⟩ : ∃ x y, octetsOf p q r 0 = [x, y, 0] := by
      refine ⟨UInt8.ofNat ((((p * 64 + q) * 64 + r) * 64 + 0) / 65536),
        UInt8.ofNat ((((p * 64 + q) * 64 + r) * 64 + 0) / 256), ?_⟩
      simp only [octetsOf, List.cons.injEq, and_true, true_and, ← UInt8.toNat_inj,
        UInt8.toNat_ofNat', UInt8.toNat_zero]
      omega
    have hg := groupOf_octets lp lq lr (by omega) ho
    refine ⟨by simp [ho], ?_⟩
    simp [ho, hd, encodeBlock, sextets, hg, padding]
  · have hpad : [c, d].count PAD = 0 := by simp [hc, hd]
    rw [hpad] at h
    obtain ⟨x, y, z, rfl, e⟩ := b64Group_full (fun _ => rfl) h
    refine ⟨by simp, ?_⟩
    rw [encodeBlock_cons, e]
    rfl

private theorem padOf_append {s t : Bytes} (h : 2 ≤ t.length) : padOf (s ++ t) = padOf t := by
  have e : (s ++ t).length - 2 = s.length + (t.length - 2) := by
    rw [List.length_append]
    omega
  rw [padOf, padOf, List.rtake, e, List.drop_length_add_append, List.rtake]

private theorem b64Groups_sound {pad : Nat} {s out : Bytes} (hlen : s.length % 4 = 0) (hne : s ≠ [])
    (hpad : padOf s = pad) (h : b64Groups pad s = some out) : out ≠ [] ∧ s = encodeBlock out := by
  induction s using b64Groups.induct generalizing out with
  | case1 a b c d s ih =>
    simp only [b64Groups, Option.bind_eq_bind, Option.bind_eq_some_iff] at h
    obtain ⟨g, hg, rest, hrest, h⟩ := h
    cases h
    by_cases hs : s = []
    · subst hs
      obtain rfl : rest = [] := by simpa [b64Groups] using hrest.symm
      subst hpad
      simpa using b64Group_last hg
    · have hs4 : 4 ≤ s.length := by
        have := List.length_pos_iff.mpr hs
        simp only [List.length_cons] at hlen
        omega
      have hlast : s.isEmpty = false := by simpa using hs
      rw [hlast] at hg
      obtain ⟨x, y, z, rfl, e⟩ := b64Group_full (by simp) hg
      have hp : padOf s = pad := by
        rw [← hpad]
        exact (padOf_append (s := [a, b, c, d]) (by omega)).symm
      obtain ⟨-, hs'⟩ := ih (by simp only [List.length_cons] at hlen; omega) hs hp hrest
      refine ⟨by simp, ?_⟩
      rw [List.cons_append, List.cons_append, List.cons_append, List.nil_append, encodeBlock_cons,
        ← e, ← hs']
      rfl
  | case2 s hs =>
    rcases s with _ | ⟨a, _ | ⟨b, _ | ⟨c, _ | ⟨d, s⟩⟩⟩⟩
    · exact absurd rfl hne
    · simp at hlen
    · simp at hlen
    · simp at hlen
    · exact absurd rfl (hs a b c d s)

private theorem b64Group_enc {last : Bool} {pad : Nat} (hl : last = true → pad = 0)
    (a b c : UInt8) : b64Group last pad (standard.enc (word a b c / 262144))
      (standard.enc (word a b c / 4096 % 64)) (standard.enc (word a b c / 64 % 64))
      (standard.enc (word a b c % 64)) = some [a, b, c] := by
  have hw := word_lt a b c
  have lp : word a b c / 262144 < 64 := by omega
  have lq : word a b c / 4096 % 64 < 64 := by omega
  have lr : word a b c / 64 % 64 < 64 := by omega
  have lt : word a b c % 64 < 64 := by omega
  rw [b64Group_of (sextetAt_enc lp) (sextetAt_enc lq) (sextetAt_enc lr) (sextetAt_enc lt)
    (fun h e => absurd ((hl h).symm.trans e) (by decide))
    (fun h e => absurd ((hl h).symm.trans e) (by decide)), octetsOf_group]
  cases last
  · rfl
  · simp [hl rfl]

private theorem encodeBlock_eq_nil {s : Bytes} (h : encodeBlock s = []) : s = [] := by
  have hl := length_encodeBlock s
  rw [h, List.length_nil] at hl
  exact List.length_eq_zero_iff.mp (by omega)

private theorem b64Group_one (a : UInt8) : b64Group true 2 (standard.enc (word a 0 0 / 262144))
    (standard.enc (word a 0 0 / 4096 % 64)) PAD PAD = some [a] := by
  have ho := octetsOf_group a 0 0
  have hw := word_lt a 0 0
  have h0 : word a 0 0 / 64 % 64 = 0 ∧ word a 0 0 % 64 = 0 ∧ word a 0 0 % 65536 = 0 := by
    simp only [word, UInt8.toNat_zero]
    omega
  rw [h0.1, h0.2.1] at ho
  have lp : word a 0 0 / 262144 < 64 := by omega
  have lq : word a 0 0 / 4096 % 64 < 64 := by omega
  have hz : (((word a 0 0 / 262144 * 64 + word a 0 0 / 4096 % 64) * 64 + 0) * 64 + 0) % 65536 =
      0 := by omega
  rw [b64Group_of (sextetAt_enc lp) (sextetAt_enc lq) (sextetAt_pad (by decide))
    (sextetAt_pad (by decide)) (fun _ _ => hz) (fun _ h => absurd h (by decide)), ho]
  rfl

private theorem b64Group_two (a b : UInt8) : b64Group true 1 (standard.enc (word a b 0 / 262144))
    (standard.enc (word a b 0 / 4096 % 64)) (standard.enc (word a b 0 / 64 % 64)) PAD =
      some [a, b] := by
  have ho := octetsOf_group a b 0
  have hw := word_lt a b 0
  have h0 : word a b 0 % 64 = 0 ∧ word a b 0 % 256 = 0 := by
    simp only [word, UInt8.toNat_zero]
    omega
  rw [h0.1] at ho
  have lp : word a b 0 / 262144 < 64 := by omega
  have lq : word a b 0 / 4096 % 64 < 64 := by omega
  have lr : word a b 0 / 64 % 64 < 64 := by omega
  have hz : (((word a b 0 / 262144 * 64 + word a b 0 / 4096 % 64) * 64 + word a b 0 / 64 % 64) * 64 +
      0) % 256 = 0 := by omega
  rw [b64Group_of (sextetAt_enc lp) (sextetAt_enc lq) (sextetAt_enc lr) (sextetAt_pad (by decide))
    (fun _ h => absurd h (by decide)) (fun _ _ => hz), ho]
  rfl

private theorem b64Groups_encodeBlock (out : Bytes) :
    b64Groups (padding out) (encodeBlock out) = some out := by
  fun_induction sextets out with
  | case1 => rfl
  | case2 a => simp [encodeBlock, sextets, groupOf, padding, List.replicate, b64Groups, b64Group_one]
  | case3 a b => simp [encodeBlock, sextets, groupOf, padding, b64Groups, b64Group_two]
  | case4 a b c s ih =>
    have hl : (encodeBlock s).isEmpty = true → padding s = 0 := by
      intro h
      rw [encodeBlock_eq_nil (List.isEmpty_iff.mp h)]
      rfl
    rw [encodeBlock_cons, padding_cons]
    simp [groupOf, b64Groups, b64Group_enc hl, ih]

private theorem padOf_encodeBlock (out : Bytes) : padOf (encodeBlock out) = padding out := by
  fun_induction sextets out with
  | case1 => rfl
  | case2 a => simp [encodeBlock, sextets, groupOf, padding, padOf, List.rtake, List.replicate]
  | case3 a b =>
    have hn := enc_ne_pad (show word a b 0 / 64 % 64 < 64 by omega)
    simp [encodeBlock, sextets, groupOf, padding, padOf, List.rtake, hn]
  | case4 a b c s ih =>
    rw [encodeBlock_cons, padding_cons]
    by_cases hs : s = []
    · subst hs
      have hr := enc_ne_pad (show word a b c / 64 % 64 < 64 by omega)
      have ht := enc_ne_pad (show word a b c % 64 < 64 by omega)
      simp [groupOf, padOf, List.rtake, encodeBlock, sextets, padding, hr, ht]
    · have hlen := length_encodeBlock s
      have := List.length_pos_iff.mpr hs
      rw [padOf_append (by omega), ih]

/-- **Strict base64.** -/
theorem b64Decode_eq_some {s out : Bytes} :
    b64Decode s = some out ↔ out ≠ [] ∧ s = encodeBlock out := by
  unfold b64Decode
  constructor
  · intro h
    split at h
    · cases h
    · rename_i hs
      simp only [Bool.or_eq_true, List.isEmpty_iff, decide_eq_true_eq, not_or, ne_eq,
        not_not] at hs
      exact b64Groups_sound hs.2 hs.1 rfl h
  · rintro ⟨hne, rfl⟩
    have hlen := length_encodeBlock out
    have hpos := List.length_pos_iff.mpr hne
    rw [if_neg, padOf_encodeBlock, b64Groups_encodeBlock]
    simp only [Bool.or_eq_true, List.isEmpty_iff, decide_eq_true_eq, not_or, ne_eq, not_not]
    refine ⟨fun e => ?_, by omega⟩
    rw [e] at hlen
    simp at hlen
    omega

/-! ## Lines and fields -/

/-- What may stand on a line. -/
def IsLine (l : Bytes) : Prop := l ≠ [] ∧ LF ∉ l ∧ CR ∉ l ∧ NUL ∉ l

private theorem splitLinesFrom_line {l : Bytes} (h : LF ∉ l ∧ CR ∉ l ∧ NUL ∉ l) (line s : Bytes)
    (lines : List Bytes) :
    splitLinesFrom line lines (l ++ s) = splitLinesFrom (line ++ l) lines s := by
  induction l generalizing line with
  | nil => simp
  | cons c l ih =>
    simp only [List.mem_cons, not_or] at h
    rw [List.cons_append, splitLinesFrom, if_neg (by simp [Ne.symm h.2.1.1, Ne.symm h.2.2.1]),
      if_neg (Ne.symm h.1.1), ih ⟨h.1.2, h.2.1.2, h.2.2.2⟩]
    simp

private theorem splitLinesFrom_join {ls : List Bytes} (h : ∀ l ∈ ls, IsLine l) (lines : List Bytes) :
    splitLinesFrom [] lines (Lines.join LF ls) = some (lines ++ ls) := by
  induction ls generalizing lines with
  | nil => simp [splitLinesFrom]
  | cons l ls ih =>
    have hl := h l (by simp)
    rw [Lines.join_cons, splitLinesFrom_line hl.2, splitLinesFrom, if_neg (by decide), if_pos rfl,
      List.nil_append, if_neg (by simpa using hl.1), ih fun m hm => h m (by simp [hm])]
    simp

/-- The lines are read one after the other; the text ends with the last of them. -/
private theorem splitLinesFrom_sound {line s : Bytes} {lines ls : List Bytes}
    (hl : LF ∉ line ∧ CR ∉ line ∧ NUL ∉ line) (hend : (line ++ s).getLast? = some LF ∨ line ++ s = [])
    (h : splitLinesFrom line lines s = some ls) :
    ∃ new, ls = lines ++ new ∧ line ++ s = Lines.join LF new ∧ ∀ l ∈ new, IsLine l := by
  induction s generalizing line lines with
  | nil =>
    cases h
    rcases hend with h | h
    · rw [List.append_nil] at h
      exact absurd (List.mem_of_getLast? h) hl.1
    · exact ⟨[], by simp, h, by simp⟩
  | cons c s ih =>
    rw [splitLinesFrom] at h
    split at h
    · cases h
    · rename_i hc
      simp only [Bool.or_eq_true, decide_eq_true_eq, not_or] at hc
      split at h
      · rename_i hlf
        subst hlf
        split at h
        · cases h
        · rename_i hne
          have hend' : ([] ++ s).getLast? = some LF ∨ [] ++ s = [] := by
            rcases hend with h | h
            · cases s with
              | nil => exact .inr rfl
              | cons d s => simpa using h
            · simp at h
          obtain ⟨new, rfl, hs, hn⟩ := ih (by simp) hend' h
          rw [List.nil_append] at hs
          refine ⟨line :: new, by simp, by rw [Lines.join_cons, ← hs], ?_⟩
          intro l hm
          rcases List.mem_cons.mp hm with rfl | hm
          · exact ⟨by simpa using hne, hl⟩
          · exact hn l hm
      · rename_i hlf
        have hl' : LF ∉ line ++ [c] ∧ CR ∉ line ++ [c] ∧ NUL ∉ line ++ [c] := by
          simp [hl, Ne.symm hlf, Ne.symm hc.1, Ne.symm hc.2]
        obtain ⟨new, e, hs, hn⟩ := ih hl' (by simpa using hend) h
        exact ⟨new, e, by simpa using hs, hn⟩

/-- **Lines.** -/
theorem splitLines_eq_some {s : Bytes} {ls : List Bytes} :
    splitLines s = some ls ↔ ls ≠ [] ∧ s = Lines.join LF ls ∧ ∀ l ∈ ls, IsLine l := by
  constructor
  · intro h
    unfold splitLines at h
    split at h
    · rename_i hend
      obtain ⟨new, rfl, hs, hn⟩ := splitLinesFrom_sound (by simp) (.inl (by simpa using hend)) h
      simp only [List.nil_append] at hs ⊢
      refine ⟨?_, hs, hn⟩
      rintro rfl
      simp [hs] at hend
    · cases h
  · rintro ⟨hne, rfl, hl⟩
    have hend : (Lines.join LF ls).getLast? = some LF := by
      obtain ⟨ms, l, rfl⟩ : ∃ ms l, ls = ms ++ [l] :=
      ⟨_, _, (List.dropLast_append_getLast hne).symm⟩
      simp [List.getLast?_append]
    rw [splitLines, if_pos hend, splitLinesFrom_join hl, List.nil_append]

def IsField (f : Bytes) : Prop := f ≠ [] ∧ SP ∉ f

private theorem splitFieldsFrom_field {f : Bytes} (h : SP ∉ f) (field s : Bytes)
    (fields : List Bytes) :
    splitFieldsFrom field fields (f ++ s) = splitFieldsFrom (field ++ f) fields s := by
  induction f generalizing field with
  | nil => simp
  | cons c f ih =>
    simp only [List.mem_cons, not_or] at h
    rw [List.cons_append, splitFieldsFrom, if_neg (Ne.symm h.1), ih h.2]
    simp

private theorem splitFieldsFrom_join {f : Bytes} {fs : List Bytes} (h : ∀ g ∈ f :: fs, IsField g)
    (fields : List Bytes) : splitFieldsFrom [] fields (f ++ fs.flatMap fun g => SP :: g) =
      some (fields ++ f :: fs) := by
  induction fs generalizing f fields with
  | nil =>
    have hf := h f (by simp)
    rw [splitFieldsFrom_field hf.2, List.nil_append, List.flatMap_nil, splitFieldsFrom,
      if_neg (by simpa using hf.1)]
  | cons g fs ih =>
    have hf := h f (by simp)
    rw [splitFieldsFrom_field hf.2, List.nil_append, List.flatMap_cons, List.cons_append,
      splitFieldsFrom, if_pos rfl, if_neg (by simpa using hf.1),
      ih fun k hk => h k (List.mem_cons_of_mem _ hk)]
    simp

private theorem splitFieldsFrom_sound {field s : Bytes} {fields out : List Bytes} (hf : SP ∉ field)
    (h : splitFieldsFrom field fields s = some out) : ∃ f fs, out = fields ++ f :: fs ∧
      field ++ s = f ++ fs.flatMap (fun g => SP :: g) ∧ ∀ g ∈ f :: fs, IsField g := by
  induction s generalizing field fields with
  | nil =>
    rw [splitFieldsFrom] at h
    split at h
    · cases h
    · rename_i hne
      cases h
      exact ⟨field, [], rfl, by simp, by simpa [IsField] using ⟨by simpa using hne, hf⟩⟩
  | cons c s ih =>
    rw [splitFieldsFrom] at h
    split at h
    · rename_i hc
      subst hc
      split at h
      · cases h
      · rename_i hne
        obtain ⟨f, fs, rfl, hs, hfs⟩ := ih (by simp) h
        rw [List.nil_append] at hs
        refine ⟨field, f :: fs, by simp, by simp [hs], ?_⟩
        intro g hg
        rcases List.mem_cons.mp hg with rfl | hg
        · exact ⟨by simpa using hne, hf⟩
        · exact hfs g hg
    · rename_i hc
      obtain ⟨f, fs, e, hs, hfs⟩ := ih (by simp [hf, Ne.symm hc]) h
      exact ⟨f, fs, e, by simpa using hs, hfs⟩

/-- **Fields.** -/
theorem splitFields_eq_some {s : Bytes} {n : Nat} {out : List Bytes} :
    splitFields s n = some out ↔ out.length = n ∧ ∃ f fs, out = f :: fs ∧
      s = f ++ fs.flatMap (fun g => SP :: g) ∧ ∀ g ∈ f :: fs, IsField g := by
  unfold splitFields
  rw [Option.filter_eq_some_iff]
  simp only [decide_eq_true_eq]
  constructor
  · rintro ⟨h, hn⟩
    obtain ⟨f, fs, e, hs, hf⟩ := splitFieldsFrom_sound (by simp) h
    exact ⟨hn, f, fs, by simpa using e, by simpa using hs, hf⟩
  · rintro ⟨hn, f, fs, rfl, rfl, hf⟩
    exact ⟨by simpa using splitFieldsFrom_join hf [], hn⟩

theorem isId_field {s : Bytes} (h : isId s = true) : IsField s := by
  simp only [isId, Bool.and_eq_true, Bool.not_eq_true', List.isEmpty_eq_false_iff,
    List.all_eq_true] at h
  exact ⟨h.1.1, fun hs => absurd (h.2 SP hs) (by decide)⟩

theorem encodeBlock_field {s : Bytes} (h : s ≠ []) : IsField (encodeBlock s) :=
  ⟨fun e => h (encodeBlock_eq_nil e), not_mem_encodeBlock (by decide) s⟩

end TrafficMonitor.Trust
