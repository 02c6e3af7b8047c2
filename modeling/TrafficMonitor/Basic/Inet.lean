import TrafficMonitor.Basic.Bytes
import TrafficMonitor.Basic.Lines

/-!
# `inet_pton`

The texts that the C library accepts as IPv4 and IPv6 addresses, and the bytes they
stand for, in network order. `inet_pton4` and `inet_pton6` follow the library's code:
the dotted quad without leading zeros, and hexadecimal groups with at most one `::` and
an optional dotted quad at the end.

Proved here: an accepted IPv4 text gives 4 bytes and an accepted IPv6 text 16.
-/

namespace TrafficMonitor.Inet

open Bytes

def DOT : UInt8 := 46
def COLON : UInt8 := 58

/-! ## IPv4 -/

/-- One field of a dotted quad: at most 255, and no leading zero. -/
def octet (s : Bytes) : Option UInt8 :=
  if s ≠ [] ∧ s.all isDigit ∧ (s.head? = some 48 → s.length = 1) ∧ digitsValue s ≤ 255 then
    some (UInt8.ofNat (digitsValue s))
  else none

def inet_pton4 (s : Bytes) : Option Bytes :=
  let (fields, last) := Lines.split DOT s
  match fields with
  | [a, b, c] => do some [← octet a, ← octet b, ← octet c, ← octet last]
  | _ => none

/-! ## IPv6 -/

/-- `hex_digit_value` -/
def hexDigitValue (c : UInt8) : Option Nat :=
  if isDigit c then some (c.toNat - 48)
  else if 97 ≤ c && c ≤ 102 then some (c.toNat - 87)
  else if 65 ≤ c && c ≤ 70 then some (c.toNat - 55)
  else none

/-- The bytes written so far, where `::` stood, and the group being read. -/
structure Groups where
  out : Bytes := []
  colonp : Option Nat := none
  xdigits_seen : Nat := 0
  val : Nat := 0

/-- Write the group that was read; `none` if it does not fit. -/
def Groups.flush (g : Groups) : Option Groups :=
  if g.out.length + 2 > 16 then none
  else some { g with
    out := g.out ++ [UInt8.ofNat (g.val / 256), UInt8.ofNat (g.val % 256)]
    xdigits_seen := 0
    val := 0 }

/-- The loop over the text; `curtok` is the text from the last group on. -/
def groups : Groups → Bytes → Bytes → Option Groups
  | g, _, [] => some g
  | g, curtok, ch :: src =>
    match hexDigitValue ch with
    | some digit =>
      if g.xdigits_seen = 4 then none
      else groups { g with xdigits_seen := g.xdigits_seen + 1, val := 16 * g.val + digit } curtok src
    | none =>
      if ch = COLON then
        if g.xdigits_seen = 0 then
          if g.colonp.isSome then none else groups { g with colonp := some g.out.length } src src
        else if src = [] then none
        else match g.flush with
          | none => none
          | some g' => groups g' src src
      else if ch = DOT ∧ g.out.length + 4 ≤ 16 then
        (inet_pton4 curtok).map fun quad => { g with out := g.out ++ quad, xdigits_seen := 0 }
      else none

/-- Write the last group and replace `::` with zeros. -/
def Groups.expand (g : Groups) : Option Bytes :=
  match if g.xdigits_seen > 0 then g.flush else some g with
  | none => none
  | some g => match g.colonp with
    | some n =>
      if g.out.length = 16 then none
      else some (g.out.take n ++ List.replicate (16 - g.out.length) 0 ++ g.out.drop n)
    | none => if g.out.length = 16 then some g.out else none

def inet_pton6 (s : Bytes) : Option Bytes :=
  match s with
  | [] => none
  | c :: t =>
    if c = COLON then
      if t.head? = some COLON then (groups {} t t).bind Groups.expand else none
    else (groups {} s s).bind Groups.expand

/-! ## Lengths -/

theorem length_inet_pton4 {s a : Bytes} (h : inet_pton4 s = some a) : a.length = 4 := by
  simp only [inet_pton4] at h
  split at h
  · simp only [Option.bind_eq_bind, Option.bind_eq_some_iff, Option.some.injEq] at h
    obtain ⟨_, _, _, _, _, _, _, _, rfl⟩ := h
    rfl
  · cases h

theorem Groups.length_flush {g g' : Groups} (h : g.flush = some g') : g'.out.length ≤ 16 := by
  unfold Groups.flush at h
  split at h
  · cases h
  · cases h
    simp only [List.length_append, List.length_cons, List.length_nil]
    omega

theorem length_groups {g g' : Groups} {curtok src : Bytes} (hg : g.out.length ≤ 16)
    (h : groups g curtok src = some g') : g'.out.length ≤ 16 := by
  induction src generalizing g curtok with
  | nil => cases h; exact hg
  | cons ch src ih =>
    unfold groups at h
    split at h
    · split at h
      · cases h
      · exact ih (by exact hg) h
    · split at h
      · split at h
        · split at h
          · cases h
          · exact ih (by exact hg) h
        · split at h
          · cases h
          · split at h
            · cases h
            · rename_i g₁ hf
              exact ih (Groups.length_flush hf) h
      · split at h
        · rename_i hfit
          obtain ⟨quad, hq, rfl⟩ := Option.map_eq_some_iff.mp h
          have := length_inet_pton4 hq
          simp only [List.length_append]
          omega
        · cases h

theorem Groups.length_expand {g : Groups} {a : Bytes} (hg : g.out.length ≤ 16)
    (h : g.expand = some a) : a.length = 16 := by
  unfold Groups.expand at h
  split at h
  · cases h
  · rename_i g₁ hg₁
    have hlen : g₁.out.length ≤ 16 := by
      split at hg₁
      · exact Groups.length_flush hg₁
      · cases hg₁; exact hg
    split at h
    · split at h
      · cases h
      · cases h
        simp only [List.length_append, List.length_take, List.length_replicate, List.length_drop]
        omega
    · split at h
      · cases h; assumption
      · cases h

theorem length_inet_pton6 {s a : Bytes} (h : inet_pton6 s = some a) : a.length = 16 := by
  have hgo : ∀ t, (groups {} t t).bind Groups.expand = some a → a.length = 16 := by
    intro t ht
    obtain ⟨g, hg, he⟩ := Option.bind_eq_some_iff.mp ht
    exact Groups.length_expand (length_groups (by simp) hg) he
  unfold inet_pton6 at h
  split at h
  · cases h
  · split at h
    · split at h
      · exact hgo _ h
      · cases h
    · exact hgo _ h

example : inet_pton4 (ascii "192.168.1.10") = some [192, 168, 1, 10] := by decide

example : inet_pton6 (ascii "fe80::1:10.0.0.7") =
    some [254, 128, 0, 0, 0, 0, 0, 0, 0, 0, 0, 1, 10, 0, 0, 7] := by decide

end TrafficMonitor.Inet
