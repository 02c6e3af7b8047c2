import Mathlib.Data.Nat.Bitwise
import TrafficMonitor.Basic.NetOrder
import TrafficMonitor.Ios.SwiftText
import TrafficMonitor.Server.Registry

/-!
# Local addresses

Server and clients decide which addresses are local: the server on the text that was announced,
the C++ client on the bytes of an interface address, the iOS client on its text.

Proved here, for all IPv4 and IPv6 addresses:

* `verdicts_agree_iff`: the three agree, except for the addresses of 127.0.0.0/8 other than
  127.0.0.1, and for IPv6 addresses whose first group is one of fe81 to febf, or fc, fd, fc0 to
  fcf and fd0 to fdf.
-/

namespace TrafficMonitor.LanAddresses

open Bytes AddressText SwiftText
open Dissect (inet_ntop4 inet_ntop6 words hexWord)

/-! ## The clients -/

/-- `isLanAddrV4`; `netValue` is `ntohl`. -/
def isLanAddrV4 (networkOrderAddr : Bytes) : Bool :=
  let n := netValue networkOrderAddr
  n &&& 0xFF000000 = 0x7F000000 || n &&& 0xFF000000 = 0x0A000000 ||
    n &&& 0xFFF00000 = 0xAC100000 || n &&& 0xFFFF0000 = 0xC0A80000

/-- ::1 -/
def lo6 : Bytes := [0, 0, 0, 0, 0, 0, 0, 0, 0, 0, 0, 0, 0, 0, 0, 1]

def isLanAddrV6 (addr : Bytes) : Bool :=
  addr = lo6 || (addr.getD 0 0 &&& 0xFE = 0xFC) ||
    (addr.getD 0 0 = 0xFE && addr.getD 1 0 &&& 0xC0 = 0x80)

/-- The private `isLanAddress` of the iOS client. -/
def isLanAddress (ip : Bytes) : Bool :=
  if ip = ascii "127.0.0.1" || ip = ascii "::1" then true
  else if (ascii "10.").isPrefixOf ip then true
  else if (ascii "192.168.").isPrefixOf ip then true
  else if (ascii "fe80").isPrefixOf ip || (ascii "fc").isPrefixOf ip || (ascii "fd").isPrefixOf ip then
    true
  else
    let parts := split Inet.DOT ip
    parts.length = 4 && (ascii "172.").isPrefixOf ip &&
      ((parts[1]?).bind uint8).any fun b => 16 ≤ b && b ≤ 31

/-! ## The three verdicts -/

inductive Address
  | v4 (a b c d : UInt8)
  | v6 (bytes : Bytes) (length_eq : bytes.length = 16)

namespace Address

/-- `inet_ntop` -/
def text : Address → Bytes
  | v4 a b c d => inet_ntop4 [a, b, c, d]
  | v6 bytes _ => inet_ntop6 bytes

/-- The verdict of the C++ client. -/
def isLanAddr : Address → Bool
  | v4 a b c d => isLanAddrV4 [a, b, c, d]
  | v6 bytes _ => isLanAddrV6 bytes

end Address

def Agree (addr : Address) : Prop :=
  isLanIP addr.text = addr.isLanAddr ∧ isLanAddress addr.text = addr.isLanAddr

/-- The addresses that text prefixes and bit masks tell apart alike. -/
def Usual : Address → Prop
  | .v4 a b c d => a = 127 → [b, c, d] = [0, 0, 1]
  | .v6 bytes _ => ∀ w ∈ (words bytes).head?, ¬ (0xfe81 ≤ w ∧ w ≤ 0xfebf) ∧
      w ≠ 0xfc ∧ w ≠ 0xfd ∧ ¬ (0xfc0 ≤ w ∧ w ≤ 0xfcf) ∧ ¬ (0xfd0 ≤ w ∧ w ≤ 0xfdf)

/-! ## IPv4 by bits -/

/-- A mask of the bits from `j` on, `k` of them. -/
theorem and_mask (n k j : Nat) : n &&& (2 ^ k - 1) <<< j = n / 2 ^ j % 2 ^ k * 2 ^ j := by
  rw [← Nat.shiftRight_eq_div_pow, ← Nat.shiftLeft_eq]
  refine Nat.eq_of_testBit_eq fun i => ?_
  simp only [Nat.testBit_and, Nat.testBit_shiftLeft, Nat.testBit_two_pow_sub_one,
    Nat.testBit_mod_two_pow, Nat.testBit_shiftRight]
  by_cases hi : j ≤ i
  · simp [hi, Nat.add_sub_cancel' hi, Bool.and_comm]
  · simp [hi]

/-- The second octets of 172.16.0.0/12. -/
theorem and_f0 (b : UInt8) : b &&& 0xF0 = 0x10 ↔ b.toNat / 16 = 1 := by
  have hb := b.toNat_lt
  have hmask : (b &&& 0xF0).toNat = b.toNat / 16 % 16 * 16 := and_mask b.toNat 4 4
  have hval : (0x10 : UInt8).toNat = 16 := rfl
  rw [UInt8.ext_iff, hmask, hval]
  omega

/-- The first octets of fc00::/7. -/
theorem and_fe (b : UInt8) : b &&& 0xFE = 0xFC ↔ b.toNat / 2 = 126 := by
  have hb := b.toNat_lt
  have hmask : (b &&& 0xFE).toNat = b.toNat / 2 % 128 * 2 := and_mask b.toNat 7 1
  have hval : (0xFC : UInt8).toNat = 252 := rfl
  rw [UInt8.ext_iff, hmask, hval]
  omega

/-- The second octets of fe80::/10. -/
theorem and_c0 (b : UInt8) : b &&& 0xC0 = 0x80 ↔ b.toNat / 64 = 2 := by
  have hb := b.toNat_lt
  have hmask : (b &&& 0xC0).toNat = b.toNat / 64 % 4 * 64 := and_mask b.toNat 2 6
  have hval : (0x80 : UInt8).toNat = 128 := rfl
  rw [UInt8.ext_iff, hmask, hval]
  omega

theorem isLanAddrV4_eq (a b c d : UInt8) : isLanAddrV4 [a, b, c, d] = isLan4 [a, b, c, d] := by
  have h8 (n : Nat) : n &&& 0xFF000000 = n / 16777216 % 256 * 16777216 := and_mask n 8 24
  have h12 (n : Nat) : n &&& 0xFFF00000 = n / 1048576 % 4096 * 1048576 := and_mask n 12 20
  have h16 (n : Nat) : n &&& 0xFFFF0000 = n / 65536 % 65536 * 65536 := and_mask n 16 16
  have hn : netValue [a, b, c, d] =
      a.toNat * 16777216 + (b.toNat * 65536 + (c.toNat * 256 + d.toNat)) := by
    simp only [netValue, List.foldl_cons, List.foldl_nil]
    omega
  have la := a.toNat_lt
  have lb := b.toNat_lt
  have lc := c.toNat_lt
  have ld := d.toNat_lt
  simp only [isLanAddrV4, isLan4, hn, h8, h12, h16, and_f0]
  rw [Bool.eq_iff_iff]
  simp only [Bool.or_eq_true, Bool.and_eq_true, decide_eq_true_eq, UInt8.ext_iff, UInt8.toNat_ofNat]
  omega

/-! ## The server on its texts -/

theorem nul_not_mem_inet_ntop4 {q : Bytes} (h : q.length = 4) : NUL ∉ inet_ntop4 q := fun hc =>
  absurd (inet_pton4_chars (inet_pton4_inet_ntop4 h) NUL hc) (by decide)

theorem nul_not_mem_groups (ws : List Nat) : NUL ∉ Dissect.groups ws := by
  intro h
  rcases Dissect.mem_intercalate h with h | ⟨p, hp, hc⟩
  · exact absurd h (by decide)
  · obtain ⟨w, -, rfl⟩ := List.mem_map.mp hp
    exact absurd (hexDigitValue_of_mem hc) (by decide)

theorem nul_not_mem_inet_ntop6 {a : Bytes} (h : a.length = 16) : NUL ∉ inet_ntop6 a := by
  have hcolon : NUL ≠ COLON := by decide
  have hquad := nul_not_mem_inet_ntop4 (q := a.drop 12) (by simp [h])
  have hffff : NUL ∉ hexWord 0xffff := fun hc => absurd (hexDigitValue_of_mem hc) (by decide)
  rcases inet_ntop6_cases a with ⟨-, ht⟩ | ⟨pre, post, _, -, -, ⟨-, -, ht⟩ | ⟨-, -, -, ht⟩ | ht⟩
  · rw [ht]
    exact nul_not_mem_groups _
  · simp [ht, hcolon, hquad]
  · simp [ht, hcolon, hffff, hquad]
  · simp [ht, hcolon, nul_not_mem_groups]

theorem isLanIP_inet_ntop4 {q : Bytes} (h : q.length = 4) : isLanIP (inet_ntop4 q) = isLan4 q := by
  rw [isLanIP, cStr_of_not_mem (nul_not_mem_inet_ntop4 h), inet_pton4_inet_ntop4 h]

theorem isLanIP_inet_ntop6 {a : Bytes} (h : a.length = 16) : isLanIP (inet_ntop6 a) = isLan6 a := by
  rw [isLanIP, cStr_of_not_mem (nul_not_mem_inet_ntop6 h), inet_pton4_inet_ntop6 h,
    inet_pton6_inet_ntop6 h]

theorem isLanAddrV6_eq {a : Bytes} (h : a.length = 16) : isLanAddrV6 a = isLan6 a := by
  obtain ⟨b, c, s, rfl⟩ : ∃ b c s, a = b :: c :: s := by
    rcases a with _ | ⟨b, _ | ⟨c, s⟩⟩
    · cases h
    · cases h
    · exact ⟨b, c, s, rfl⟩
  exact Bool.or_assoc _ _ _

/-! ## The iOS client on its texts -/

theorem isLanAddress_iff (ip : Bytes) : isLanAddress ip = true ↔
    ip = ascii "127.0.0.1" ∨ ip = ascii "::1" ∨ ascii "10." <+: ip ∨ ascii "192.168." <+: ip ∨
      ascii "fe80" <+: ip ∨ ascii "fc" <+: ip ∨ ascii "fd" <+: ip ∨
      ((split Inet.DOT ip).length = 4 ∧ ascii "172." <+: ip ∧
        ∃ b ∈ ((split Inet.DOT ip)[1]?).bind uint8, 16 ≤ b ∧ b ≤ 31) := by
  simp only [isLanAddress, Bool.or_eq_true, decide_eq_true_eq, List.isPrefixOf_iff_prefix]
  split_ifs with h1 h2 h3 h4
  · simp [← or_assoc, h1]
  · simp [h2]
  · simp [h3]
  · simp only [true_iff]
    rcases h4 with (h4 | h4) | h4 <;> simp [h4]
  · simp only [not_or] at h1 h4
    simp [h1, h2, h3, h4, Option.any_eq_true, and_assoc]

/-- A prefix with a dot behind its first field. -/
theorem prefix_field {p s q t : Bytes} (hp : Inet.DOT ∉ p) (hs : Inet.DOT ∉ s) :
    p ++ Inet.DOT :: q <+: s ++ Inet.DOT :: t ↔ p = s ∧ q <+: t := by
  constructor
  · rintro ⟨r, hr⟩
    rw [List.append_assoc, List.cons_append] at hr
    have hcut := Lines.cut_append Inet.DOT p (q ++ r) hp
    rw [hr, Lines.cut_append Inet.DOT s t hs] at hcut
    obtain ⟨rfl, rfl⟩ := Prod.mk.inj (Option.some.inj hcut)
    exact ⟨rfl, List.prefix_append _ _⟩
  · rintro ⟨rfl, r, rfl⟩
    exact ⟨r, by simp⟩

theorem decimal_inj {m n : Nat} : decimal m = decimal n ↔ m = n :=
  ⟨fun h => by simpa [digitsValue_decimal] using congrArg digitsValue h, fun h => by rw [h]⟩

/-- The verdict on an IPv4 address. -/
theorem isLanAddress_inet_ntop4 (a b c d : UInt8) : isLanAddress (inet_ntop4 [a, b, c, d]) = true ↔
    [a, b, c, d] = [127, 0, 0, 1] ∨ a = 10 ∨ (a = 192 ∧ b = 168) ∨ (a = 172 ∧ 16 ≤ b ∧ b ≤ 31) := by
  have hread := inet_pton4_inet_ntop4 (q := [a, b, c, d]) rfl
  have hchars := inet_pton4_chars hread
  have hloop : inet_ntop4 [a, b, c, d] = ascii "127.0.0.1" ↔ [a, b, c, d] = [127, 0, 0, 1] := by
    have htext : ascii "127.0.0.1" = inet_ntop4 [127, 0, 0, 1] := by decide
    rw [htext]
    constructor
    · intro h
      rw [h, inet_pton4_inet_ntop4 rfl] at hread
      exact (Option.some.inj hread).symm
    · rintro h
      rw [h]
  have hsix : ¬ inet_ntop4 [a, b, c, d] = ascii "::1" := fun h =>
    Dissect.colon_notMem_ntop4 [a, b, c, d] (by rw [h]; decide)
  have hletter {p : Bytes} {x : UInt8} (hx : x ∈ p) (hbad : ¬ (isDigit x = true ∨ x = Inet.DOT)) :
      ¬ p <+: inet_ntop4 [a, b, c, d] := fun h => hbad (hchars x (h.subset hx))
  have hfe80 : ¬ ascii "fe80" <+: inet_ntop4 [a, b, c, d] := hletter (x := 102) (by decide) (by decide)
  have hfc : ¬ ascii "fc" <+: inet_ntop4 [a, b, c, d] := hletter (x := 102) (by decide) (by decide)
  have hfd : ¬ ascii "fd" <+: inet_ntop4 [a, b, c, d] := hletter (x := 102) (by decide) (by decide)
  have h10 : ascii "10." = decimal 10 ++ Inet.DOT :: [] := by decide
  have h172 : ascii "172." = decimal 172 ++ Inet.DOT :: [] := by decide
  have h192 : ascii "192.168." = decimal 192 ++ Inet.DOT :: (decimal 168 ++ Inet.DOT :: []) := by decide
  have hdot (n : Nat) : Inet.DOT ∉ decimal n := dot_not_mem_decimal n
  rw [isLanAddress_iff, hloop]
  simp only [hsix, hfe80, hfc, hfd, false_or, split_inet_ntop4, h10, h172, h192]
  simp only [inet_ntop4_eq, prefix_field (hdot _) (hdot _), List.nil_prefix, decimal_inj, and_true,
    List.length_cons, List.length_nil, List.getElem?_cons_succ, List.getElem?_cons_zero,
    Option.bind_some, uint8_decimal, Option.mem_def, Option.some.injEq, exists_eq_left', true_and]
  simp [UInt8.ext_iff, eq_comm]

/-! ## Groups as prefixes -/

/-- One group begins another if it stands for its leading digits. -/
theorem hexWord_prefix_iff {u w : Nat} (h0 : 0 < u) (hu : u < 65536) (hw : w < 65536) :
    hexWord u <+: hexWord w ↔ ∃ k, w / 16 ^ k = u := by
  have hinj {v : Nat} (hv : v < 65536) : hexWord u = hexWord v ↔ v = u := by
    constructor
    · intro h
      have hread := congrArg uint16 h
      rw [uint16_hexWord hu, uint16_hexWord hv] at hread
      exact (Option.some.inj hread).symm
    · rintro rfl
      rfl
  have hdiv (v k : Nat) : v / 16 ^ (k + 1) = v / 16 / 16 ^ k := by
    rw [Nat.pow_succ', Nat.div_div_eq_div_mul]
  -- either all digits, or those without the last one
  have hfirst (v : Nat) : (∃ k, v / 16 ^ k = u) ↔ v = u ∨ ∃ k, v / 16 / 16 ^ k = u := by
    constructor
    · rintro ⟨_ | k, hk⟩
      · exact .inl (by simpa using hk)
      · exact .inr ⟨k, by rw [← hdiv, hk]⟩
    · rintro (rfl | ⟨k, hk⟩)
      · exact ⟨0, by simp⟩
      · exact ⟨k + 1, by rw [hdiv, hk]⟩
  induction w using Nat.strong_induction_on with
  | _ w ih =>
    rw [hfirst]
    by_cases h16 : w < 16
    · have hzero : w / 16 = 0 := by omega
      have hnone : ¬ ∃ k, 0 / 16 ^ k = u := by
        rintro ⟨k, hk⟩
        rw [Nat.zero_div] at hk
        omega
      have hone : hexWord u <+: [] ++ [hexDigit w] ↔ hexWord u = hexWord w := by
        rw [List.prefix_concat_iff, hexWord_of_lt h16]
        simp [hexWord_ne_nil]
      rw [hzero, or_iff_left hnone, ← hinj hw, ← hone, hexWord_of_lt h16, List.nil_append]
    · have hlong := hexWord_of_le (n := w) (by omega)
      have hrest := ih (w / 16) (by omega) (by omega)
      have hconcat : hexWord u <+: hexWord w ↔
          hexWord u = hexWord w ∨ hexWord u <+: hexWord (w / 16) := by
        rw [hlong]
        exact List.prefix_concat_iff
      exact hconcat.trans (or_congr (hinj hw) hrest)

/-- The texts `fe80`, `fc` and `fd` before a group. -/
theorem group_prefix_iff {w : Nat} (hw : w < 65536) :
    (ascii "fe80" <+: hexWord w ∨ ascii "fc" <+: hexWord w ∨ ascii "fd" <+: hexWord w) ↔
      w = 0xfe80 ∨ w = 0xfc ∨ w / 16 = 0xfc ∨ w / 256 = 0xfc ∨
        w = 0xfd ∨ w / 16 = 0xfd ∨ w / 256 = 0xfd := by
  have hfe80 : ascii "fe80" = hexWord 0xfe80 := by decide
  have hfc : ascii "fc" = hexWord 0xfc := by decide
  have hfd : ascii "fd" = hexWord 0xfd := by decide
  -- at most two digits are left out behind `fc`, none behind `fe80`
  have hpow {u : Nat} (hu : 0xfc ≤ u) : (∃ k, w / 16 ^ k = u) ↔ w = u ∨ w / 16 = u ∨ w / 256 = u := by
    constructor
    · rintro ⟨k, hk⟩
      rcases k with _ | _ | _ | k
      · exact .inl (by simpa using hk)
      · exact .inr (.inl (by simpa using hk))
      · exact .inr (.inr (by simpa using hk))
      · have hle : 16 ^ 3 ≤ 16 ^ (k + 3) := Nat.pow_le_pow_right (by omega) (by omega)
        have hsmall : w / 16 ^ (k + 3) ≤ w / 16 ^ 3 := Nat.div_le_div_left hle (by omega)
        rw [hk] at hsmall
        omega
    · rintro (h | h | h)
      · exact ⟨0, by simpa using h⟩
      · exact ⟨1, by simpa using h⟩
      · exact ⟨2, by simpa using h⟩
  rw [hfe80, hfc, hfd, hexWord_prefix_iff (by omega) (by omega) hw,
    hexWord_prefix_iff (by omega) (by omega) hw, hexWord_prefix_iff (by omega) (by omega) hw,
    hpow (by omega), hpow (by omega), hpow (by omega)]
  omega

/-- The verdict on an IPv6 address, by its first group. -/
theorem isLanAddress_inet_ntop6 {a : Bytes} (h : a.length = 16) {w v : Nat} {ws : List Nat}
    (hws : words a = w :: v :: ws) (hw : w < 65536) : isLanAddress (inet_ntop6 a) = true ↔
      a = lo6 ∨ w = 0xfe80 ∨ w = 0xfc ∨ w / 16 = 0xfc ∨ w / 256 = 0xfc ∨
        w = 0xfd ∨ w / 16 = 0xfd ∨ w / 256 = 0xfd := by
  have hcolon := Dissect.colon_mem_ntop6 h
  have hloop : inet_ntop6 a = ascii "::1" ↔ a = lo6 := by
    have htext : ascii "::1" = inet_ntop6 lo6 := by decide +kernel
    rw [htext, inet_ntop6_inj h rfl]
  obtain ⟨s, t, htext, hs⟩ : ∃ s t, inet_ntop6 a = s ++ COLON :: t ∧ (s = hexWord w ∨ s = [] ∧ w = 0) := by
    rcases inet_ntop6_head hws with ⟨t, ht⟩ | ⟨hzero, t, ht⟩
    · exact ⟨_, t, ht, .inl rfl⟩
    · exact ⟨[], _, ht, .inr ⟨rfl, hzero⟩⟩
  have hdot : Inet.DOT ∉ s := by
    rcases hs with rfl | ⟨rfl, -⟩
    · exact fun hc => absurd (hexDigitValue_of_mem hc) (by decide)
    · simp
  have hpre {p : Bytes} (hp : COLON ∉ p) : p <+: inet_ntop6 a ↔ p <+: s := by
    rw [htext]
    exact Lines.prefix_append_iff hp (by simp)
  have hquad {p : Bytes} (hp : COLON ∉ p) (hd : Inet.DOT ∈ p) : ¬ p <+: inet_ntop6 a := fun hc =>
    hdot (((hpre hp).mp hc).subset hd)
  have h127 : ¬ inet_ntop6 a = ascii "127.0.0.1" := fun e => by
    rw [e] at hcolon
    exact absurd hcolon (by decide)
  have h10 : ¬ ascii "10." <+: inet_ntop6 a := hquad (by decide) (by decide)
  have h192 : ¬ ascii "192.168." <+: inet_ntop6 a := hquad (by decide) (by decide)
  have h172 : ¬ ascii "172." <+: inet_ntop6 a := hquad (by decide) (by decide)
  have hgroup : (ascii "fe80" <+: s ∨ ascii "fc" <+: s ∨ ascii "fd" <+: s) ↔
      w = 0xfe80 ∨ w = 0xfc ∨ w / 16 = 0xfc ∨ w / 256 = 0xfc ∨
        w = 0xfd ∨ w / 16 = 0xfd ∨ w / 256 = 0xfd := by
    rcases hs with rfl | ⟨rfl, rfl⟩
    · exact group_prefix_iff hw
    · decide
  have hfe80 : ascii "fe80" <+: inet_ntop6 a ↔ ascii "fe80" <+: s := hpre (by decide)
  have hfc : ascii "fc" <+: inet_ntop6 a ↔ ascii "fc" <+: s := hpre (by decide)
  have hfd : ascii "fd" <+: inet_ntop6 a ↔ ascii "fd" <+: s := hpre (by decide)
  rw [isLanAddress_iff, hloop, hfe80, hfc, hfd, ← hgroup]
  simp only [h127, h10, h192, h172, false_or, false_and, and_false, or_false]

/-- The verdict of the server, by the first group. -/
theorem isLan6_iff {a : Bytes} {w v : Nat} {ws : List Nat} (hws : words a = w :: v :: ws) :
    isLan6 a = true ↔ a = lo6 ∨ w / 512 = 0x7e ∨ w / 64 = 0x3fa := by
  rcases a with _ | ⟨b, _ | ⟨c, s⟩⟩
  · cases hws
  · cases hws
  · obtain rfl : b.toNat * 256 + c.toNat = w := (List.cons.inj hws).1
    have lb := b.toNat_lt
    have lc := c.toNat_lt
    have hbits : b.toNat / 2 = 126 ∨ b.toNat = 254 ∧ c.toNat / 64 = 2 ↔
        (b.toNat * 256 + c.toNat) / 512 = 0x7e ∨ (b.toNat * 256 + c.toNat) / 64 = 0x3fa := by
      omega
    have hlo : lo6 = List.replicate 15 0 ++ [1] := rfl
    simp only [isLan6, Bool.or_eq_true, Bool.and_eq_true, decide_eq_true_eq, and_fe, and_c0, ← hlo]
    rw [UInt8.ext_iff]
    rw [← hbits]
    rfl

/-- Server and C++ client agree. -/
theorem isLanIP_text (addr : Address) : isLanIP addr.text = addr.isLanAddr := by
  cases addr with
  | v4 a b c d => exact (isLanIP_inet_ntop4 rfl).trans (isLanAddrV4_eq a b c d).symm
  | v6 bytes h => exact (isLanIP_inet_ntop6 h).trans (isLanAddrV6_eq h).symm

/-- **The three verdicts** agree on the usual addresses and on no other. -/
theorem verdicts_agree_iff (addr : Address) : Agree addr ↔ Usual addr := by
  rw [Agree, and_iff_right (isLanIP_text addr), ← isLanIP_text, Bool.eq_iff_iff]
  cases addr with
  | v4 a b c d =>
    rw [Address.text, isLanAddress_inet_ntop4, isLanIP_inet_ntop4 rfl]
    simp only [isLan4, Bool.or_eq_true, Bool.and_eq_true, decide_eq_true_eq, and_f0, Usual,
      List.cons.injEq]
    simp only [UInt8.ext_iff, UInt8.le_iff_toNat_le, UInt8.toNat_ofNat, and_true]
    omega
  | v6 bytes h =>
    obtain ⟨-, hlen, hlt⟩ := words_spec (n := 8) h
    obtain ⟨w, v, ws, hws⟩ : ∃ w v ws, words bytes = w :: v :: ws := by
      rcases hw : words bytes with _ | ⟨w, _ | ⟨v, ws⟩⟩
      · simp [hw] at hlen
      · simp [hw] at hlen
      · exact ⟨w, v, ws, rfl⟩
    have hw : w < 65536 := hlt w (by simp [hws])
    have hzero : bytes = lo6 → w = 0 := by
      rintro rfl
      exact (List.cons.inj hws).1.symm
    rw [Address.text, isLanAddress_inet_ntop6 h hws hw, isLanIP_inet_ntop6 h, isLan6_iff hws]
    simp only [Usual, hws, List.head?_cons, Option.mem_def, Option.some.injEq, forall_eq']
    by_cases hlo : bytes = lo6
    · simp [hlo, hzero hlo]
    · simp only [hlo, false_or]
      omega

/-- 127.0.0.2, fe90:: and fc::1 -/
theorem verdicts_differ :
    ¬ Agree (.v4 127 0 0 2) ∧
      (∀ h, ¬ Agree (.v6 ([0xfe, 0x90] ++ List.replicate 14 0) h)) ∧
      ∀ h, ¬ Agree (.v6 ([0, 0xfc] ++ List.replicate 13 0 ++ [1]) h) := by
  unfold Agree
  decide +kernel

end TrafficMonitor.LanAddresses
