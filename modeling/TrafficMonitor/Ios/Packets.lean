import Mathlib.Logic.Relation
import TrafficMonitor.Client.Dissect

/-!
# Parsing a packet

`IPPacket.parse` and `parseTCP` of the iOS client, on the packets that the tunnel reads. The
language stops the program at an index outside an array, at a number that does not fit its type and
at a range whose bounds are the wrong way round; these are outcomes of their own here (`Trap`).

Proved here:

* `parseIPv4_eq`, `parseIPv6_eq`, `parseTCP_eq`: no trap is reached, and what is returned, field by
  field, from the bytes of the packet.
-/

namespace TrafficMonitor.Packets

open Bytes
open Dissect (inet_ntop4 inet_ntop6)

/-! ## Reading -/

inductive Trap
  | index
  | conversion
  | overflow
  | range
  deriving DecidableEq, Repr

/-- `b[i]` -/
def byteAt (b : Bytes) (i : Nat) : Except Trap UInt8 :=
  match b[i]? with
  | some x => .ok x
  | none => .error .index

/-- The `n` bytes from `i` on. -/
def bytesAt (b : Bytes) (i n : Nat) : Except Trap Bytes :=
  if i + n ≤ b.length then .ok ((b.drop i).take n) else .error .index

/-- `UInt16(b[i]) << 8 | UInt16(b[i + 1])` -/
def word16 (b : Bytes) (i : Nat) : Except Trap UInt16 := do
  let hi ← byteAt b i
  let lo ← byteAt b (i + 1)
  return UInt16.ofNat (256 * hi.toNat + lo.toNat)

/-- The same with four bytes and `UInt32`. -/
def word32 (b : Bytes) (i : Nat) : Except Trap UInt32 := do
  let b0 ← byteAt b i
  let b1 ← byteAt b (i + 1)
  let b2 ← byteAt b (i + 2)
  let b3 ← byteAt b (i + 3)
  return UInt32.ofNat (16777216 * b0.toNat + 65536 * b1.toNat + 256 * b2.toNat + b3.toNat)

/-- `Range<Int>` -/
structure Range where
  lowerBound : Nat
  upperBound : Nat
  le : lowerBound ≤ upperBound
  deriving DecidableEq

/-- `0..<0` -/
def Range.empty : Range := ⟨0, 0, Nat.le_refl 0⟩

/-- `lo..<hi` -/
def Range.make (lo hi : Nat) : Except Trap Range :=
  if h : lo ≤ hi then .ok ⟨lo, hi, h⟩ else .error .range

def Range.isEmpty (r : Range) : Bool := r.lowerBound = r.upperBound

/-! ## Packets -/

structure IPPacket where
  version : Nat
  proto : UInt8
  srcIP : Bytes
  dstIP : Bytes
  totalBytes : Nat
  ihlBytes : Nat
  transportOffset : Nat
  srcPort : UInt16
  dstPort : UInt16
  udpPayloadRange : Range
  deriving DecidableEq

def protoUDP : UInt8 := 17
def AF_INET : Int := 2
def AF_INET6 : Int := 30

/-- The ports and the payload of a UDP packet whose header is at `t`; the lines are the same in
`parseIPv4` and `parseIPv6`. -/
def udpFields (b : Bytes) (proto : UInt8) (t : Nat) : Except Trap (UInt16 × UInt16 × Range) := do
  if proto = protoUDP ∧ b.length ≥ t + 8 then
    let srcPort ← word16 b t
    let dstPort ← word16 b (t + 2)
    let udpLen := (← word16 b (t + 4)).toNat
    let payloadStart := t + 8
    let payloadEnd := min (payloadStart + (udpLen - 8)) b.length
    if payloadStart < payloadEnd then
      return (srcPort, dstPort, ← Range.make payloadStart payloadEnd)
    else return (srcPort, dstPort, Range.empty)
  else return (0, 0, Range.empty)

def parseIPv4 (b : Bytes) : Except Trap (Option IPPacket) := do
  if ¬ b.length ≥ 20 then return none
  let first ← byteAt b 0
  if ¬ first >>> 4 = 4 then return none
  let ihl := (first &&& 0x0F).toNat * 4
  if ¬ (ihl ≥ 20 ∧ b.length ≥ ihl) then return none
  let totalLen := (← word16 b 2).toNat
  let proto ← byteAt b 9
  let src ← bytesAt b 12 4
  let dst ← bytesAt b 16 4
  let (srcPort, dstPort, udpPayloadRange) ← udpFields b proto ihl
  return some {
    version := 4, proto := proto, srcIP := inet_ntop4 src, dstIP := inet_ntop4 dst
    totalBytes := totalLen, ihlBytes := ihl, transportOffset := ihl
    srcPort := srcPort, dstPort := dstPort, udpPayloadRange := udpPayloadRange }

/-- The loop over the extension headers. -/
def walkIPv6ExtHeaders (b : Bytes) (nh : UInt8) (off : Nat) : Except Trap (UInt8 × Nat) :=
  if nh = 0 ∨ nh = 43 ∨ nh = 60 then
    if _h : b.length > off + 1 then do
      let ext ← byteAt b (off + 1)
      let next ← byteAt b off
      walkIPv6ExtHeaders b next (off + (ext.toNat + 1) * 8)
    else return (nh, off)
  else if nh = 44 then
    if _h : b.length > off then do
      let next ← byteAt b off
      walkIPv6ExtHeaders b next (off + 8)
    else return (nh, off)
  else return (nh, off)
termination_by b.length - off
decreasing_by all_goals omega

def parseIPv6 (b : Bytes) : Except Trap (Option IPPacket) := do
  if ¬ b.length ≥ 40 then return none
  let first ← byteAt b 0
  if ¬ first >>> 4 = 6 then return none
  let payloadLen := (← word16 b 4).toNat
  let nextHeader ← byteAt b 6
  let src ← bytesAt b 8 16
  let dst ← bytesAt b 24 16
  let (transport, tOff) ← walkIPv6ExtHeaders b nextHeader 40
  let (srcPort, dstPort, udpPayloadRange) ← udpFields b transport tOff
  return some {
    version := 6, proto := transport, srcIP := inet_ntop6 src, dstIP := inet_ntop6 dst
    totalBytes := 40 + payloadLen, ihlBytes := 0, transportOffset := tOff
    srcPort := srcPort, dstPort := dstPort, udpPayloadRange := udpPayloadRange }

def parse (b : Bytes) (af : Int) : Except Trap (Option IPPacket) :=
  if af = AF_INET then parseIPv4 b
  else if af = AF_INET6 then parseIPv6 b
  else return none

/-- `udpPayload(in:)` -/
def IPPacket.udpPayload (p : IPPacket) (data : Bytes) : Option Bytes :=
  let r := p.udpPayloadRange
  if p.proto = protoUDP ∧ ¬ r.isEmpty ∧ r.upperBound ≤ data.length then
    some ((data.drop r.lowerBound).take (r.upperBound - r.lowerBound))
  else none

structure TCPHeader where
  srcPort : UInt16
  dstPort : UInt16
  seq : UInt32
  ack : UInt32
  headerBytes : Nat
  flags : UInt8
  window : UInt16
  payloadRange : Range
  deriving DecidableEq

/-- `parseTCP(in:)` -/
def IPPacket.parseTCP (p : IPPacket) (b : Bytes) : Except Trap (Option TCPHeader) := do
  if ¬ p.proto = 6 then return none
  let t := p.transportOffset
  if ¬ b.length ≥ t + 20 then return none
  let srcPort ← word16 b t
  let dstPort ← word16 b (t + 2)
  let seq ← word32 b (t + 4)
  let ack ← word32 b (t + 8)
  let dataOff := ((← byteAt b (t + 12)) >>> 4).toNat * 4
  let flags ← byteAt b (t + 13)
  let window ← word16 b (t + 14)
  if ¬ (dataOff ≥ 20 ∧ b.length ≥ t + dataOff) then return none
  let payloadStart := t + dataOff
  let payloadEnd := min b.length (max payloadStart p.totalBytes)
  let payloadRange ← Range.make payloadStart payloadEnd
  return some {
    srcPort := srcPort, dstPort := dstPort, seq := seq, ack := ack, headerBytes := dataOff
    flags := flags, window := window, payloadRange := payloadRange }

/-- The payload that the relay takes from the packet. -/
def TCPHeader.payload (h : TCPHeader) (data : Bytes) : Bytes :=
  (data.drop h.payloadRange.lowerBound).take (h.payloadRange.upperBound - h.payloadRange.lowerBound)

/-! ## Fields of the bytes -/

def byte (b : Bytes) (i : Nat) : Nat := (b.getD i 0).toNat

def num16 (b : Bytes) (i : Nat) : Nat := 256 * byte b i + byte b (i + 1)

def num32 (b : Bytes) (i : Nat) : Nat :=
  16777216 * byte b i + 65536 * byte b (i + 1) + 256 * byte b (i + 2) + byte b (i + 3)

theorem byte_lt (b : Bytes) (i : Nat) : byte b i < 256 := (b.getD i 0).toNat_lt

theorem num16_lt (b : Bytes) (i : Nat) : num16 b i < 65536 := by
  have h0 := byte_lt b i
  have h1 := byte_lt b (i + 1)
  unfold num16
  omega

theorem ok_bind {α β : Type} (a : α) (f : α → Except Trap β) : (Except.ok a >>= f) = f a := rfl

theorem byteAt_eq {b : Bytes} {i : Nat} (h : i < b.length) : byteAt b i = .ok (b.getD i 0) := by
  simp [byteAt, h]

theorem word16_eq {b : Bytes} {i : Nat} (h : i + 1 < b.length) :
    word16 b i = .ok (UInt16.ofNat (num16 b i)) := by
  simp only [word16, byteAt_eq h, byteAt_eq (Nat.lt_of_succ_lt h)]
  rfl

theorem word32_eq {b : Bytes} {i : Nat} (h : i + 3 < b.length) :
    word32 b i = .ok (UInt32.ofNat (num32 b i)) := by
  have h0 : i < b.length := by omega
  have h1 : i + 1 < b.length := by omega
  have h2 : i + 2 < b.length := by omega
  simp only [word32, byteAt_eq h, byteAt_eq h0, byteAt_eq h1, byteAt_eq h2]
  rfl

theorem toNat_num16 (b : Bytes) (i : Nat) : (UInt16.ofNat (num16 b i)).toNat = num16 b i :=
  UInt16.toNat_ofNat_of_lt (num16_lt b i)

theorem toNat_high (x : UInt8) : (x >>> 4).toNat = x.toNat / 16 := by
  rw [UInt8.toNat_shiftRight, Nat.shiftRight_eq_div_pow]
  rfl

theorem toNat_low (x : UInt8) : (x &&& 0x0F).toNat = x.toNat % 16 :=
  Nat.and_two_pow_sub_one_eq_mod x.toNat 4

/-! ## UDP -/

/-- The range of the payload behind the UDP header at `t`. -/
def udpRange (b : Bytes) (t : Nat) : Range :=
  if h : t + 8 < min (t + num16 b (t + 4)) b.length then ⟨t + 8, _, Nat.le_of_lt h⟩ else Range.empty

theorem udpFields_eq (b : Bytes) (proto : UInt8) (t : Nat) : udpFields b proto t =
    .ok (if proto = protoUDP ∧ t + 8 ≤ b.length then
      (UInt16.ofNat (num16 b t), UInt16.ofNat (num16 b (t + 2)), udpRange b t)
    else (0, 0, Range.empty)) := by
  by_cases h : proto = protoUDP ∧ b.length ≥ t + 8
  · have h0 : t + 1 < b.length := by omega
    have h2 : t + 2 + 1 < b.length := by omega
    have h4 : t + 4 + 1 < b.length := by omega
    rw [if_pos (show proto = protoUDP ∧ t + 8 ≤ b.length from h), udpFields, if_pos h,
      word16_eq h0, word16_eq h2, word16_eq h4]
    simp only [ok_bind, toNat_num16]
    by_cases hlong : t + 8 < min (t + num16 b (t + 4)) b.length
    · have hend : min (t + 8 + (num16 b (t + 4) - 8)) b.length = min (t + num16 b (t + 4)) b.length := by
        omega
      rw [hend, if_pos hlong, Range.make, dif_pos (Nat.le_of_lt hlong), udpRange, dif_pos hlong]
      rfl
    · rw [if_neg (by omega), udpRange, dif_neg hlong]
      rfl
  · rw [if_neg (show ¬ (proto = protoUDP ∧ t + 8 ≤ b.length) from h), udpFields, if_neg h]
    rfl

/-! ## IPv4 -/

/-- What `parseIPv4` asks of the bytes. -/
structure IsIPv4 (b : Bytes) : Prop where
  header : 20 ≤ b.length
  version : byte b 0 / 16 = 4
  ihl : 5 ≤ byte b 0 % 16
  options : 4 * (byte b 0 % 16) ≤ b.length

/-- The packet behind the header with its options. -/
def packet4 (b : Bytes) : IPPacket :=
  let t := 4 * (byte b 0 % 16)
  let udp := if b.getD 9 0 = protoUDP ∧ t + 8 ≤ b.length then
      (UInt16.ofNat (num16 b t), UInt16.ofNat (num16 b (t + 2)), udpRange b t)
    else (0, 0, Range.empty)
  { version := 4, proto := b.getD 9 0
    srcIP := inet_ntop4 ((b.drop 12).take 4), dstIP := inet_ntop4 ((b.drop 16).take 4)
    totalBytes := num16 b 2, ihlBytes := t, transportOffset := t
    srcPort := udp.1, dstPort := udp.2.1, udpPayloadRange := udp.2.2 }

theorem version_iff (b : Bytes) (v : UInt8) : b.getD 0 0 >>> 4 = v ↔ byte b 0 / 16 = v.toNat := by
  rw [UInt8.ext_iff, toNat_high, byte]

theorem bytesAt_eq {b : Bytes} {i n : Nat} (h : i + n ≤ b.length) :
    bytesAt b i n = .ok ((b.drop i).take n) := if_pos h

theorem parseIPv4_eq {b : Bytes} (h : IsIPv4 b) : parseIPv4 b = .ok (some (packet4 b)) := by
  obtain ⟨hsize, hversion, hihl, hoptions⟩ := h
  have h0 : 0 < b.length := by omega
  have h2 : 2 + 1 < b.length := by omega
  have h9 : 9 < b.length := by omega
  have hlow : (b.getD 0 0 &&& 0x0F).toNat * 4 = 4 * (byte b 0 % 16) := by
    rw [toNat_low, Nat.mul_comm, byte]
  have hfits : 4 * (byte b 0 % 16) ≥ 20 ∧ b.length ≥ 4 * (byte b 0 % 16) := ⟨by omega, hoptions⟩
  rw [parseIPv4, if_neg (not_not_intro hsize), byteAt_eq h0]
  simp only [ok_bind, if_neg (not_not_intro ((version_iff b 4).mpr hversion)), hlow,
    if_neg (not_not_intro hfits)]
  rw [word16_eq h2, byteAt_eq h9, bytesAt_eq (by omega), bytesAt_eq (by omega)]
  simp only [ok_bind, udpFields_eq, toNat_num16]
  rfl

theorem parseIPv4_none {b : Bytes} (h : ¬ IsIPv4 b) : parseIPv4 b = .ok none := by
  by_cases hsize : 20 ≤ b.length
  · have h0 : 0 < b.length := by omega
    rw [parseIPv4, if_neg (not_not_intro hsize), byteAt_eq h0]
    by_cases hversion : byte b 0 / 16 = 4
    · have hlow : (b.getD 0 0 &&& 0x0F).toNat * 4 = 4 * (byte b 0 % 16) := by
        rw [toNat_low, Nat.mul_comm, byte]
      have hfits : ¬ (4 * (byte b 0 % 16) ≥ 20 ∧ b.length ≥ 4 * (byte b 0 % 16)) := fun hf =>
        h ⟨hsize, hversion, by omega, hf.2⟩
      simp only [ok_bind, if_neg (not_not_intro ((version_iff b 4).mpr hversion)), hlow, if_pos hfits]
      rfl
    · simp only [ok_bind, if_pos (mt (version_iff b 4).mp hversion)]
      rfl
  · rw [parseIPv4, if_pos hsize]
    rfl

/-! ## Extension headers -/

/-- The extension headers of RFC 8200: a header of the first type at the first offset, as far as the
data have it, is followed by the second. -/
inductive Follows (b : Bytes) : UInt8 × Nat → UInt8 × Nat → Prop
  | options {nh : UInt8} {off : Nat} (h : nh = 0 ∨ nh = 43 ∨ nh = 60) (data : off + 1 < b.length) :
      Follows b (nh, off) (b.getD off 0, off + (byte b (off + 1) + 1) * 8)
  | fragment {off : Nat} (data : off < b.length) : Follows b (44, off) (b.getD off 0, off + 8)

/-- From one header the chain leads to another. -/
abbrev Leads (b : Bytes) : UInt8 × Nat → UInt8 × Nat → Prop := Relation.ReflTransGen (Follows b)

/-- The chain leads to a header that none follows. -/
def ChainEnd (b : Bytes) (first last : UInt8 × Nat) : Prop :=
  Leads b first last ∧ ∀ next, ¬ Follows b last next

theorem follows_unique {b : Bytes} : Relator.RightUnique (Follows b) := by
  intro x y z hy hz
  cases hy with
  | options h data =>
    cases hz with
    | options => rfl
    | fragment => simp at h
  | fragment data =>
    cases hz with
    | options h => simp at h
    | fragment => rfl

theorem chainEnd_unique {b : Bytes} {x y z : UInt8 × Nat} (hy : ChainEnd b x y)
    (hz : ChainEnd b x z) : y = z := by
  rcases Relation.ReflTransGen.total_of_right_unique follows_unique hy.1 hz.1 with h | h
  · rcases Relation.ReflTransGen.cases_head h with h | ⟨w, hw, -⟩
    · exact h
    · exact absurd hw (hy.2 w)
  · rcases Relation.ReflTransGen.cases_head h with h | ⟨w, hw, -⟩
    · exact h.symm
    · exact absurd hw (hz.2 w)

/-- The chain ends with another header, or at the end of the data. -/
theorem final_iff {b : Bytes} {nh : UInt8} {off : Nat} : (∀ next, ¬ Follows b (nh, off) next) ↔
    (nh = 0 ∨ nh = 43 ∨ nh = 60 → b.length ≤ off + 1) ∧ (nh = 44 → b.length ≤ off) := by
  constructor
  · intro h
    refine ⟨fun hopt => ?_, fun hfrag => ?_⟩
    · by_contra hdata
      exact h _ (.options hopt (by omega))
    · subst hfrag
      by_contra hdata
      exact h _ (.fragment (by omega))
  · rintro ⟨hopt, hfrag⟩ next hnext
    cases hnext with
    | options h data =>
      have := hopt h
      omega
    | fragment data =>
      have := hfrag rfl
      omega

/-- **The walk** follows the chain to its end. -/
theorem walkIPv6ExtHeaders_spec (b : Bytes) (nh : UInt8) (off : Nat) :
    ∃ last, walkIPv6ExtHeaders b nh off = .ok last ∧ ChainEnd b (nh, off) last := by
  fun_induction walkIPv6ExtHeaders b nh off with
  | case1 nh off hopt hdata ih =>
    obtain ⟨last, hwalk, hlead, hend⟩ := ih (b.getD (off + 1) 0) (b.getD off 0)
    rw [byteAt_eq hdata, byteAt_eq (by omega)]
    exact ⟨last, hwalk, .head (.options hopt hdata) hlead, hend⟩
  | case2 nh off hopt hdata =>
    exact ⟨_, rfl, .refl, final_iff.mpr ⟨fun _ => by omega, fun h => by simp [h] at hopt⟩⟩
  | case3 off hdata hopt ih =>
    obtain ⟨last, hwalk, hlead, hend⟩ := ih (b.getD off 0)
    rw [byteAt_eq hdata]
    exact ⟨last, hwalk, .head (.fragment hdata) hlead, hend⟩
  | case4 off hdata hopt =>
    exact ⟨_, rfl, .refl, final_iff.mpr ⟨fun h => absurd h hopt, fun _ => by omega⟩⟩
  | case5 nh off hopt hfrag =>
    exact ⟨_, rfl, .refl, final_iff.mpr ⟨fun h => absurd h hopt, fun h => absurd h hfrag⟩⟩

/-! ## IPv6 -/

/-- What `parseIPv6` asks of the bytes. -/
structure IsIPv6 (b : Bytes) : Prop where
  header : 40 ≤ b.length
  version : byte b 0 / 16 = 6

/-- The packet whose chain ends at `last`. -/
def packet6 (b : Bytes) (last : UInt8 × Nat) : IPPacket :=
  let udp := if last.1 = protoUDP ∧ last.2 + 8 ≤ b.length then
      (UInt16.ofNat (num16 b last.2), UInt16.ofNat (num16 b (last.2 + 2)), udpRange b last.2)
    else (0, 0, Range.empty)
  { version := 6, proto := last.1
    srcIP := inet_ntop6 ((b.drop 8).take 16), dstIP := inet_ntop6 ((b.drop 24).take 16)
    totalBytes := 40 + num16 b 4, ihlBytes := 0, transportOffset := last.2
    srcPort := udp.1, dstPort := udp.2.1, udpPayloadRange := udp.2.2 }

theorem parseIPv6_eq {b : Bytes} (h : IsIPv6 b) {last : UInt8 × Nat}
    (hend : ChainEnd b (b.getD 6 0, 40) last) : parseIPv6 b = .ok (some (packet6 b last)) := by
  obtain ⟨hsize, hversion⟩ := h
  have h0 : 0 < b.length := by omega
  have h4 : 4 + 1 < b.length := by omega
  have h6 : 6 < b.length := by omega
  obtain ⟨last', hwalk, hend'⟩ := walkIPv6ExtHeaders_spec b (b.getD 6 0) 40
  obtain rfl := chainEnd_unique hend hend'
  rw [parseIPv6, if_neg (not_not_intro hsize), byteAt_eq h0]
  simp only [ok_bind, if_neg (not_not_intro ((version_iff b 6).mpr hversion))]
  rw [word16_eq h4, byteAt_eq h6, bytesAt_eq (by omega), bytesAt_eq (by omega)]
  simp only [ok_bind, hwalk, udpFields_eq, toNat_num16]
  rfl

theorem parseIPv6_none {b : Bytes} (h : ¬ IsIPv6 b) : parseIPv6 b = .ok none := by
  by_cases hsize : 40 ≤ b.length
  · have h0 : 0 < b.length := by omega
    rw [parseIPv6, if_neg (not_not_intro hsize), byteAt_eq h0]
    have hversion : ¬ byte b 0 / 16 = 6 := fun hv => h ⟨hsize, hv⟩
    simp only [ok_bind, if_pos (mt (version_iff b 6).mp hversion)]
    rfl
  · rw [parseIPv6, if_pos hsize]
    rfl

/-! ## TCP -/

/-- The data have a TCP header with its options at `t`. -/
structure IsTCP (b : Bytes) (t : Nat) : Prop where
  header : t + 20 ≤ b.length
  dataOffset : 5 ≤ byte b (t + 12) / 16
  options : t + 4 * (byte b (t + 12) / 16) ≤ b.length

/-- The header at `t` in a packet of `totalBytes`. -/
def tcpHeader {b : Bytes} {t : Nat} (h : IsTCP b t) (totalBytes : Nat) : TCPHeader where
  srcPort := UInt16.ofNat (num16 b t)
  dstPort := UInt16.ofNat (num16 b (t + 2))
  seq := UInt32.ofNat (num32 b (t + 4))
  ack := UInt32.ofNat (num32 b (t + 8))
  headerBytes := 4 * (byte b (t + 12) / 16)
  flags := b.getD (t + 13) 0
  window := UInt16.ofNat (num16 b (t + 14))
  payloadRange :=
    ⟨t + 4 * (byte b (t + 12) / 16), min b.length (max (t + 4 * (byte b (t + 12) / 16)) totalBytes),
      le_min h.options (le_max_left _ _)⟩

theorem parseTCP_eq {p : IPPacket} {b : Bytes} (hproto : p.proto = 6) (h : IsTCP b p.transportOffset) :
    p.parseTCP b = .ok (some (tcpHeader h p.totalBytes)) := by
  have hsize := h.header
  generalize ht : p.transportOffset = t at h hsize
  have hoff : (b.getD (t + 12) 0 >>> 4).toNat * 4 = 4 * (byte b (t + 12) / 16) := by
    rw [toNat_high, Nat.mul_comm, byte]
  have hfits : 4 * (byte b (t + 12) / 16) ≥ 20 ∧ b.length ≥ t + 4 * (byte b (t + 12) / 16) :=
    ⟨by have := h.dataOffset; omega, h.options⟩
  have hrange : Range.make (t + 4 * (byte b (t + 12) / 16))
      (min b.length (max (t + 4 * (byte b (t + 12) / 16)) p.totalBytes)) =
        .ok (tcpHeader h p.totalBytes).payloadRange :=
    dif_pos (le_min h.options (le_max_left _ _))
  rw [IPPacket.parseTCP, if_neg (not_not_intro hproto)]
  simp only [ht]
  rw [if_neg (not_not_intro hsize), word16_eq (by omega), word16_eq (by omega),
    word32_eq (by omega), word32_eq (by omega), byteAt_eq (by omega), byteAt_eq (by omega),
    word16_eq (by omega)]
  simp only [ok_bind, hoff, if_neg (not_not_intro hfits), hrange]
  rfl

theorem parseTCP_none {p : IPPacket} {b : Bytes} (h : p.proto = 6 → ¬ IsTCP b p.transportOffset) :
    p.parseTCP b = .ok none := by
  generalize ht : p.transportOffset = t at h
  by_cases hproto : p.proto = 6
  · rw [IPPacket.parseTCP, if_neg (not_not_intro hproto)]
    simp only [ht]
    by_cases hsize : t + 20 ≤ b.length
    · have hoff : (b.getD (t + 12) 0 >>> 4).toNat * 4 = 4 * (byte b (t + 12) / 16) := by
        rw [toNat_high, Nat.mul_comm, byte]
      have hfits : ¬ (4 * (byte b (t + 12) / 16) ≥ 20 ∧ b.length ≥ t + 4 * (byte b (t + 12) / 16)) :=
        fun hf => h hproto ⟨hsize, by omega, hf.2⟩
      rw [if_neg (not_not_intro hsize), word16_eq (by omega), word16_eq (by omega),
        word32_eq (by omega), word32_eq (by omega), byteAt_eq (by omega), byteAt_eq (by omega),
        word16_eq (by omega)]
      simp only [ok_bind, hoff, if_pos hfits]
      rfl
    · rw [if_pos hsize]
      rfl
  · rw [IPPacket.parseTCP, if_pos hproto]
    rfl

end TrafficMonitor.Packets
