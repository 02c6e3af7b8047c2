import TrafficMonitor.Basic.Checksum
import TrafficMonitor.Ios.Packets
import TrafficMonitor.Ios.SwiftText

/-!
# Building packets

The four builders of the iOS client write TCP and UDP packets over IPv4 and IPv6 from the texts of
two addresses. The array that the code fills field by field is written here as its parts in order;
the checksum is computed with its own field zero.

Proved here:

* `build_eq`: the packet that a builder returns, if there is room for it;
* `admitted_of_build`, `build_trap`: a builder that returns a packet has passed its checks, and the
  UDP builder for IPv4 stops the program for payloads that pass its check and leave no room.
-/

namespace TrafficMonitor.PacketBuilders

open Bytes Packets Checksum
open Dissect (inet_ntop4 inet_ntop6)
open SwiftText (split uint8 uint16)

/-! ## The builders -/

/-- `UInt16(n)` -/
def toUInt16 (n : Nat) : Except Trap UInt16 :=
  if n < 65536 then .ok (UInt16.ofNat n) else .error .conversion

/-- The four bytes of a number, as the builders write them. -/
def wordBytes32 (n : UInt32) : Bytes :=
  [UInt8.ofNat (n.toNat / 16777216), UInt8.ofNat (n.toNat / 65536 % 256),
    UInt8.ofNat (n.toNat / 256 % 256), UInt8.ofNat (n.toNat % 256)]

/-- `sum += word` -/
def addWord (sum word : Nat) : Except Trap Nat :=
  if sum + word < 4294967296 then .ok (sum + word) else .error .overflow

/-- The loop over the bytes, two at a time. -/
def sumWords : Nat → Bytes → Except Trap Nat
  | sum, a :: b :: s => do sumWords (← addWord sum (256 * a.toNat + b.toNat)) s
  | sum, [a] => addWord sum (256 * a.toNat)
  | sum, [] => .ok sum

/-- The second loop of the code is `fold`. -/
def onesComplementChecksum (bytes : Bytes) (start count : Nat) : Except Trap UInt16 := do
  let sum ← sumWords 0 (← bytesAt bytes start count)
  return ~~~(UInt16.ofNat (fold sum))

/-- `srcIP.split(separator: ".").compactMap { UInt8($0) }` -/
def dottedParts (s : Bytes) : Bytes := (split Inet.DOT s).filterMap uint8

/-- The loop of `parseIPv6Address`. -/
def groupBytes : List Bytes → Option Bytes
  | [] => some []
  | g :: groups => match uint16 g with
    | none => none
    | some val => (groupBytes groups).map (wordBytes val ++ ·)

def parseIPv6Address (s : Bytes) : Option Bytes :=
  let groups := Lines.parts COLON s
  if groups.length = 8 then groupBytes groups else none

/-- Version 4 and IHL 5, the total length, DF, TTL 64; then the checksum and the addresses. -/
def ipv4Header (totalLen : UInt16) (proto : UInt8) (ck : UInt16) (src dst : Bytes) : Bytes :=
  ([0x45, 0] ++ wordBytes totalLen.toNat ++ [0, 0, 0x40, 0, 64, proto]) ++
    (wordBytes ck.toNat ++ (src ++ dst))

/-- Version 6, the payload length, the next header, hop limit 64, and the addresses. -/
def ipv6Header (payloadLen : UInt16) (nextHeader : UInt8) (src dst : Bytes) : Bytes :=
  [0x60, 0, 0, 0] ++ wordBytes payloadLen.toNat ++ [nextHeader, 64] ++ (src ++ dst)

/-- The header has no options; the urgent pointer is zero. -/
def tcpSegment (srcPort dstPort : UInt16) (seq ack : UInt32) (flags : UInt8) (window ck : UInt16)
    (payload : Bytes) : Bytes :=
  (wordBytes srcPort.toNat ++ wordBytes dstPort.toNat ++ wordBytes32 seq ++ wordBytes32 ack ++
    [0x50, flags] ++ wordBytes window.toNat) ++ (wordBytes ck.toNat ++ ([0, 0] ++ payload))

def udpSegment (srcPort dstPort udpLen ck : UInt16) (payload : Bytes) : Bytes :=
  (wordBytes srcPort.toNat ++ wordBytes dstPort.toNat ++ wordBytes udpLen.toNat) ++
    (wordBytes ck.toNat ++ payload)

def buildTCPv4Packet (srcIP : Bytes) (srcPort : UInt16) (dstIP : Bytes) (dstPort : UInt16)
    (seq ack : UInt32) (flags : UInt8) (window : UInt16) (payload : Bytes) :
    Except Trap (Option Bytes) := do
  let srcParts := dottedParts srcIP
  let dstParts := dottedParts dstIP
  if ¬ (srcParts.length = 4 ∧ dstParts.length = 4) then return none
  if ¬ payload.length ≤ 65495 then return none
  let tcpLen ← toUInt16 (20 + payload.length)
  let totalLen ← toUInt16 (20 + tcpLen.toNat)
  let ipCk ← onesComplementChecksum (ipv4Header totalLen 6 0 srcParts dstParts) 0 20
  let pseudo := srcParts ++ dstParts ++ [0x00, 0x06] ++ wordBytes tcpLen.toNat ++
    tcpSegment srcPort dstPort seq ack flags window 0 payload
  let tcpCk ← onesComplementChecksum pseudo 0 pseudo.length
  return some (ipv4Header totalLen 6 ipCk srcParts dstParts ++
    tcpSegment srcPort dstPort seq ack flags window tcpCk payload)

def buildIPv4UDPReply (srcIP : Bytes) (srcPort : UInt16) (dstIP : Bytes) (dstPort : UInt16)
    (payload : Bytes) : Except Trap (Option Bytes) := do
  let srcParts := dottedParts srcIP
  let dstParts := dottedParts dstIP
  if ¬ (srcParts.length = 4 ∧ dstParts.length = 4) then return none
  if ¬ payload.length ≤ 65527 then return none
  let udpLen ← toUInt16 (8 + payload.length)
  let totalLen ← toUInt16 (20 + udpLen.toNat)
  let ipCk ← onesComplementChecksum (ipv4Header totalLen 17 0 srcParts dstParts) 0 20
  let pseudo := srcParts ++ dstParts ++ [0x00, 0x11] ++ wordBytes udpLen.toNat ++
    udpSegment srcPort dstPort udpLen 0 payload
  let udpCk ← onesComplementChecksum pseudo 0 pseudo.length
  return some (ipv4Header totalLen 17 ipCk srcParts dstParts ++
    udpSegment srcPort dstPort udpLen udpCk payload)

def buildTCPv6Packet (srcIP : Bytes) (srcPort : UInt16) (dstIP : Bytes) (dstPort : UInt16)
    (seq ack : UInt32) (flags : UInt8) (window : UInt16) (payload : Bytes) :
    Except Trap (Option Bytes) := do
  let some srcBytes := parseIPv6Address srcIP | return none
  let some dstBytes := parseIPv6Address dstIP | return none
  if ¬ payload.length ≤ 65495 then return none
  let tcpLen ← toUInt16 (20 + payload.length)
  let pseudo := srcBytes ++ dstBytes ++ wordBytes32 (UInt32.ofNat tcpLen.toNat) ++ [0, 0, 0] ++ [6] ++
    tcpSegment srcPort dstPort seq ack flags window 0 payload
  let ck ← onesComplementChecksum pseudo 0 pseudo.length
  return some (ipv6Header tcpLen 6 srcBytes dstBytes ++
    tcpSegment srcPort dstPort seq ack flags window ck payload)

def buildIPv6UDPReply (srcIP : Bytes) (srcPort : UInt16) (dstIP : Bytes) (dstPort : UInt16)
    (payload : Bytes) : Except Trap (Option Bytes) := do
  let some srcBytes := parseIPv6Address srcIP | return none
  let some dstBytes := parseIPv6Address dstIP | return none
  if ¬ payload.length ≤ 65527 then return none
  let udpLen ← toUInt16 (8 + payload.length)
  let pseudo := srcBytes ++ dstBytes ++ wordBytes32 (UInt32.ofNat udpLen.toNat) ++ [0, 0, 0] ++ [17] ++
    udpSegment srcPort dstPort udpLen 0 payload
  let ck ← onesComplementChecksum pseudo 0 pseudo.length
  return some (ipv6Header udpLen 17 srcBytes dstBytes ++
    udpSegment srcPort dstPort udpLen ck payload)

/-! ## Calls -/

inductive Family
  | v4
  | v6
  deriving DecidableEq

namespace Family

def af : Family → Int
  | v4 => AF_INET
  | v6 => AF_INET6

def version : Family → Nat
  | v4 => 4
  | v6 => 6

def headerLength : Family → Nat
  | v4 => 20
  | v6 => 40

def addressLength : Family → Nat
  | v4 => 4
  | v6 => 16

def ntop : Family → Bytes → Bytes
  | v4 => inet_ntop4
  | v6 => inet_ntop6

/-- The bytes of an address text, as the builders read it. -/
def pton : Family → Bytes → Option Bytes
  | v4, s => if (dottedParts s).length = 4 then some (dottedParts s) else none
  | v6, s => parseIPv6Address s

end Family

inductive Transport
  | tcp (seq ack : UInt32) (flags : UInt8) (window : UInt16)
  | udp

def Transport.proto : Transport → UInt8
  | tcp .. => 6
  | udp => 17

/-- The length check of the builders. -/
def Transport.limit : Transport → Nat
  | tcp .. => 65495
  | udp => 65527

/-- A call of a builder. -/
structure Call where
  family : Family
  transport : Transport
  srcIP : Bytes
  srcPort : UInt16
  dstIP : Bytes
  dstPort : UInt16
  payload : Bytes

def Call.build (c : Call) : Except Trap (Option Bytes) :=
  match c.family, c.transport with
  | .v4, .tcp seq ack flags window =>
    buildTCPv4Packet c.srcIP c.srcPort c.dstIP c.dstPort seq ack flags window c.payload
  | .v4, .udp => buildIPv4UDPReply c.srcIP c.srcPort c.dstIP c.dstPort c.payload
  | .v6, .tcp seq ack flags window =>
    buildTCPv6Packet c.srcIP c.srcPort c.dstIP c.dstPort seq ack flags window c.payload
  | .v6, .udp => buildIPv6UDPReply c.srcIP c.srcPort c.dstIP c.dstPort c.payload

/-- The texts stand for the addresses, and the payload passes the length check. -/
structure Admitted (c : Call) (src dst : Bytes) : Prop where
  src_eq : c.family.pton c.srcIP = some src
  dst_eq : c.family.pton c.dstIP = some dst
  limit : c.payload.length ≤ c.transport.limit

/-! ## Parts of a packet -/

theorem length_wordBytes (n : Nat) : (wordBytes n).length = 2 := rfl

theorem length_wordBytes32 (n : UInt32) : (wordBytes32 n).length = 4 := rfl

theorem toUInt16_eq {n : Nat} (h : n < 65536) : toUInt16 n = .ok (UInt16.ofNat n) := if_pos h

theorem toNat_ofNat {n : Nat} (h : n < 65536) : (UInt16.ofNat n).toNat = n :=
  UInt16.toNat_ofNat_of_lt h

theorem sumWords_eq {s : Bytes} {sum : Nat} (h : sum + wordSum s < 4294967296) :
    sumWords sum s = .ok (sum + wordSum s) := by
  fun_induction sumWords sum s with
  | case1 sum a b s ih =>
    simp only [wordSum] at h
    rw [addWord, if_pos (by omega)]
    have hrest := ih (sum + (256 * a.toNat + b.toNat)) (by omega)
    simp only [wordSum, ok_bind, hrest]
    congr 1
    omega
  | case2 sum a => exact if_pos h
  | case3 sum => rfl

/-- **The checksum of the code.** -/
theorem onesComplementChecksum_eq {s : Bytes} (h : s.length ≤ 131068) :
    onesComplementChecksum s 0 s.length = .ok (UInt16.ofNat (checksum s)) := by
  have hle := wordSum_le s
  have hfold := fold_le (wordSum s)
  have hsum := @sumWords_eq s 0 (by omega)
  have hnot : ~~~(UInt16.ofNat (fold (wordSum s))) = UInt16.ofNat (checksum s) := by
    rw [UInt16.ext_iff, UInt16.toNat_not, toNat_ofNat (by omega), toNat_ofNat (checksum_lt s), checksum]
    rfl
  rw [onesComplementChecksum, bytesAt_eq (by omega)]
  simp only [ok_bind, List.drop_zero, List.take_length, hsum, Nat.zero_add, hnot]
  rfl

theorem toNat_checksum (s : Bytes) : (UInt16.ofNat (checksum s)).toNat = checksum s :=
  toNat_ofNat (checksum_lt s)

/-! ## What is built -/

namespace Call

variable (c : Call)

/-- The transport header up to its checksum. -/
def front : Bytes :=
  wordBytes c.srcPort.toNat ++ wordBytes c.dstPort.toNat ++ match c.transport with
    | .tcp seq ack flags window =>
      wordBytes32 seq ++ wordBytes32 ack ++ [0x50, flags] ++ wordBytes window.toNat
    | .udp => wordBytes (8 + c.payload.length)

/-- What follows the checksum. -/
def back : Bytes :=
  match c.transport with
  | .tcp .. => [0, 0] ++ c.payload
  | .udp => c.payload

/-- The transport header with the payload. -/
def size : Nat :=
  match c.transport with
  | .tcp .. => 20 + c.payload.length
  | .udp => 8 + c.payload.length

def pseudo (src dst : Bytes) : Bytes :=
  match c.family with
  | .v4 => src ++ dst ++ [0, c.transport.proto] ++ wordBytes c.size
  | .v6 => src ++ dst ++ wordBytes32 (UInt32.ofNat c.size) ++ [0, 0, 0, c.transport.proto]

def segment (src dst : Bytes) : Bytes :=
  c.front ++ (wordBytes (checksum (c.pseudo src dst ++ c.front ++ (wordBytes 0 ++ c.back))) ++ c.back)

/-- The bytes of an IPv4 header before its checksum. -/
def lead : Bytes := [0x45, 0] ++ wordBytes (20 + c.size) ++ [0, 0, 0x40, 0, 64, c.transport.proto]

def header (src dst : Bytes) : Bytes :=
  match c.family with
  | .v4 => c.lead ++ (wordBytes (checksum (c.lead ++ (wordBytes 0 ++ (src ++ dst)))) ++ (src ++ dst))
  | .v6 => ipv6Header (UInt16.ofNat c.size) c.transport.proto src dst

def packet (src dst : Bytes) : Bytes := c.header src dst ++ c.segment src dst

end Call

theorem pton_v4 {s a : Bytes} : Family.v4.pton s = some a ↔ dottedParts s = a ∧ a.length = 4 := by
  simp only [Family.pton, Option.ite_none_right_eq_some, Option.some.injEq]
  constructor
  · rintro ⟨hlen, rfl⟩
    exact ⟨rfl, hlen⟩
  · rintro ⟨rfl, hlen⟩
    exact ⟨hlen, rfl⟩

theorem length_groupBytes {groups : List Bytes} {a : Bytes} (h : groupBytes groups = some a) :
    a.length = 2 * groups.length := by
  induction groups generalizing a with
  | nil =>
    obtain rfl := Option.some.inj h
    rfl
  | cons g groups ih =>
    cases hval : uint16 g with
    | none => simp [groupBytes, hval] at h
    | some val =>
      simp only [groupBytes, hval, Option.map_eq_some_iff] at h
      obtain ⟨rest, hrest, rfl⟩ := h
      rw [List.length_append, ih hrest, length_wordBytes, List.length_cons]
      omega

theorem length_parseIPv6Address {s a : Bytes} (h : parseIPv6Address s = some a) : a.length = 16 := by
  simp only [parseIPv6Address] at h
  split at h
  next hlen => rw [length_groupBytes h, hlen]
  · cases h

section

variable {c : Call} {src dst : Bytes}

theorem tcpSegment_eq {seq ack : UInt32} {flags : UInt8} {window : UInt16}
    (h : c.transport = .tcp seq ack flags window) (ck : UInt16) :
    tcpSegment c.srcPort c.dstPort seq ack flags window ck c.payload =
      c.front ++ (wordBytes ck.toNat ++ c.back) := by
  simp [tcpSegment, Call.front, Call.back, h]

theorem udpSegment_eq (h : c.transport = .udp) (hsize : c.size < 65536) (ck : UInt16) :
    udpSegment c.srcPort c.dstPort (UInt16.ofNat c.size) ck c.payload =
      c.front ++ (wordBytes ck.toNat ++ c.back) := by
  have hlen : c.size = 8 + c.payload.length := by simp [Call.size, h]
  rw [udpSegment, toNat_ofNat hsize, hlen]
  simp [Call.front, Call.back, h]

theorem length_segment (n : Nat) : (c.front ++ (wordBytes n ++ c.back)).length = c.size := by
  unfold Call.front Call.back Call.size
  cases c.transport <;> simp [length_wordBytes, length_wordBytes32] <;> omega

theorem ipv4Header_eq (hroom : 20 + c.size < 65536) (ck : UInt16) :
    ipv4Header (UInt16.ofNat (20 + c.size)) c.transport.proto ck src dst =
      c.lead ++ (wordBytes ck.toNat ++ (src ++ dst)) := by
  rw [ipv4Header, toNat_ofNat hroom]
  rfl

theorem headerChecksum_eq (hs : src.length = 4) (hd : dst.length = 4) (hroom : 20 + c.size < 65536) :
    onesComplementChecksum (ipv4Header (UInt16.ofNat (20 + c.size)) c.transport.proto 0 src dst) 0 20 =
      .ok (UInt16.ofNat (checksum (c.lead ++ (wordBytes 0 ++ (src ++ dst))))) := by
  have hlen : (c.lead ++ (wordBytes 0 ++ (src ++ dst))).length = 20 := by
    simp [Call.lead, length_wordBytes, hs, hd]
  have hck := onesComplementChecksum_eq (s := c.lead ++ (wordBytes 0 ++ (src ++ dst))) (by omega)
  rw [hlen] at hck
  rw [ipv4Header_eq hroom]
  exact hck

variable (c src dst) in
/-- The checksum over the pseudo-header and the segment. -/
theorem segmentChecksum_eq (hs : src.length ≤ 16) (hd : dst.length ≤ 16) (hsize : c.size < 65536)
    {pseudo : Bytes} (h : pseudo = c.pseudo src dst ++ (c.front ++ (wordBytes 0 ++ c.back))) :
    onesComplementChecksum pseudo 0 pseudo.length =
      .ok (UInt16.ofNat (checksum (c.pseudo src dst ++ c.front ++ (wordBytes 0 ++ c.back)))) := by
  have hpseudo : (c.pseudo src dst).length ≤ 40 := by
    unfold Call.pseudo
    cases c.family <;> simp [length_wordBytes, length_wordBytes32] <;> omega
  have hlen : pseudo.length ≤ 131068 := by
    rw [h, List.length_append, length_segment]
    omega
  rw [onesComplementChecksum_eq hlen, h, List.append_assoc]

theorem buildTCPv4Packet_eq {seq ack : UInt32} {flags : UInt8} {window : UInt16}
    (ht : c.transport = .tcp seq ack flags window) (hf : c.family = .v4) (h : Admitted c src dst)
    (hroom : 20 + c.size < 65536) :
    buildTCPv4Packet c.srcIP c.srcPort c.dstIP c.dstPort seq ack flags window c.payload =
      .ok (some (c.packet src dst)) := by
  obtain ⟨hsrc, hdst, hlimit⟩ := h
  rw [hf] at hsrc hdst
  obtain ⟨rfl, hs⟩ := pton_v4.mp hsrc
  obtain ⟨rfl, hd⟩ := pton_v4.mp hdst
  have hsize : 20 + c.payload.length = c.size := by simp [Call.size, ht]
  have hproto : c.transport.proto = 6 := by rw [ht]; rfl
  have hlimit : c.payload.length ≤ 65495 := by simpa [ht, Transport.limit] using hlimit
  simp only [buildTCPv4Packet]
  rw [if_neg (not_not_intro ⟨hs, hd⟩), if_neg (not_not_intro hlimit), hsize, toUInt16_eq (by omega)]
  simp only [ok_bind]
  rw [toNat_ofNat (by omega), toUInt16_eq hroom]
  simp only [ok_bind]
  rw [← hproto, headerChecksum_eq hs hd hroom]
  simp only [ok_bind]
  rw [segmentChecksum_eq c (dottedParts c.srcIP) (dottedParts c.dstIP)
    (by omega) (by omega) (by omega) (by simp [tcpSegment_eq ht, Call.pseudo, hf, hproto])]
  simp only [ok_bind, tcpSegment_eq ht, ipv4Header_eq hroom, toNat_checksum, Call.packet, Call.header,
    Call.segment, hf]
  rfl

theorem buildIPv4UDPReply_eq (ht : c.transport = .udp) (hf : c.family = .v4) (h : Admitted c src dst)
    (hroom : 20 + c.size < 65536) :
    buildIPv4UDPReply c.srcIP c.srcPort c.dstIP c.dstPort c.payload =
      .ok (some (c.packet src dst)) := by
  obtain ⟨hsrc, hdst, hlimit⟩ := h
  rw [hf] at hsrc hdst
  obtain ⟨rfl, hs⟩ := pton_v4.mp hsrc
  obtain ⟨rfl, hd⟩ := pton_v4.mp hdst
  have hsize : 8 + c.payload.length = c.size := by simp [Call.size, ht]
  have hproto : c.transport.proto = 17 := by rw [ht]; rfl
  have hlimit : c.payload.length ≤ 65527 := by simpa [ht, Transport.limit] using hlimit
  simp only [buildIPv4UDPReply]
  rw [if_neg (not_not_intro ⟨hs, hd⟩), if_neg (not_not_intro hlimit), hsize, toUInt16_eq (by omega)]
  simp only [ok_bind]
  rw [toNat_ofNat (by omega), toUInt16_eq hroom]
  simp only [ok_bind]
  rw [← hproto, headerChecksum_eq hs hd hroom]
  simp only [ok_bind]
  rw [segmentChecksum_eq c (dottedParts c.srcIP) (dottedParts c.dstIP)
    (by omega) (by omega) (by omega)
    (by simp [udpSegment_eq ht (show c.size < 65536 by omega), Call.pseudo, hf, hproto])]
  simp only [ok_bind, udpSegment_eq ht (show c.size < 65536 by omega), ipv4Header_eq hroom,
    toNat_checksum, Call.packet, Call.header, Call.segment, hf]
  rfl

theorem buildTCPv6Packet_eq {seq ack : UInt32} {flags : UInt8} {window : UInt16}
    (ht : c.transport = .tcp seq ack flags window) (hf : c.family = .v6) (h : Admitted c src dst) :
    buildTCPv6Packet c.srcIP c.srcPort c.dstIP c.dstPort seq ack flags window c.payload =
      .ok (some (c.packet src dst)) := by
  obtain ⟨hsrc, hdst, hlimit⟩ := h
  rw [hf] at hsrc hdst
  have hs := length_parseIPv6Address hsrc
  have hd := length_parseIPv6Address hdst
  have hsize : 20 + c.payload.length = c.size := by simp [Call.size, ht]
  have hproto : c.transport.proto = 6 := by rw [ht]; rfl
  have hlimit : c.payload.length ≤ 65495 := by simpa [ht, Transport.limit] using hlimit
  have hsrc : parseIPv6Address c.srcIP = some src := hsrc
  have hdst : parseIPv6Address c.dstIP = some dst := hdst
  simp only [buildTCPv6Packet, hsrc, hdst]
  rw [if_neg (not_not_intro hlimit), hsize, toUInt16_eq (by omega)]
  simp only [ok_bind]
  rw [toNat_ofNat (by omega), segmentChecksum_eq c src dst
    (by omega) (by omega) (by omega) (by simp [tcpSegment_eq ht, Call.pseudo, hf, hproto])]
  simp only [ok_bind, tcpSegment_eq ht, toNat_checksum, Call.packet, Call.header, Call.segment, hf, hproto]
  rfl

theorem buildIPv6UDPReply_eq (ht : c.transport = .udp) (hf : c.family = .v6) (h : Admitted c src dst) :
    buildIPv6UDPReply c.srcIP c.srcPort c.dstIP c.dstPort c.payload =
      .ok (some (c.packet src dst)) := by
  obtain ⟨hsrc, hdst, hlimit⟩ := h
  rw [hf] at hsrc hdst
  have hs := length_parseIPv6Address hsrc
  have hd := length_parseIPv6Address hdst
  have hsize : 8 + c.payload.length = c.size := by simp [Call.size, ht]
  have hproto : c.transport.proto = 17 := by rw [ht]; rfl
  have hlimit : c.payload.length ≤ 65527 := by simpa [ht, Transport.limit] using hlimit
  have hsrc : parseIPv6Address c.srcIP = some src := hsrc
  have hdst : parseIPv6Address c.dstIP = some dst := hdst
  have hfits : c.size < 65536 := by omega
  simp only [buildIPv6UDPReply, hsrc, hdst]
  rw [if_neg (not_not_intro hlimit), hsize, toUInt16_eq hfits]
  simp only [ok_bind]
  rw [toNat_ofNat hfits, segmentChecksum_eq c src dst
    (by omega) (by omega) hfits (by simp [udpSegment_eq ht hfits, Call.pseudo, hf, hproto])]
  simp only [ok_bind, udpSegment_eq ht hfits, toNat_checksum, Call.packet, Call.header, Call.segment, hf,
    hproto]
  rfl

/-- **The packet.** -/
theorem build_eq (h : Admitted c src dst) (hroom : c.family = .v4 → 20 + c.size < 65536) :
    c.build = .ok (some (c.packet src dst)) := by
  cases hf : c.family with
  | v4 =>
    cases ht : c.transport with
    | tcp seq ack flags window =>
      simp only [Call.build, hf, ht]
      exact buildTCPv4Packet_eq ht hf h (hroom hf)
    | udp =>
      simp only [Call.build, hf, ht]
      exact buildIPv4UDPReply_eq ht hf h (hroom hf)
  | v6 =>
    cases ht : c.transport with
    | tcp seq ack flags window =>
      simp only [Call.build, hf, ht]
      exact buildTCPv6Packet_eq ht hf h
    | udp =>
      simp only [Call.build, hf, ht]
      exact buildIPv6UDPReply_eq ht hf h

/-- The length check lets payloads pass that leave no room for the header. -/
theorem build_trap (h : Admitted c src dst) (ht : c.transport = .udp) (hf : c.family = .v4)
    (hlong : 65507 < c.payload.length) : c.build = .error .conversion := by
  obtain ⟨hsrc, hdst, hlimit⟩ := h
  rw [hf] at hsrc hdst
  obtain ⟨rfl, hs⟩ := pton_v4.mp hsrc
  obtain ⟨rfl, hd⟩ := pton_v4.mp hdst
  have hlimit : c.payload.length ≤ 65527 := by simpa [ht, Transport.limit] using hlimit
  have htrap : toUInt16 (20 + (8 + c.payload.length)) = .error .conversion := if_neg (by omega)
  simp only [Call.build, hf, ht, buildIPv4UDPReply]
  rw [if_neg (not_not_intro ⟨hs, hd⟩), if_neg (not_not_intro hlimit), toUInt16_eq (by omega)]
  simp only [ok_bind]
  rw [toNat_ofNat (by omega), htrap]
  rfl

/-- Behind a check that returns `nil`. -/
theorem of_guard {g : Prop} [Decidable g] {rest : Except Trap (Option Bytes)} {pkt : Bytes}
    (h : (if ¬ g then pure none else rest) = .ok (some pkt)) : g ∧ rest = .ok (some pkt) := by
  by_cases hg : g
  · rw [if_neg (not_not_intro hg)] at h
    exact ⟨hg, h⟩
  · rw [if_pos hg] at h
    cases h

/-- A builder that returns a packet has passed its checks. -/
theorem admitted_of_build {pkt : Bytes} (h : c.build = .ok (some pkt)) : ∃ src dst, Admitted c src dst := by
  have hparts {s : Bytes} (hlen : (dottedParts s).length = 4) :
      Family.v4.pton s = some (dottedParts s) := pton_v4.mpr ⟨rfl, hlen⟩
  cases hf : c.family with
  | v4 =>
    cases ht : c.transport with
    | tcp seq ack flags window =>
      simp only [Call.build, hf, ht, buildTCPv4Packet] at h
      obtain ⟨hlens, h⟩ := of_guard h
      obtain ⟨hlimit, -⟩ := of_guard h
      exact ⟨_, _, by rw [hf]; exact hparts hlens.1, by rw [hf]; exact hparts hlens.2,
        by rw [ht]; exact hlimit⟩
    | udp =>
      simp only [Call.build, hf, ht, buildIPv4UDPReply] at h
      obtain ⟨hlens, h⟩ := of_guard h
      obtain ⟨hlimit, -⟩ := of_guard h
      exact ⟨_, _, by rw [hf]; exact hparts hlens.1, by rw [hf]; exact hparts hlens.2,
        by rw [ht]; exact hlimit⟩
  | v6 =>
    cases hsrc : parseIPv6Address c.srcIP with
    | none =>
      cases ht : c.transport <;>
        simp only [Call.build, hf, ht, buildTCPv6Packet, buildIPv6UDPReply, hsrc] at h <;> cases h
    | some src =>
      cases hdst : parseIPv6Address c.dstIP with
      | none =>
        cases ht : c.transport <;>
          simp only [Call.build, hf, ht, buildTCPv6Packet, buildIPv6UDPReply, hsrc, hdst] at h <;> cases h
      | some dst =>
        refine ⟨src, dst, by rw [hf]; exact hsrc, by rw [hf]; exact hdst, ?_⟩
        cases ht : c.transport with
        | tcp seq ack flags window =>
          simp only [Call.build, hf, ht, buildTCPv6Packet, hsrc, hdst] at h
          exact (of_guard h).1
        | udp =>
          simp only [Call.build, hf, ht, buildIPv6UDPReply, hsrc, hdst] at h
          exact (of_guard h).1

/-- There is room for the header exactly in the packets that fit. -/
theorem room_of_length (h : Admitted c src dst)
    (hlength : c.transport = .udp → c.family = .v4 → c.payload.length ≤ 65507) :
    c.family = .v4 → 20 + c.size < 65536 := by
  intro hf
  have hlimit := h.limit
  unfold Call.size
  cases ht : c.transport with
  | tcp seq ack flags window =>
    rw [ht] at hlimit
    dsimp only [Transport.limit] at hlimit ⊢
    omega
  | udp =>
    have := hlength ht hf
    dsimp only
    omega

end

end TrafficMonitor.PacketBuilders
