import TrafficMonitor.Ios.PacketBuilders

/-!
# Packets that were built

What a receiver tests on a packet (`Correct`): it is parsed back to what it was built from, and the
checksums verify.

Proved here, for all addresses that a builder accepts and all payloads that pass its length check:

* `exists_parsed`, `carries_tcp`, `carries_udp`: the packet is parsed back;
* `verifies_header`, `verifies_segment`: the checksums verify;
* `correct_iff`: TCP packets are always correct; a UDP packet is correct if its payload leaves room
  for an IPv4 header in 65535 bytes and the words that its checksum covers do not add up to a
  multiple of 65535.
-/

namespace TrafficMonitor.PacketRoundTrip

open Bytes Packets Checksum PacketBuilders
open Dissect (inet_ntop6)

/-! ## What a receiver tests -/

/-- What `parseTCP` and `udpPayload` give; there is no payload range for an empty UDP payload. -/
def Carries (c : Call) (pkt : Bytes) (p : IPPacket) : Prop :=
  match c.transport with
  | .tcp seq ack flags window => ∃ h, p.parseTCP pkt = .ok (some h) ∧ h.srcPort = c.srcPort ∧
      h.dstPort = c.dstPort ∧ h.seq = seq ∧ h.ack = ack ∧ h.flags = flags ∧ h.window = window ∧
      h.payload pkt = c.payload
  | .udp => p.srcPort = c.srcPort ∧ p.dstPort = c.dstPort ∧ (p.udpPayload pkt).getD [] = c.payload

/-- The packet is parsed back to the call. -/
structure ParsedBack (c : Call) (src dst pkt : Bytes) (p : IPPacket) : Prop where
  parse_eq : parse pkt c.family.af = .ok (some p)
  version : p.version = c.family.version
  proto : p.proto = c.transport.proto
  srcIP : p.srcIP = c.family.ntop src
  dstIP : p.dstIP = c.family.ntop dst
  totalBytes : p.totalBytes = pkt.length
  carries : Carries c pkt p

/-- The addresses of the packet, its protocol and the length behind the header. -/
def pseudoHeader (pkt : Bytes) (proto : UInt8) : Family → Bytes
  | .v4 => (pkt.drop 12).take 8 ++ [0, proto] ++ wordBytes (pkt.length - 20)
  | .v6 => (pkt.drop 8).take 32 ++ wordBytes32 (UInt32.ofNat (pkt.length - 40)) ++ [0, 0, 0, proto]

structure Correct (c : Call) (src dst pkt : Bytes) : Prop where
  parsed : ∃ p, ParsedBack c src dst pkt p
  headerChecksum : c.family = .v4 → Verifies (pkt.take 20)
  checksum : Verifies (pseudoHeader pkt c.transport.proto c.family ++ pkt.drop c.family.headerLength)
  /-- A UDP checksum of zero is sent as all ones. -/
  notZero : c.transport = .udp → num16 pkt (c.family.headerLength + 6) ≠ 0

def Meets (c : Call) (src dst : Bytes) : Prop := ∃ pkt, c.build = .ok (some pkt) ∧ Correct c src dst pkt

/-- The sum of the words under a UDP checksum. -/
def udpSum (c : Call) (src dst : Bytes) : Nat :=
  wordSum src + wordSum dst + 17 + 2 * (8 + c.payload.length) + c.srcPort.toNat + c.dstPort.toNat +
    wordSum c.payload

structure Fits (c : Call) (src dst : Bytes) : Prop where
  length : c.transport = .udp → c.family = .v4 → c.payload.length ≤ 65507
  sum : c.transport = .udp → ¬ 65535 ∣ udpSum c src dst

section

variable {c : Call} {src dst : Bytes}

/-! ## Parsing back -/

/-- The addresses have their family's lengths, and the length fields hold the sizes. -/
structure Sized (c : Call) (src dst : Bytes) : Prop where
  src_length : src.length = c.family.addressLength
  dst_length : dst.length = c.family.addressLength
  size_lt : c.size < 65536
  room : c.family = .v4 → 20 + c.size < 65536

theorem length_of_pton {f : Family} {s a : Bytes} (h : f.pton s = some a) : a.length = f.addressLength := by
  cases f with
  | v4 => exact (pton_v4.mp h).2
  | v6 => exact length_parseIPv6Address h

theorem size_le (c : Call) (h : c.payload.length ≤ c.transport.limit) : c.size < 65536 := by
  unfold Call.size
  cases ht : c.transport <;> simp only [ht, Transport.limit] at h ⊢ <;> omega

theorem sized_of_admitted (h : Admitted c src dst) (hroom : c.family = .v4 → 20 + c.size < 65536) :
    Sized c src dst :=
  ⟨length_of_pton h.src_eq, length_of_pton h.dst_eq, size_le c h.limit, hroom⟩

theorem length_header (h : Sized c src dst) : (c.header src dst).length = c.family.headerLength := by
  have hs := h.src_length
  have hd := h.dst_length
  unfold Call.header
  cases hf : c.family <;>
    simp [hf, Family.addressLength, Family.headerLength, Call.lead, ipv6Header, length_wordBytes]
      at hs hd ⊢ <;> omega

theorem length_packet (h : Sized c src dst) :
    (c.packet src dst).length = c.family.headerLength + c.size := by
  rw [Call.packet, List.length_append, length_header h, Call.segment, length_segment]

theorem drop_header (h : Sized c src dst) (k : Nat) :
    (c.packet src dst).drop (c.family.headerLength + k) = (c.segment src dst).drop k := by
  rw [Call.packet, ← length_header h, List.drop_append]
  simp

theorem byte_packet (h : Sized c src dst) (k : Nat) :
    (c.packet src dst).getD (c.family.headerLength + k) 0 = (c.segment src dst).getD k 0 := by
  have hdrop := congrArg (fun s => s.getD 0 0) (drop_header h k)
  simpa [List.getD_eq_getElem?_getD, List.getElem?_drop] using hdrop

theorem word_value {n : Nat} (h : n < 65536) :
    256 * (UInt8.ofNat (n / 256)).toNat + (UInt8.ofNat (n % 256)).toNat = n := by
  simpa [wordBytes, wordSum] using wordSum_wordBytes h []

/-- The fields of the parsed packet. -/
structure Parsed (c : Call) (src dst pkt : Bytes) (p : IPPacket) : Prop where
  parse_eq : parse pkt c.family.af = .ok (some p)
  version : p.version = c.family.version
  proto : p.proto = c.transport.proto
  srcIP : p.srcIP = c.family.ntop src
  dstIP : p.dstIP = c.family.ntop dst
  totalBytes : p.totalBytes = pkt.length
  transportOffset : p.transportOffset = c.family.headerLength
  udp : (p.srcPort, p.dstPort, p.udpPayloadRange) =
    if c.transport.proto = protoUDP ∧ c.family.headerLength + 8 ≤ pkt.length then
      (UInt16.ofNat (num16 pkt c.family.headerLength),
        UInt16.ofNat (num16 pkt (c.family.headerLength + 2)), udpRange pkt c.family.headerLength)
    else (0, 0, Range.empty)

theorem exists_parsed_v4 (hf : c.family = .v4) (h : Sized c src dst) :
    ∃ p, Parsed c src dst (c.packet src dst) p := by
  have hlen := length_packet h
  have hs := h.src_length
  have hd := h.dst_length
  have hroom := h.room hf
  rw [hf] at hs hd hlen
  obtain ⟨s0, s1, s2, s3, rfl⟩ := AddressText.exists_octets hs
  obtain ⟨d0, d1, d2, d3, rfl⟩ := AddressText.exists_octets hd
  have hpkt : c.packet [s0, s1, s2, s3] [d0, d1, d2, d3] =
      c.header [s0, s1, s2, s3] [d0, d1, d2, d3] ++ c.segment [s0, s1, s2, s3] [d0, d1, d2, d3] := rfl
  simp only [Call.header, hf] at hpkt
  generalize c.packet [s0, s1, s2, s3] [d0, d1, d2, d3] = pkt at hpkt hlen ⊢
  have hfirst : byte pkt 0 = 69 := by rw [hpkt]; rfl
  have hproto : pkt.getD 9 0 = c.transport.proto := by rw [hpkt]; rfl
  have htotal : num16 pkt 2 = 20 + c.size := by
    rw [hpkt]
    exact word_value hroom
  have hsrc : (pkt.drop 12).take 4 = [s0, s1, s2, s3] := by rw [hpkt]; rfl
  have hdst : (pkt.drop 16).take 4 = [d0, d1, d2, d3] := by rw [hpkt]; rfl
  have hoff : 4 * (byte pkt 0 % 16) = 20 := by rw [hfirst]
  have hip : IsIPv4 pkt :=
    ⟨by rw [hlen]; exact Nat.le_add_right 20 _, by rw [hfirst], by rw [hfirst],
      by rw [hoff, hlen]; exact Nat.le_add_right 20 _⟩
  refine ⟨packet4 pkt, ?_, ?_, hproto, ?_, ?_, htotal.trans hlen.symm, ?_, ?_⟩
  · rw [hf]
    exact parseIPv4_eq hip
  · rw [hf]
    rfl
  · rw [hf, ← hsrc]
    rfl
  · rw [hf, ← hdst]
    rfl
  · rw [hf]
    exact hoff
  · rw [hf, ← hproto]
    simp only [packet4, hoff]
    rfl

theorem exists_parsed_v6 (hf : c.family = .v6) (h : Sized c src dst) :
    ∃ p, Parsed c src dst (c.packet src dst) p := by
  have hlen := length_packet h
  have hs := h.src_length
  have hd := h.dst_length
  rw [hf] at hs hd hlen
  have hpkt : c.packet src dst = c.header src dst ++ c.segment src dst := rfl
  have hrest : ∀ t : Bytes, ipv6Header (UInt16.ofNat c.size) c.transport.proto src dst ++ t =
      0x60 :: 0 :: 0 :: 0 :: UInt8.ofNat (c.size / 256) :: UInt8.ofNat (c.size % 256) ::
        c.transport.proto :: 64 :: (src ++ (dst ++ t)) := fun t => by
    rw [ipv6Header, toNat_ofNat h.size_lt]
    simp [wordBytes]
  simp only [Call.header, hf] at hpkt
  rw [hrest] at hpkt
  generalize c.packet src dst = pkt at hpkt hlen ⊢
  have hfirst : byte pkt 0 = 96 := by rw [hpkt]; rfl
  have hproto : pkt.getD 6 0 = c.transport.proto := by rw [hpkt]; rfl
  have htotal : num16 pkt 4 = c.size := by
    rw [hpkt]
    exact word_value h.size_lt
  have hdrop8 : pkt.drop 8 = src ++ (dst ++ c.segment src dst) := by rw [hpkt]; rfl
  have hdrop24 : pkt.drop 24 = (pkt.drop 8).drop 16 := by rw [List.drop_drop]
  have hsrc : (pkt.drop 8).take 16 = src := by
    rw [hdrop8]
    exact List.take_left' hs
  have hdst : (pkt.drop 24).take 16 = dst := by
    have hleft : (src ++ (dst ++ c.segment src dst)).drop 16 = dst ++ c.segment src dst :=
      List.drop_left' hs
    rw [hdrop24, hdrop8, hleft]
    exact List.take_left' hd
  have hip : IsIPv6 pkt := ⟨by rw [hlen]; exact Nat.le_add_right 40 _, by rw [hfirst]⟩
  have hend : ChainEnd pkt (pkt.getD 6 0, 40) (c.transport.proto, 40) := by
    rw [hproto]
    refine ⟨.refl, final_iff.mpr ?_⟩
    cases c.transport <;> simp [Transport.proto]
  refine ⟨packet6 pkt (c.transport.proto, 40), ?_, ?_, rfl, ?_, ?_, ?_, ?_, ?_⟩
  · rw [hf]
    exact parseIPv6_eq hip hend
  · rw [hf]
    rfl
  · rw [hf]
    exact congrArg inet_ntop6 hsrc
  · rw [hf]
    exact congrArg inet_ntop6 hdst
  · rw [hlen]
    exact congrArg (40 + ·) htotal
  · rw [hf]
    rfl
  · rw [hf]
    rfl

theorem exists_parsed (h : Sized c src dst) : ∃ p, Parsed c src dst (c.packet src dst) p := by
  cases hf : c.family with
  | v4 => exact exists_parsed_v4 hf h
  | v6 => exact exists_parsed_v6 hf h

theorem num16_packet (h : Sized c src dst) (k : Nat) :
    num16 (c.packet src dst) (c.family.headerLength + k) = num16 (c.segment src dst) k := by
  simp only [num16, byte, Nat.add_assoc, byte_packet h]

theorem num32_packet (h : Sized c src dst) (k : Nat) :
    num32 (c.packet src dst) (c.family.headerLength + k) = num32 (c.segment src dst) k := by
  simp only [num32, byte, Nat.add_assoc, byte_packet h]

theorem word32_value (n : UInt32) (s : Bytes) : UInt32.ofNat (num32 (wordBytes32 n ++ s) 0) = n := by
  have hn := n.toNat_lt
  have hb (k : Nat) : (UInt8.ofNat (k % 256)).toNat = k % 256 :=
    UInt8.toNat_ofNat_of_lt (Nat.mod_lt k (by omega))
  have hhi : n.toNat / 16777216 < 256 := by omega
  have h0 : (UInt8.ofNat (n.toNat / 16777216)).toNat = n.toNat / 16777216 :=
    UInt8.toNat_ofNat_of_lt hhi
  have hvalue : num32 (wordBytes32 n ++ s) 0 = n.toNat := by
    simp only [num32, byte, wordBytes32, List.cons_append, List.nil_append, List.getD_cons_succ,
      List.getD_cons_zero, h0, hb]
    omega
  rw [hvalue, UInt32.ofNat_toNat]

theorem port_value (n : UInt16) (s : Bytes) : UInt16.ofNat (num16 (wordBytes n.toNat ++ s) 0) = n := by
  have hvalue : num16 (wordBytes n.toNat ++ s) 0 = n.toNat := word_value n.toNat_lt
  rw [hvalue, UInt16.ofNat_toNat]

/-- The fields of a TCP header that was built. -/
theorem carries_tcp {seq ack : UInt32} {flags : UInt8} {window : UInt16}
    (ht : c.transport = .tcp seq ack flags window) (h : Sized c src dst) {p : IPPacket}
    (hp : Parsed c src dst (c.packet src dst) p) : Carries c (c.packet src dst) p := by
  have hlen := length_packet h
  have hsize : c.size = 20 + c.payload.length := by simp [Call.size, ht]
  have hoff := hp.transportOffset
  have hseg : ∃ ck, c.segment src dst = wordBytes c.srcPort.toNat ++ (wordBytes c.dstPort.toNat ++
      (wordBytes32 seq ++ (wordBytes32 ack ++ ([0x50, flags] ++ (wordBytes window.toNat ++
        (wordBytes ck ++ ([0, 0] ++ c.payload))))))) := by
    simp only [Call.segment, Call.front, Call.back, ht, List.append_assoc]
    exact ⟨_, rfl⟩
  obtain ⟨ck, hseg⟩ := hseg
  have hdata : byte (c.packet src dst) (c.family.headerLength + 12) = 80 := by
    rw [byte, byte_packet h, hseg]
    rfl
  have htcp : IsTCP (c.packet src dst) p.transportOffset := by
    rw [hoff]
    exact ⟨by omega, by omega, by omega⟩
  unfold Carries
  rw [ht]
  refine ⟨_, parseTCP_eq (by rw [hp.proto, ht]; rfl) htcp, ?_, ?_, ?_, ?_, ?_, ?_, ?_⟩
  · simp only [tcpHeader, hoff]
    rw [show c.family.headerLength = c.family.headerLength + 0 from rfl, num16_packet h, hseg]
    exact port_value _ _
  · simp only [tcpHeader, hoff, num16_packet h, hseg]
    exact port_value _ []
  · simp only [tcpHeader, hoff, num32_packet h, hseg]
    exact word32_value _ []
  · simp only [tcpHeader, hoff, num32_packet h, hseg]
    exact word32_value _ []
  · simp only [tcpHeader, hoff, byte_packet h, hseg]
    rfl
  · simp only [tcpHeader, hoff, num16_packet h, hseg]
    exact port_value _ []
  · have hdrop : (c.segment src dst).drop 20 = c.payload := by rw [hseg]; rfl
    simp only [TCPHeader.payload, tcpHeader, hoff, hdata, hp.totalBytes, drop_header h, hdrop, hlen]
    exact List.take_of_length_le (by omega)

variable (src dst) in
/-- A segment that is UDP. -/
theorem udp_segment_eq (ht : c.transport = .udp) : c.segment src dst =
    wordBytes c.srcPort.toNat ++ (wordBytes c.dstPort.toNat ++ (wordBytes c.size ++
      (wordBytes (checksum (c.pseudo src dst ++ c.front ++ (wordBytes 0 ++ c.back))) ++ c.payload))) := by
  simp only [Call.segment, Call.front, Call.back, Call.size, ht, List.append_assoc]

/-- The fields of a UDP header that was built. -/
theorem carries_udp (ht : c.transport = .udp) (h : Sized c src dst) {p : IPPacket}
    (hp : Parsed c src dst (c.packet src dst) p) : Carries c (c.packet src dst) p := by
  have hlen := length_packet h
  have hsize : c.size = 8 + c.payload.length := by simp [Call.size, ht]
  have hseg := udp_segment_eq src dst ht
  have hproto : c.transport.proto = protoUDP := by rw [ht]; rfl
  have hudp := hp.udp
  rw [if_pos ⟨hproto, by omega⟩, Prod.mk.injEq, Prod.mk.injEq] at hudp
  obtain ⟨hsrc, hdst, hrange⟩ := hudp
  have hudpLen : num16 (c.packet src dst) (c.family.headerLength + 4) = c.size := by
    rw [num16_packet h, hseg]
    exact word_value h.size_lt
  unfold Carries
  rw [ht]
  refine ⟨?_, ?_, ?_⟩
  · rw [hsrc, show c.family.headerLength = c.family.headerLength + 0 from rfl, num16_packet h, hseg]
    exact port_value _ _
  · rw [hdst, num16_packet h, hseg]
    exact port_value _ []
  · have hend : min (c.family.headerLength + c.size) (c.packet src dst).length =
        (c.packet src dst).length := by omega
    by_cases hempty : c.payload = []
    · have hnone : udpRange (c.packet src dst) c.family.headerLength = Range.empty := by
        rw [hempty] at hsize
        refine dif_neg ?_
        rw [hudpLen, hend, hlen, hsize]
        exact Nat.lt_irrefl _
      simp [IPPacket.udpPayload, hrange, hnone, Range.isEmpty, Range.empty, hempty]
    · have hpos := List.length_pos_iff.mpr hempty
      have hlong : c.family.headerLength + 8 <
          min (c.family.headerLength + num16 (c.packet src dst) (c.family.headerLength + 4))
            (c.packet src dst).length := by
        rw [hudpLen, hend]
        omega
      have hdrop : (c.segment src dst).drop 8 = c.payload := by rw [hseg]; rfl
      have hne : ¬ c.family.headerLength + 8 = (c.packet src dst).length := by omega
      have hfull : c.payload.length ≤ (c.packet src dst).length - (c.family.headerLength + 8) := by omega
      have hsome : udpRange (c.packet src dst) c.family.headerLength = ⟨_, _, Nat.le_of_lt hlong⟩ :=
        dif_pos hlong
      simp only [IPPacket.udpPayload, hrange, hsome, hudpLen, hend, Range.isEmpty, hp.proto, hproto, hne,
        decide_false, Bool.false_eq_true, not_false_eq_true, le_refl, and_self, if_true,
        drop_header h, hdrop, Option.getD_some]
      exact List.take_of_length_le hfull

/-! ## Checksums -/

theorem take_header (hf : c.family = .v4) (h : Sized c src dst) :
    (c.packet src dst).take 20 = c.header src dst := by
  have hlen := length_header h
  rw [hf] at hlen
  exact List.take_left' hlen

theorem verifies_header (hf : c.family = .v4) (h : Sized c src dst) :
    Verifies ((c.packet src dst).take 20) := by
  rw [take_header hf h]
  simp only [Call.header, hf]
  exact verifies_fill (n := 5) rfl _

theorem pseudoHeader_packet (h : Sized c src dst) :
    pseudoHeader (c.packet src dst) c.transport.proto c.family = c.pseudo src dst := by
  have hlen := length_packet h
  have hs := h.src_length
  have hd := h.dst_length
  unfold pseudoHeader Call.pseudo
  cases hf : c.family with
  | v4 =>
    rw [hf] at hs hd hlen
    have hdrop : (c.packet src dst).drop 12 = (src ++ dst) ++ c.segment src dst := by
      simp only [Call.packet, Call.header, hf]
      rfl
    have htake : ((src ++ dst) ++ c.segment src dst).take 8 = src ++ dst :=
      List.take_left' (by rw [List.length_append, hs, hd]; rfl)
    have hsub : (c.packet src dst).length - 20 = c.size := by
      rw [hlen]
      exact Nat.add_sub_cancel_left 20 c.size
    simp only [hdrop, htake, hsub]
  | v6 =>
    rw [hf] at hs hd hlen
    have hdrop : (c.packet src dst).drop 8 = (src ++ dst) ++ c.segment src dst := by
      simp only [Call.packet, Call.header, hf]
      rfl
    have htake : ((src ++ dst) ++ c.segment src dst).take 32 = src ++ dst :=
      List.take_left' (by rw [List.length_append, hs, hd]; rfl)
    have hsub : (c.packet src dst).length - 40 = c.size := by
      rw [hlen]
      exact Nat.add_sub_cancel_left 40 c.size
    simp only [hdrop, htake, hsub]

theorem even_front (h : Sized c src dst) : ∃ n, (c.pseudo src dst ++ c.front).length = 2 * n := by
  have hs := h.src_length
  have hd := h.dst_length
  unfold Call.pseudo Call.front
  cases hf : c.family <;> rw [hf] at hs hd <;> cases c.transport <;>
    simp [hs, hd, Family.addressLength, length_wordBytes, length_wordBytes32]
  exacts [⟨14, rfl⟩, ⟨9, rfl⟩, ⟨28, rfl⟩, ⟨23, rfl⟩]

theorem verifies_segment (h : Sized c src dst) :
    Verifies (pseudoHeader (c.packet src dst) c.transport.proto c.family ++
      (c.packet src dst).drop c.family.headerLength) := by
  obtain ⟨n, hn⟩ := even_front h
  have hdrop := drop_header h 0
  rw [Nat.add_zero, List.drop_zero] at hdrop
  rw [pseudoHeader_packet h, hdrop, Call.segment, ← List.append_assoc]
  exact verifies_fill hn _

theorem wordSum_wordBytes32 {n : Nat} (h : n < 65536) (s : Bytes) :
    wordSum (wordBytes32 (UInt32.ofNat n) ++ s) = n + wordSum s := by
  have hn : (UInt32.ofNat n).toNat = n := UInt32.toNat_ofNat_of_lt (Nat.lt_trans h (by decide))
  have hhi : n / 16777216 = 0 := by omega
  have hmid : n / 65536 % 256 = 0 := by omega
  have hval := word_value h
  have hmod : n / 256 % 256 = n / 256 := by omega
  simp only [wordBytes32, hn, hhi, hmid, hmod, List.cons_append, List.nil_append, wordSum, hval]
  simp

/-- The words under a UDP checksum. -/
theorem wordSum_udp (ht : c.transport = .udp) (h : Sized c src dst) :
    wordSum (c.pseudo src dst ++ c.front ++ (wordBytes 0 ++ c.back)) = udpSum c src dst := by
  have hsize : c.size = 8 + c.payload.length := by simp [Call.size, ht]
  have hs := h.src_length
  have hd := h.dst_length
  have hsrc := c.srcPort.toNat_lt
  have hdst := c.dstPort.toNat_lt
  have hlt := h.size_lt
  have hproto (s : Bytes) : wordSum ([0, 17] ++ s) = 17 + wordSum s := by simp [wordSum]
  have hnext (s : Bytes) : wordSum ([0, 0, 0, 17] ++ s) = 17 + wordSum s := by simp [wordSum]
  have hrest : wordSum (c.front ++ (wordBytes 0 ++ c.back)) =
      c.srcPort.toNat + (c.dstPort.toNat + (c.size + wordSum c.payload)) := by
    simp only [Call.front, Call.back, ht, List.append_assoc]
    rw [wordSum_wordBytes hsrc, wordSum_wordBytes hdst, wordSum_wordBytes (by omega),
      wordSum_wordBytes (by omega), ← hsize, Nat.zero_add]
  rw [List.append_assoc]
  unfold Call.pseudo udpSum
  cases hf : c.family with
  | v4 =>
    rw [hf] at hs hd
    simp only [ht, Transport.proto, List.append_assoc]
    rw [wordSum_append (n := 2) hs, wordSum_append (n := 2) hd, hproto, wordSum_wordBytes hlt, hrest]
    omega
  | v6 =>
    rw [hf] at hs hd
    simp only [ht, Transport.proto, List.append_assoc]
    rw [wordSum_append (n := 8) hs, wordSum_append (n := 8) hd, wordSum_wordBytes32 hlt, hnext, hrest]
    omega

theorem udp_checksum_ne_zero (ht : c.transport = .udp) (h : Sized c src dst) :
    num16 (c.packet src dst) (c.family.headerLength + 6) ≠ 0 ↔ ¬ 65535 ∣ udpSum c src dst := by
  have hvalue : num16 (c.packet src dst) (c.family.headerLength + 6) =
      checksum (c.pseudo src dst ++ c.front ++ (wordBytes 0 ++ c.back)) := by
    rw [num16_packet h, udp_segment_eq src dst ht]
    exact word_value (checksum_lt _)
  have hpos : 0 < udpSum c src dst := by
    unfold udpSum
    omega
  rw [hvalue, ne_eq, checksum_eq_zero_iff, wordSum_udp ht h, and_iff_right hpos]

/-! ## The builders -/

theorem correct_packet (hfits : Fits c src dst) (hsized : Sized c src dst) :
    Correct c src dst (c.packet src dst) := by
  obtain ⟨p, hp⟩ := exists_parsed hsized
  refine ⟨⟨p, hp.parse_eq, hp.version, hp.proto, hp.srcIP, hp.dstIP, hp.totalBytes, ?_⟩,
    fun hf => verifies_header hf hsized, verifies_segment hsized,
    fun ht => (udp_checksum_ne_zero ht hsized).mpr (hfits.sum ht)⟩
  cases ht : c.transport with
  | tcp seq ack flags window => exact carries_tcp ht hsized hp
  | udp => exact carries_udp ht hsized hp

theorem fits_of_meets (h : Admitted c src dst) (hmeets : Meets c src dst) : Fits c src dst := by
  obtain ⟨pkt, hbuild, hcorrect⟩ := hmeets
  have hlength : c.transport = .udp → c.family = .v4 → c.payload.length ≤ 65507 := by
    intro ht hf
    by_contra hlong
    rw [build_trap h ht hf (by omega)] at hbuild
    cases hbuild
  have hroom := room_of_length h hlength
  rw [build_eq h hroom] at hbuild
  obtain rfl := Option.some.inj (Except.ok.inj hbuild)
  exact ⟨hlength, fun ht =>
    (udp_checksum_ne_zero ht (sized_of_admitted h hroom)).mp (hcorrect.notZero ht)⟩

/-- **The builders.** -/
theorem correct_iff (h : Admitted c src dst) : Meets c src dst ↔ Fits c src dst := by
  refine ⟨fits_of_meets h, fun hfits => ?_⟩
  have hroom := room_of_length h hfits.length
  exact ⟨_, build_eq h hroom, correct_packet hfits (sized_of_admitted h hroom)⟩

end

/-- A reply of a name server at 10.0.0.1. -/
def replyOf (payload : Bytes) : Call where
  family := .v4
  transport := .udp
  srcIP := ascii "10.0.0.1"
  srcPort := 53
  dstIP := ascii "10.0.0.2"
  dstPort := 50000
  payload := payload

theorem admitted_replyOf (payload : Bytes) (h : payload.length ≤ 65527) :
    Admitted (replyOf payload) [10, 0, 0, 1] [10, 0, 0, 2] := by
  have htexts : Family.v4.pton (ascii "10.0.0.1") = some [10, 0, 0, 1] ∧
      Family.v4.pton (ascii "10.0.0.2") = some [10, 0, 0, 2] := by decide +kernel
  exact ⟨htexts.1, htexts.2, h⟩

theorem correct_reply : Meets (replyOf (ascii "abc")) [10, 0, 0, 1] [10, 0, 0, 2] :=
  (correct_iff (admitted_replyOf _ (by decide))).mpr ⟨fun _ _ => by decide, fun _ => by decide⟩

/-- **Two replies that pass the length check**: one has no room for the IPv4 header, the checksum
of the other is zero. -/
theorem replies_fail :
    (Admitted (replyOf (List.replicate 65508 0)) [10, 0, 0, 1] [10, 0, 0, 2] ∧
      (replyOf (List.replicate 65508 0)).build = .error .conversion ∧
      ¬ Meets (replyOf (List.replicate 65508 0)) [10, 0, 0, 1] [10, 0, 0, 2]) ∧
    Admitted (replyOf [0x28, 0x52]) [10, 0, 0, 1] [10, 0, 0, 2] ∧
      ¬ Meets (replyOf [0x28, 0x52]) [10, 0, 0, 1] [10, 0, 0, 2] := by
  have hlen : (List.replicate 65508 (0 : UInt8)).length = 65508 := List.length_replicate
  have hlong := admitted_replyOf (List.replicate 65508 0) (by rw [hlen]; omega)
  have hshort := admitted_replyOf [0x28, 0x52] (by decide)
  have hover : 65507 < (replyOf (List.replicate 65508 0)).payload.length :=
    Nat.lt_of_lt_of_eq (by omega) hlen.symm
  refine ⟨⟨hlong, build_trap hlong rfl rfl hover, fun hmeets => ?_⟩, hshort, fun hmeets => ?_⟩
  · exact absurd ((fits_of_meets hlong hmeets).length rfl rfl) (Nat.not_le_of_lt hover)
  · exact absurd (by decide) ((fits_of_meets hshort hmeets).sum rfl)

end TrafficMonitor.PacketRoundTrip
