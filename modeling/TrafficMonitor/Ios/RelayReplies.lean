import TrafficMonitor.Ios.PacketRoundTrip
import TrafficMonitor.Ios.TcpRelay
import TrafficMonitor.Ios.UdpForwarder

/-!
# Replies of the relays

The relays of the iOS client keep the addresses of a flow as texts, take them from a parsed packet,
and call a packet builder with them for every reply.

Proved here:

* `parseIPv6Address_iff`: the builders read back the text of an IPv6 address if it has no two
  neighbouring zero groups; otherwise the text has a `::`, which they do not read;
* `replies_injected_iff`: for all flows that a packet opens and all payloads that a relay receives
  at once, the reply is injected, with the addresses swapped, if and only if the flow's IPv6
  addresses are of that kind and a UDP payload leaves room for the headers.
-/

namespace TrafficMonitor.RelayReplies

open Bytes AddressText SwiftText Packets PacketBuilders PacketRoundTrip
open Dissect (inet_ntop4 inet_ntop6 words hexWord)

/-! ## The relays -/

/-- What `sendToClient` writes into `packetFlow`, if a packet is built. -/
def sendToClient (m : TcpRelay.Packet) : Except Trap (Option (Bytes × Int)) := do
  if m.key.dstIP.contains COLON then
    let pkt ← buildTCPv6Packet m.key.dstIP m.key.dstPort m.key.srcIP m.key.srcPort m.seq m.ack m.flags
      65535 m.payload
    return pkt.map fun pkt => (pkt, AF_INET6)
  else
    let pkt ← buildTCPv4Packet m.key.dstIP m.key.dstPort m.key.srcIP m.key.srcPort m.seq m.ack m.flags
      65535 m.payload
    return pkt.map fun pkt => (pkt, AF_INET)

/-- The callback of `receiveLoop`, on the data that it was given. -/
def sendReply (key : UdpForwarder.FlowKey) (data : Bytes) : Except Trap (Option (Bytes × Int)) := do
  if key.dstIP.contains COLON then
    let reply ← buildIPv6UDPReply key.dstIP key.dstPort key.srcIP key.srcPort data
    return reply.map fun reply => (reply, AF_INET6)
  else
    let reply ← buildIPv4UDPReply key.dstIP key.dstPort key.srcIP key.srcPort data
    return reply.map fun reply => (reply, AF_INET)

/-- The TCP flow that a packet opens: its header is a SYN without ACK and RST. -/
def OpensTCP (data : Bytes) (af : Int) (key : TcpRelay.FlowKey) : Prop :=
  ∃ p h, parse data af = .ok (some p) ∧ p.parseTCP data = .ok (some h) ∧
    h.flags &&& 0x04 = 0 ∧ h.flags &&& 0x02 ≠ 0 ∧ h.flags &&& 0x10 = 0 ∧
      key = ⟨p.srcIP, h.srcPort, p.dstIP, h.dstPort⟩

/-- The UDP flow that a packet opens. -/
def OpensUDP (data : Bytes) (af : Int) (key : UdpForwarder.FlowKey) : Prop :=
  ∃ p payload, parse data af = .ok (some p) ∧ p.udpPayload data = some payload ∧
    key = ⟨p.srcIP, p.srcPort, p.dstIP, p.dstPort⟩

/-- A packet was injected, and it is parsed with the addresses of the flow swapped. -/
def Injected (sent : Except Trap (Option (Bytes × Int))) (srcIP dstIP : Bytes) : Prop :=
  ∃ pkt af p, sent = .ok (some (pkt, af)) ∧ parse pkt af = .ok (some p) ∧
    p.srcIP = dstIP ∧ p.dstIP = srcIP

/-- The bytes of the addresses in a packet. -/
def addresses (data : Bytes) (af : Int) : Bytes × Bytes :=
  if af = AF_INET then ((data.drop 12).take 4, (data.drop 16).take 4)
  else ((data.drop 8).take 16, (data.drop 24).take 16)

/-- No two neighbouring groups of an IPv6 address are zero. -/
def Plain (af : Int) (addrs : Bytes × Bytes) : Prop :=
  af = AF_INET6 → hasGap (words addrs.1) = false ∧ hasGap (words addrs.2) = false

/-- What one `receive` of a relay gives at most. -/
def tcpMaximumLength : Nat := 65495
def udpMaximumLength : Nat := 65535

/-- The largest UDP payload. -/
def udpRoom (af : Int) : Nat := if af = AF_INET then 65507 else 65527

/-! ## Texts of addresses -/

theorem dottedParts_inet_ntop4 {a : Bytes} (h : a.length = 4) : dottedParts (inet_ntop4 a) = a := by
  obtain ⟨a, b, c, d, rfl⟩ := exists_octets h
  simp [dottedParts, split_inet_ntop4, uint8_decimal]

theorem colon_not_mem_hexWord (w : Nat) : COLON ∉ hexWord w := fun h =>
  absurd (hexDigitValue_of_mem h) (by decide)

theorem parts_joined {ws : List Nat} (h : ws ≠ []) :
    Lines.parts COLON (Dissect.groups ws) = ws.map hexWord := by
  induction ws with
  | nil => exact absurd rfl h
  | cons w ws ih =>
    cases ws with
    | nil => simp [joined_singleton, Lines.parts, Lines.split_of_not_mem _ _ (colon_not_mem_hexWord w)]
    | cons v ws =>
      have hrest := ih (by simp)
      rw [joined_cons]
      simp only [Lines.parts, Lines.split_line_append _ _ _ (colon_not_mem_hexWord w)] at hrest ⊢
      rw [List.cons_append, hrest]
      rfl

theorem groupBytes_map {ws : List Nat} (h : ∀ w ∈ ws, w < 65536) :
    groupBytes (ws.map hexWord) = some (bytesOf ws) := by
  induction ws with
  | nil => rfl
  | cons w ws ih =>
    have hrest := ih fun v hv => h v (by simp [hv])
    simp only [List.map_cons, groupBytes, uint16_hexWord (h w (by simp)), hrest]
    rfl

theorem groupBytes_nil_mem {groups : List Bytes} (h : [] ∈ groups) : groupBytes groups = none := by
  induction groups with
  | nil => cases h
  | cons g groups ih =>
    cases hg : uint16 g with
    | none => simp [groupBytes, hg]
    | some val =>
      have hne : g ≠ [] := by
        rintro rfl
        cases hg
      have hmem : [] ∈ groups := by simpa [Ne.symm hne] using h
      simp [groupBytes, hg, ih hmem]

/-- There is an empty piece between the colons of `::`. -/
theorem nil_mem_parts (s t : Bytes) : [] ∈ (Lines.parts COLON (s ++ COLON :: COLON :: t)).tail := by
  induction s with
  | nil => simp
  | cons x s ih =>
    by_cases hx : x = COLON
    · subst hx
      rw [List.cons_append, Lines.parts_sep]
      exact List.mem_of_mem_tail ih
    · obtain ⟨l, ls, hl⟩ := List.exists_cons_of_ne_nil
        (Lines.parts_ne_nil COLON (s ++ COLON :: COLON :: t))
      rw [List.cons_append, Lines.parts_cons hx hl]
      rw [hl] at ih
      exact ih

theorem parseIPv6Address_full {a : Bytes} (h : a.length = 16) (hgap : hasGap (words a) = false) :
    parseIPv6Address (inet_ntop6 a) = some a := by
  obtain ⟨hbytes, hlen, hlt⟩ := words_spec (n := 8) h
  have hne : words a ≠ [] := fun e => by simp [e] at hlen
  have hparts := parts_joined hne
  have height : (Lines.parts COLON (inet_ntop6 a)).length = 8 := by
    rw [inet_ntop6_full hgap, hparts, List.length_map, hlen]
  rw [parseIPv6Address, if_pos height, inet_ntop6_full hgap, hparts, groupBytes_map hlt, hbytes]

theorem parseIPv6Address_short {a : Bytes} (hgap : hasGap (words a) = true) :
    parseIPv6Address (inet_ntop6 a) = none := by
  obtain ⟨s, t, htext⟩ := inet_ntop6_short hgap
  have hmem := List.mem_of_mem_tail (nil_mem_parts s t)
  simp only [parseIPv6Address, htext, groupBytes_nil_mem hmem, ite_self]

/-- **Reading an address back.** -/
theorem parseIPv6Address_iff {a : Bytes} (h : a.length = 16) :
    parseIPv6Address (inet_ntop6 a) = some a ↔ hasGap (words a) = false := by
  cases hgap : hasGap (words a) with
  | false => exact iff_of_true (parseIPv6Address_full h hgap) rfl
  | true =>
    rw [parseIPv6Address_short hgap]
    simp

/-! ## Replies -/

/-- The builders read the text of the address. -/
def Reads (f : Family) (a : Bytes) : Prop := f = .v6 → hasGap (words a) = false

theorem pton_ntop {f : Family} {a : Bytes} (h : a.length = f.addressLength) (hreads : Reads f a) :
    f.pton (f.ntop a) = some a := by
  cases f with
  | v4 => exact pton_v4.mpr ⟨dottedParts_inet_ntop4 h, h⟩
  | v6 => exact parseIPv6Address_full h (hreads rfl)

theorem reads_of_pton {f : Family} {a b : Bytes} (h : f.pton (f.ntop a) = some b) : Reads f a := by
  rintro rfl
  cases hgap : hasGap (words a) with
  | false => rfl
  | true =>
    have hnone : Family.v6.pton (Family.v6.ntop a) = none := parseIPv6Address_short hgap
    rw [hnone] at h
    cases h

/-- What a relay writes for a call of a builder. -/
def injection (c : Call) : Except Trap (Option (Bytes × Int)) := do
  let pkt ← c.build
  return pkt.map fun pkt => (pkt, c.family.af)

/-- **A reply**, for the texts of two addresses. -/
theorem injected_iff {c : Call} {a b : Bytes} (ha : a.length = c.family.addressLength)
    (hb : b.length = c.family.addressLength) (hsrc : c.srcIP = c.family.ntop a)
    (hdst : c.dstIP = c.family.ntop b) : Injected (injection c) c.dstIP c.srcIP ↔
      (Reads c.family a ∧ Reads c.family b) ∧ c.payload.length ≤ c.transport.limit ∧
        (c.transport = .udp → c.family = .v4 → c.payload.length ≤ 65507) := by
  constructor
  · rintro ⟨pkt, af, p, hsent, -⟩
    obtain ⟨built, hbuild⟩ : ∃ built, c.build = .ok (some built) := by
      unfold injection at hsent
      cases hb : c.build with
      | error e =>
        rw [hb] at hsent
        cases hsent
      | ok r =>
        cases r with
        | none =>
          rw [hb] at hsent
          cases hsent
        | some built => exact ⟨built, rfl⟩
    obtain ⟨src, dst, hadm⟩ := admitted_of_build hbuild
    have hreadsrc := hadm.src_eq
    have hreaddst := hadm.dst_eq
    rw [hsrc] at hreadsrc
    rw [hdst] at hreaddst
    refine ⟨⟨reads_of_pton hreadsrc, reads_of_pton hreaddst⟩, hadm.limit, fun ht hf => ?_⟩
    by_contra hlong
    rw [build_trap hadm ht hf (by omega)] at hbuild
    cases hbuild
  · rintro ⟨⟨hra, hrb⟩, hlimit, hlength⟩
    have hadm : Admitted c a b :=
      ⟨by rw [hsrc]; exact pton_ntop ha hra, by rw [hdst]; exact pton_ntop hb hrb, hlimit⟩
    have hroom := room_of_length hadm hlength
    obtain ⟨p, hp⟩ := exists_parsed (sized_of_admitted hadm hroom)
    refine ⟨c.packet a b, c.family.af, p, ?_, hp.parse_eq, hp.srcIP.trans hsrc.symm,
      hp.dstIP.trans hdst.symm⟩
    rw [injection, build_eq hadm hroom]
    rfl

/-- A flow has the texts of the addresses in the packet. -/
theorem texts_of_parse {data : Bytes} {af : Int} {p : IPPacket} (h : parse data af = .ok (some p)) :
    ∃ f : Family, f.af = af ∧ (addresses data af).1.length = f.addressLength ∧
      (addresses data af).2.length = f.addressLength ∧
      p.srcIP = f.ntop (addresses data af).1 ∧ p.dstIP = f.ntop (addresses data af).2 := by
  by_cases h4 : af = AF_INET
  · subst h4
    have hparse : parseIPv4 data = .ok (some p) := h
    by_cases hip : IsIPv4 data
    · rw [parseIPv4_eq hip] at hparse
      obtain rfl := Option.some.inj (Except.ok.inj hparse)
      have hsize := hip.header
      have hdst : ((data.drop 16).take 4).length = 4 := by simp; omega
      have hsrc : ((data.drop 12).take 4).length = 4 := by simp; omega
      exact ⟨.v4, rfl, hsrc, hdst, rfl, rfl⟩
    · rw [parseIPv4_none hip] at hparse
      cases hparse
  · rw [parse, if_neg h4] at h
    split at h
    next h6 =>
      subst h6
      by_cases hip : IsIPv6 data
      · obtain ⟨last, -, hend⟩ := walkIPv6ExtHeaders_spec data (data.getD 6 0) 40
        rw [parseIPv6_eq hip hend] at h
        obtain rfl := Option.some.inj (Except.ok.inj h)
        have hsize := hip.header
        have hsrc : ((data.drop 8).take 16).length = 16 := by simp; omega
        have hdst : ((data.drop 24).take 16).length = 16 := by simp; omega
        exact ⟨.v6, rfl, hsrc, hdst, rfl, rfl⟩
      · rw [parseIPv6_none hip] at h
        cases h
    · cases h

theorem contains_colon {f : Family} {a : Bytes} (h : a.length = f.addressLength) :
    (f.ntop a).contains COLON = decide (f = .v6) := by
  cases f with
  | v4 => simpa [Family.ntop] using Dissect.colon_notMem_ntop4 a
  | v6 => simpa [Family.ntop] using Dissect.colon_mem_ntop6 h

/-- The call that `sendToClient` makes. -/
def tcpCall (f : Family) (m : TcpRelay.Packet) : Call where
  family := f
  transport := .tcp m.seq m.ack m.flags 65535
  srcIP := m.key.dstIP
  srcPort := m.key.dstPort
  dstIP := m.key.srcIP
  dstPort := m.key.srcPort
  payload := m.payload

/-- The call that `receiveLoop` makes. -/
def udpCall (f : Family) (key : UdpForwarder.FlowKey) (data : Bytes) : Call where
  family := f
  transport := .udp
  srcIP := key.dstIP
  srcPort := key.dstPort
  dstIP := key.srcIP
  dstPort := key.srcPort
  payload := data

theorem sendToClient_eq {f : Family} {m : TcpRelay.Packet} {a : Bytes} (h : a.length = f.addressLength)
    (hdst : m.key.dstIP = f.ntop a) : sendToClient m = injection (tcpCall f m) := by
  rw [sendToClient, hdst, contains_colon h, ← hdst]
  cases f <;> rfl

theorem sendReply_eq {f : Family} {key : UdpForwarder.FlowKey} {a : Bytes}
    (h : a.length = f.addressLength) (hdst : key.dstIP = f.ntop a) (data : Bytes) :
    sendReply key data = injection (udpCall f key data) := by
  rw [sendReply, hdst, contains_colon h, ← hdst]
  cases f <;> rfl

theorem plain_iff {f : Family} {addrs : Bytes × Bytes} :
    Plain f.af addrs ↔ Reads f addrs.2 ∧ Reads f addrs.1 := by
  cases f with
  | v4 =>
    have hne : Family.v4.af ≠ AF_INET6 := by decide
    simp [Plain, Reads, hne]
  | v6 => simp [Plain, Reads, Family.af, and_comm]

theorem tcp_reply_iff {data : Bytes} {af : Int} {m : TcpRelay.Packet} (hopen : OpensTCP data af m.key)
    (hlen : m.payload.length ≤ tcpMaximumLength) :
    Injected (sendToClient m) m.key.srcIP m.key.dstIP ↔ Plain af (addresses data af) := by
  obtain ⟨p, h, hparse, -, -, -, -, hkey⟩ := hopen
  obtain ⟨f, rfl, hsrclen, hdstlen, hsrc, hdst⟩ := texts_of_parse hparse
  have hsrc : m.key.srcIP = f.ntop (addresses data f.af).1 := by rw [hkey, hsrc]
  have hdst : m.key.dstIP = f.ntop (addresses data f.af).2 := by rw [hkey, hdst]
  have hiff := injected_iff (c := tcpCall f m) hdstlen hsrclen hdst hsrc
  rw [sendToClient_eq hdstlen hdst, plain_iff]
  refine hiff.trans (and_iff_left ⟨hlen, fun ht => ?_⟩)
  cases ht

theorem udp_reply_iff {data : Bytes} {af : Int} {key : UdpForwarder.FlowKey} {payload : Bytes}
    (hopen : OpensUDP data af key) : Injected (sendReply key payload) key.srcIP key.dstIP ↔
      Plain af (addresses data af) ∧ payload.length ≤ udpRoom af := by
  obtain ⟨p, carried, hparse, -, hkey⟩ := hopen
  obtain ⟨f, rfl, hsrclen, hdstlen, hsrc, hdst⟩ := texts_of_parse hparse
  have hsrc : key.srcIP = f.ntop (addresses data f.af).1 := by rw [hkey, hsrc]
  have hdst : key.dstIP = f.ntop (addresses data f.af).2 := by rw [hkey, hdst]
  have hiff := injected_iff (c := udpCall f key payload) hdstlen hsrclen hdst hsrc
  rw [sendReply_eq hdstlen hdst, plain_iff]
  refine hiff.trans (and_congr_right fun _ => ?_)
  cases f with
  | v4 =>
    have hroom : udpRoom Family.v4.af = 65507 := rfl
    simp only [udpCall, Transport.limit, hroom, forall_const]
    omega
  | v6 =>
    have hroom : udpRoom Family.v6.af = 65527 := rfl
    simp [udpCall, Transport.limit, hroom]

/-- **Replies are injected** for flows with plain addresses and payloads that leave room, and no
others. -/
theorem replies_injected_iff (data : Bytes) (af : Int) :
    (∀ m : TcpRelay.Packet, OpensTCP data af m.key → m.payload.length ≤ tcpMaximumLength →
      (Injected (sendToClient m) m.key.srcIP m.key.dstIP ↔ Plain af (addresses data af))) ∧
    (∀ key payload, OpensUDP data af key → payload ≠ [] → payload.length ≤ udpMaximumLength →
      (Injected (sendReply key payload) key.srcIP key.dstIP ↔
        Plain af (addresses data af) ∧ payload.length ≤ udpRoom af)) ∧
    ∀ a : Bytes, a.length = 16 →
      (parseIPv6Address (inet_ntop6 a) = some a ↔ hasGap (words a) = false) :=
  ⟨fun _ hopen hlen => tcp_reply_iff hopen hlen, fun _ _ hopen _ _ => udp_reply_iff hopen,
    fun _ h => parseIPv6Address_iff h⟩

/-! ## Flows -/

/-- The TCP header of a SYN from port 50000 to port 443. -/
def synHeader : Bytes :=
  [0xc3, 0x50, 0x01, 0xbb, 0, 0, 0, 1, 0, 0, 0, 0, 0x50, 0x02, 0xff, 0xff, 0, 0, 0, 0]

def synPacket (src dst : Bytes) : Bytes := [0x60, 0, 0, 0, 0, 20, 6, 64] ++ (src ++ dst) ++ synHeader

/-- 2001:db8:1:2:3:4:5:`n` -/
def fullAddress (n : UInt8) : Bytes := [0x20, 0x01, 0x0d, 0xb8, 0, 1, 0, 2, 0, 3, 0, 4, 0, 5, 0, n]

/-- 2001:db8::`n` -/
def shortAddress (n : UInt8) : Bytes := [0x20, 0x01, 0x0d, 0xb8, 0, 0, 0, 0, 0, 0, 0, 0, 0, 0, 0, n]

/-- A packet towards the client of that flow. -/
def answerTo (src dst : Bytes) : TcpRelay.Packet where
  key := ⟨inet_ntop6 src, 50000, inet_ntop6 dst, 443⟩
  seq := 7
  ack := 2
  flags := 0x12

theorem addresses_syn {src dst : Bytes} (hs : src.length = 16) (hd : dst.length = 16) :
    addresses (synPacket src dst) AF_INET6 = (src, dst) := by
  have hdrop : (synPacket src dst).drop 8 = src ++ (dst ++ synHeader) := by simp [synPacket]
  have hdrop' : (synPacket src dst).drop 24 = dst ++ synHeader := by
    have h24 : (synPacket src dst).drop 24 = ((synPacket src dst).drop 8).drop 16 := by
      rw [List.drop_drop]
    rw [h24, hdrop]
    exact List.drop_left' hs
  have hne : AF_INET6 ≠ AF_INET := by decide
  rw [addresses, if_neg hne, hdrop, hdrop', List.take_left' hs, List.take_left' hd]

theorem opens_syn (src dst : Bytes) (hs : src.length = 16) (hd : dst.length = 16) :
    OpensTCP (synPacket src dst) AF_INET6 (answerTo src dst).key := by
  have hsize : (synPacket src dst).length = 60 := by simp [synPacket, synHeader, hs, hd]
  have hfirst : byte (synPacket src dst) 0 = 96 := rfl
  have hip : IsIPv6 (synPacket src dst) := ⟨by omega, by omega⟩
  have hend : ChainEnd (synPacket src dst) ((synPacket src dst).getD 6 0, 40) (6, 40) :=
    ⟨.refl, final_iff.mpr ⟨fun h => absurd h (by decide), fun h => absurd h (by decide)⟩⟩
  have hbyte (k : Nat) : (synPacket src dst).getD (40 + k) 0 = synHeader.getD k 0 := by
    have hlen : ([0x60, 0, 0, 0, 0, 20, 6, 64] ++ (src ++ dst)).length = 40 := by simp [hs, hd]
    rw [List.getD_eq_getElem?_getD, synPacket, List.getElem?_append_right (by omega), hlen,
      Nat.add_sub_cancel_left, ← List.getD_eq_getElem?_getD]
  have htcp : IsTCP (synPacket src dst) 40 := by
    have hoff : byte (synPacket src dst) (40 + 12) = 80 := congrArg UInt8.toNat (hbyte 12)
    exact ⟨by omega, by omega, by omega⟩
  have hport : num16 (synPacket src dst) 40 = 50000 ∧ num16 (synPacket src dst) (40 + 2) = 443 := by
    have h0 := hbyte 0
    have h1 := hbyte 1
    have h2 := hbyte 2
    have h3 := hbyte 3
    rw [Nat.add_zero] at h0
    simp only [num16, byte, h0, h1, h2, h3, Nat.add_assoc]
    exact ⟨rfl, rfl⟩
  have hflags : (synPacket src dst).getD (40 + 13) 0 = 2 := hbyte 13
  have hsrc : ((synPacket src dst).drop 8).take 16 = src := congrArg Prod.fst (addresses_syn hs hd)
  have hdst : ((synPacket src dst).drop 24).take 16 = dst := congrArg Prod.snd (addresses_syn hs hd)
  refine ⟨packet6 (synPacket src dst) (6, 40), _, parseIPv6_eq hip hend, parseTCP_eq rfl htcp, ?_, ?_, ?_, ?_⟩
  · exact congrArg (· &&& 0x04) hflags
  · intro h
    exact absurd ((congrArg (· &&& 0x02) hflags).symm.trans h) (by decide)
  · exact congrArg (· &&& 0x10) hflags
  · simp only [tcpHeader, packet6, hsrc, hdst, hport.1, hport.2, answerTo]
    rfl

/-- One byte from 10.0.0.2, port 50000, to port 53 of 10.0.0.1. -/
def askPacket : Bytes :=
  [0x45, 0, 0, 29, 0, 0, 0x40, 0, 64, 17, 0, 0, 10, 0, 0, 2, 10, 0, 0, 1, 0xc3, 0x50, 0, 53, 0, 9, 0, 0, 7]

def askKey : UdpForwarder.FlowKey := ⟨ascii "10.0.0.2", 50000, ascii "10.0.0.1", 53⟩

theorem opens_ask : OpensUDP askPacket AF_INET askKey := by
  have hip : IsIPv4 askPacket := ⟨by decide, by decide, by decide, by decide⟩
  have hparse : parse askPacket AF_INET = .ok (some (packet4 askPacket)) := parseIPv4_eq hip
  exact ⟨packet4 askPacket, [7], hparse, by decide, by decide +kernel⟩

/-- **Replies that are lost**: to 2001:db8::1 from 2001:db8::2, whose texts the builders do not
read, and of 65508 bytes over IPv4. -/
theorem replies_lost :
    (OpensTCP (synPacket (shortAddress 1) (shortAddress 2)) AF_INET6
        (answerTo (shortAddress 1) (shortAddress 2)).key ∧
      ¬ Injected (sendToClient (answerTo (shortAddress 1) (shortAddress 2)))
        (inet_ntop6 (shortAddress 1)) (inet_ntop6 (shortAddress 2))) ∧
    parseIPv6Address (inet_ntop6 (shortAddress 1)) = none ∧
    OpensUDP askPacket AF_INET askKey ∧
      ¬ Injected (sendReply askKey (List.replicate 65508 0)) askKey.srcIP askKey.dstIP := by
  have hopen := opens_syn (shortAddress 1) (shortAddress 2) rfl rfl
  refine ⟨⟨hopen, fun hin => ?_⟩, parseIPv6Address_short (by decide), opens_ask, fun hin => ?_⟩
  · have hplain := (tcp_reply_iff hopen (by decide)).mp hin
    rw [addresses_syn rfl rfl] at hplain
    exact absurd (hplain rfl).1 (by decide)
  · have hroom := ((udp_reply_iff opens_ask).mp hin).2
    rw [List.length_replicate] at hroom
    exact absurd hroom (by decide)

/-- Flows between full addresses are answered, and a short reply over IPv4 arrives. -/
theorem full_addresses_answered :
    Injected (sendToClient (answerTo (fullAddress 6) (fullAddress 7))) (inet_ntop6 (fullAddress 6))
        (inet_ntop6 (fullAddress 7)) ∧
      Injected (sendReply askKey [1, 2, 3]) askKey.srcIP askKey.dstIP ∧
      parseIPv6Address (inet_ntop6 (fullAddress 6)) = some (fullAddress 6) := by
  refine ⟨((replies_injected_iff _ _).1 _ (opens_syn _ _ rfl rfl) (by decide)).mpr fun _ => ?_,
    ((replies_injected_iff _ _).2.1 _ _ opens_ask (by decide) (by decide)).mpr ⟨?_, by decide⟩,
    ((replies_injected_iff [] 0).2.2 _ rfl).mpr (by decide)⟩
  · rw [addresses_syn rfl rfl]
    decide
  · exact fun h => absurd h (by decide)

end TrafficMonitor.RelayReplies
