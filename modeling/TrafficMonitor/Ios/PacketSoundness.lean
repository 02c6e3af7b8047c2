import TrafficMonitor.Ios.Packets

/-!
# What is parsed of a packet

A packet as the bytes have it: where its transport header is (`HeaderAt`), its total length, and
whether it is a fragment other than the first. `IPPacket.parse` and `parseTCP` against it.

Proved here, for all byte strings and address families:

* `sound_iff`: reads stay in the data, the transport header is where the options or the extension
  headers end, and payload ranges stay in data and packet, if and only if no UDP length reaches
  beyond the total length and no later fragment has data that pass for a transport header. The
  ranges of TCP need no condition.
-/

namespace TrafficMonitor.PacketSoundness

open Bytes Packets

/-! ## The packet as the bytes have it -/

/-- The transport header behind the IPv4 options or the IPv6 extension headers. -/
inductive HeaderAt (b : Bytes) : Int → UInt8 → Nat → Prop
  | v4 (h : IsIPv4 b) : HeaderAt b AF_INET (b.getD 9 0) (4 * (byte b 0 % 16))
  | v6 (h : IsIPv6 b) {last : UInt8 × Nat} (hend : ChainEnd b (b.getD 6 0, 40) last) :
      HeaderAt b AF_INET6 last.1 last.2

def totalLength (b : Bytes) (af : Int) : Nat := if af = AF_INET then num16 b 2 else 40 + num16 b 4

/-- The fragment offset is not zero. -/
inductive LaterFragment (b : Bytes) : Int → Prop
  | v4 (h : num16 b 6 % 8192 ≠ 0) : LaterFragment b AF_INET
  | v6 {off : Nat} (chain : Leads b (b.getD 6 0, 40) (44, off)) (data : off + 4 ≤ b.length)
      (h : num16 b (off + 2) / 8 ≠ 0) : LaterFragment b AF_INET6

/-! ## Soundness -/

/-- All indices of the range are below `n`. -/
def Within (r : Range) (n : Nat) : Prop := ∀ i, r.lowerBound ≤ i → i < r.upperBound → i < n

/-- Neither ports nor payload are reported. -/
structure Silent (b : Bytes) (p : IPPacket) : Prop where
  srcPort : p.srcPort = 0
  dstPort : p.dstPort = 0
  udp : p.udpPayloadRange.isEmpty = true
  tcp : p.parseTCP b = .ok none

structure SoundPacket (b : Bytes) (af : Int) (p : IPPacket) : Prop where
  offset : HeaderAt b af p.proto p.transportOffset
  udpRange : Within p.udpPayloadRange (min b.length (totalLength b af))
  /-- `parseTCP` reads in the data only. -/
  tcp : ∃ r, p.parseTCP b = .ok r
  tcpRange : ∀ h, p.parseTCP b = .ok (some h) → Within h.payloadRange (min b.length (totalLength b af))
  fragment : LaterFragment b af → Silent b p

def Sound (b : Bytes) (af : Int) : Prop :=
  ∃ r, parse b af = .ok r ∧ ∀ p ∈ r, SoundPacket b af p

/-- The end of the UDP datagram whose header is at `t`, as far as the data have it. -/
def udpEnd (b : Bytes) (t : Nat) : Nat := min (t + num16 b (t + 4)) b.length

structure Regular (b : Bytes) (af : Int) : Prop where
  /-- A UDP payload ends in the packet. -/
  udp : ∀ t, HeaderAt b af 17 t → t + 8 < udpEnd b t → udpEnd b t ≤ totalLength b af
  /-- The data of a later fragment do not pass for a UDP header with ports or a payload, -/
  fragmentUDP : LaterFragment b af → ∀ t, HeaderAt b af 17 t → t + 8 ≤ b.length →
    num16 b t = 0 ∧ num16 b (t + 2) = 0 ∧ udpEnd b t ≤ t + 8
  /-- or for a TCP header. -/
  fragmentTCP : LaterFragment b af → ∀ t, HeaderAt b af 6 t → ¬ IsTCP b t

/-! ## What is returned -/

section

variable {b : Bytes} {af : Int} {proto proto' : UInt8} {t t' : Nat} {p : IPPacket}

theorem headerAt_unique (h : HeaderAt b af proto t) (h' : HeaderAt b af proto' t') :
    proto = proto' ∧ t = t' := by
  have hne : AF_INET ≠ AF_INET6 := by decide
  generalize hf : af = f at h'
  cases h with
  | v4 h =>
    cases h' with
    | v4 h' => exact ⟨rfl, rfl⟩
    | v6 h' hend => exact absurd hf hne
  | v6 h hend =>
    cases h' with
    | v4 h' => exact absurd hf.symm hne
    | v6 h' hend' =>
      obtain rfl := chainEnd_unique hend hend'
      exact ⟨rfl, rfl⟩

/-- The fields of a parsed packet by its transport header. -/
structure ParsedAt (b : Bytes) (af : Int) (p : IPPacket) : Prop where
  header : HeaderAt b af p.proto p.transportOffset
  total : p.totalBytes = totalLength b af
  udp : (p.srcPort, p.dstPort, p.udpPayloadRange) =
    if p.proto = protoUDP ∧ p.transportOffset + 8 ≤ b.length then
      (UInt16.ofNat (num16 b p.transportOffset), UInt16.ofNat (num16 b (p.transportOffset + 2)),
        udpRange b p.transportOffset)
    else (0, 0, Range.empty)

theorem parse_cases (b : Bytes) (af : Int) :
    (parse b af = .ok none ∧ ∀ proto t, ¬ HeaderAt b af proto t) ∨
      ∃ p, parse b af = .ok (some p) ∧ ParsedAt b af p := by
  have hne : AF_INET6 ≠ AF_INET := by decide
  by_cases h4 : af = AF_INET
  · subst h4
    by_cases h : IsIPv4 b
    · exact .inr ⟨packet4 b, (if_pos rfl).trans (parseIPv4_eq h), .v4 h, rfl, rfl⟩
    · refine .inl ⟨(if_pos rfl).trans (parseIPv4_none h), fun proto t ht => ?_⟩
      generalize hf : AF_INET = f at ht
      cases ht with
      | v4 h' => exact h h'
      | v6 => exact hne hf.symm
  · by_cases h6 : af = AF_INET6
    · subst h6
      have hparse : parse b AF_INET6 = parseIPv6 b := rfl
      by_cases h : IsIPv6 b
      · obtain ⟨last, -, hend⟩ := walkIPv6ExtHeaders_spec b (b.getD 6 0) 40
        exact .inr ⟨packet6 b last, hparse.trans (parseIPv6_eq h hend), .v6 h hend, rfl, rfl⟩
      · refine .inl ⟨hparse.trans (parseIPv6_none h), fun proto t ht => ?_⟩
        generalize hf : AF_INET6 = f at ht
        cases ht with
        | v4 => exact hne hf
        | v6 h' => exact h h'
    · refine .inl ⟨(if_neg h4).trans (if_neg h6), fun proto t ht => ?_⟩
      cases ht with
      | v4 => exact h4 rfl
      | v6 => exact h6 rfl

/-! ## Ranges -/

theorem within_empty (n : Nat) : Within Range.empty n := fun i _ hi => absurd hi (Nat.not_lt_zero i)

theorem within_udpRange {n : Nat} :
    Within (udpRange b t) n ↔ (t + 8 < udpEnd b t → udpEnd b t ≤ n) := by
  by_cases h : t + 8 < udpEnd b t
  · have hrange : udpRange b t = ⟨t + 8, udpEnd b t, Nat.le_of_lt h⟩ := dif_pos h
    rw [hrange]
    constructor
    · intro hw _
      have := hw (udpEnd b t - 1) (by dsimp only; omega) (by dsimp only; omega)
      omega
    · intro hle i _ hi
      exact Nat.lt_of_lt_of_le hi (hle h)
  · have hrange : udpRange b t = Range.empty := dif_neg h
    rw [hrange]
    exact iff_of_true (within_empty n) fun h' => absurd h' h

theorem isEmpty_udpRange : (udpRange b t).isEmpty = true ↔ udpEnd b t ≤ t + 8 := by
  by_cases h : t + 8 < udpEnd b t
  · have hrange : udpRange b t = ⟨t + 8, udpEnd b t, Nat.le_of_lt h⟩ := dif_pos h
    rw [hrange]
    simp only [Range.isEmpty, decide_eq_true_eq]
    omega
  · have hrange : udpRange b t = Range.empty := dif_neg h
    rw [hrange]
    exact iff_of_true rfl (by omega)

/-- The TCP payload ends in data and packet, also where the total length is too small. -/
theorem within_tcpRange (h : IsTCP b t) (total : Nat) :
    Within (tcpHeader h total).payloadRange (min b.length total) := by
  intro i hlo hhi
  simp only [tcpHeader] at hlo hhi
  omega

/-! ## Both clauses -/

theorem udp_fields (hp : ParsedAt b af p) :
    (p.proto = 17 ∧ p.transportOffset + 8 ≤ b.length ∧
      p.srcPort = UInt16.ofNat (num16 b p.transportOffset) ∧
      p.dstPort = UInt16.ofNat (num16 b (p.transportOffset + 2)) ∧
      p.udpPayloadRange = udpRange b p.transportOffset) ∨
    ((p.proto = 17 → b.length < p.transportOffset + 8) ∧
      p.srcPort = 0 ∧ p.dstPort = 0 ∧ p.udpPayloadRange = Range.empty) := by
  have hudp := hp.udp
  by_cases h : p.proto = protoUDP ∧ p.transportOffset + 8 ≤ b.length
  · rw [if_pos h, Prod.mk.injEq, Prod.mk.injEq] at hudp
    exact .inl ⟨h.1, h.2, hudp⟩
  · rw [if_neg h, Prod.mk.injEq, Prod.mk.injEq] at hudp
    exact .inr ⟨fun hproto => by by_contra hlen; exact h ⟨hproto, by omega⟩, hudp⟩

theorem udp_within_iff (hp : ParsedAt b af p) :
    Within p.udpPayloadRange (min b.length (totalLength b af)) ↔
      ∀ t, HeaderAt b af 17 t → t + 8 < udpEnd b t → udpEnd b t ≤ totalLength b af := by
  have hend : ∀ t, udpEnd b t ≤ b.length := fun t => min_le_right _ _
  rcases udp_fields hp with ⟨hproto, -, -, -, hrange⟩ | ⟨hshort, -, -, hrange⟩
  · rw [hrange, within_udpRange]
    constructor
    · intro h t ht hlt
      obtain ⟨-, rfl⟩ := headerAt_unique hp.header ht
      exact le_trans (h hlt) (min_le_right _ _)
    · intro h hlt
      exact le_min (hend _) (h _ (hproto ▸ hp.header) hlt)
  · rw [hrange]
    refine iff_of_true (within_empty _) fun t ht hlt => ?_
    obtain ⟨hproto, rfl⟩ := headerAt_unique hp.header ht
    have := hshort hproto
    have := hend p.transportOffset
    omega

theorem ofNat_num16_eq_zero (b : Bytes) (i : Nat) : UInt16.ofNat (num16 b i) = 0 ↔ num16 b i = 0 := by
  rw [UInt16.ext_iff, toNat_num16]
  rfl

/-- The packet reports nothing if its data do not pass for a header of UDP or TCP. -/
theorem silent_iff (hp : ParsedAt b af p) : Silent b p ↔
    (∀ t, HeaderAt b af 17 t → t + 8 ≤ b.length →
      num16 b t = 0 ∧ num16 b (t + 2) = 0 ∧ udpEnd b t ≤ t + 8) ∧
    ∀ t, HeaderAt b af 6 t → ¬ IsTCP b t := by
  have htcp : p.parseTCP b = .ok none ↔ ∀ t, HeaderAt b af 6 t → ¬ IsTCP b t := by
    constructor
    · intro h t ht hfits
      obtain ⟨hproto, rfl⟩ := headerAt_unique hp.header ht
      rw [parseTCP_eq hproto hfits] at h
      cases h
    · exact fun h => parseTCP_none fun hproto => h _ (hproto ▸ hp.header)
  have hudp : (p.srcPort = 0 ∧ p.dstPort = 0 ∧ p.udpPayloadRange.isEmpty = true) ↔
      ∀ t, HeaderAt b af 17 t → t + 8 ≤ b.length →
        num16 b t = 0 ∧ num16 b (t + 2) = 0 ∧ udpEnd b t ≤ t + 8 := by
    rcases udp_fields hp with ⟨hproto, hlen, hsrc, hdst, hrange⟩ | ⟨hshort, hsrc, hdst, hrange⟩
    · rw [hsrc, hdst, hrange, ofNat_num16_eq_zero, ofNat_num16_eq_zero, isEmpty_udpRange]
      constructor
      · intro h t ht _
        obtain ⟨-, rfl⟩ := headerAt_unique hp.header ht
        exact h
      · exact fun h => h _ (hproto ▸ hp.header) hlen
    · rw [hsrc, hdst, hrange]
      refine iff_of_true ⟨rfl, rfl, rfl⟩ fun t ht hlen => ?_
      obtain ⟨hproto, rfl⟩ := headerAt_unique hp.header ht
      have := hshort hproto
      omega
  rw [← hudp, ← htcp]
  exact ⟨fun h => ⟨⟨h.srcPort, h.dstPort, h.udp⟩, h.tcp⟩, fun h => ⟨h.1.1, h.1.2.1, h.1.2.2, h.2⟩⟩

end

/-- **Soundness of parsing** -/
theorem sound_iff (b : Bytes) (af : Int) : Sound b af ↔ Regular b af := by
  rcases parse_cases b af with ⟨hparse, hnone⟩ | ⟨p, hparse, hp⟩
  · refine iff_of_true ⟨none, hparse, fun p hp => by cases hp⟩ ?_
    exact ⟨fun t ht => absurd ht (hnone _ t), fun _ t ht => absurd ht (hnone _ t),
      fun _ t ht => absurd ht (hnone _ t)⟩
  · constructor
    · rintro ⟨r, hr, hsound⟩
      rw [hparse] at hr
      obtain rfl := Except.ok.inj hr
      have hpacket := hsound p rfl
      exact ⟨(udp_within_iff hp).mp hpacket.udpRange,
        fun hfrag => ((silent_iff hp).mp (hpacket.fragment hfrag)).1,
        fun hfrag => ((silent_iff hp).mp (hpacket.fragment hfrag)).2⟩
    · intro hreg
      refine ⟨some p, hparse, ?_⟩
      rintro _ ⟨⟩
      refine ⟨hp.header, (udp_within_iff hp).mpr hreg.udp, ?_, ?_, fun hfrag =>
        (silent_iff hp).mpr ⟨hreg.fragmentUDP hfrag, hreg.fragmentTCP hfrag⟩⟩
      · by_cases htcp : p.proto = 6 ∧ IsTCP b p.transportOffset
        · exact ⟨_, parseTCP_eq htcp.1 htcp.2⟩
        · exact ⟨_, parseTCP_none fun hproto hfits => htcp ⟨hproto, hfits⟩⟩
      · intro h hh
        by_cases htcp : p.proto = 6 ∧ IsTCP b p.transportOffset
        · rw [parseTCP_eq htcp.1 htcp.2] at hh
          obtain rfl := Option.some.inj (Except.ok.inj hh)
          rw [← hp.total]
          exact within_tcpRange htcp.2 p.totalBytes
        · rw [parseTCP_none fun hproto hfits => htcp ⟨hproto, hfits⟩] at hh
          cases hh

/-! ## Failing packets -/

/-- The second fragment of a UDP datagram; its data begin with `"\0\x35\0\x35"`. -/
def secondFragment : Bytes :=
  [0x45, 0, 0, 28, 0, 7, 0, 1, 64, 17, 0, 0, 10, 0, 0, 1, 10, 0, 0, 2, 0, 53, 0, 53, 0, 8, 0, 0]

/-- A packet of 28 bytes with 4 more behind it, and a UDP length of 12. -/
def longDatagram : Bytes :=
  [0x45, 0, 0, 28, 0, 7, 0, 0, 64, 17, 0, 0, 10, 0, 0, 1, 10, 0, 0, 2, 0, 53, 0, 53, 0, 12, 0, 0] ++
    [1, 2, 3, 4]

/-- The second fragment of a TCP segment over IPv6. -/
def tcpFragment : Bytes :=
  [0x60, 0, 0, 0, 0, 28, 44, 64] ++ List.replicate 32 1 ++ [6, 0, 0, 8, 0, 0, 0, 7] ++
    List.replicate 12 0 ++ [0x50, 0x10] ++ List.replicate 6 0

/-- **A later fragment and a long datagram.** -/
theorem fragments_and_long_lengths :
    ¬ Sound secondFragment AF_INET ∧ ¬ Sound longDatagram AF_INET ∧ ¬ Sound tcpFragment AF_INET6 := by
  refine ⟨?_, ?_, ?_⟩
  · rintro ⟨r, hr, hsound⟩
    have hip : IsIPv4 secondFragment := ⟨by decide, by decide, by decide, by decide⟩
    have hparse : parse secondFragment AF_INET = .ok (some (packet4 secondFragment)) := parseIPv4_eq hip
    rw [hparse] at hr
    obtain rfl := Except.ok.inj hr
    have hsilent := (hsound _ rfl).fragment (.v4 (by decide))
    exact absurd hsilent.srcPort (by decide)
  · rintro ⟨r, hr, hsound⟩
    have hip : IsIPv4 longDatagram := ⟨by decide, by decide, by decide, by decide⟩
    have hparse : parse longDatagram AF_INET = .ok (some (packet4 longDatagram)) := parseIPv4_eq hip
    rw [hparse] at hr
    obtain rfl := Except.ok.inj hr
    have hwithin := (hsound _ rfl).udpRange 28 (by decide) (by decide)
    exact absurd hwithin (by decide)
  · rintro ⟨r, hr, hsound⟩
    have hip : IsIPv6 tcpFragment := ⟨by decide, by decide⟩
    have hend : ChainEnd tcpFragment (tcpFragment.getD 6 0, 40) (6, 48) :=
      ⟨.single (.fragment (by decide)), final_iff.mpr ⟨by decide, by decide⟩⟩
    have hparse : parse tcpFragment AF_INET6 = .ok (some (packet6 tcpFragment (6, 48))) :=
      parseIPv6_eq hip hend
    rw [hparse] at hr
    obtain rfl := Except.ok.inj hr
    have hsilent := (hsound _ rfl).fragment (.v6 .refl (by decide) (by decide))
    have htcp : IsTCP tcpFragment 48 := ⟨by decide, by decide, by decide⟩
    have := hsilent.tcp
    rw [parseTCP_eq rfl htcp] at this
    cases this

end TrafficMonitor.PacketSoundness
