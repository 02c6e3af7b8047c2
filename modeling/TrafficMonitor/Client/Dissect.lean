import TrafficMonitor.Basic.Bytes
import TrafficMonitor.Protocol

/-!
# Dissecting a captured frame

`PacketSniffer::handlePacket` finds the IP header of a frame behind its link header and hands a
flow to `accumulateFlow`. A read beyond the captured bytes is an outcome of its own. Beside the code
stand the published layouts of the link headers (`published`), and what a frame should give by its
layout (`expected`). The frames of both cooked link types go through one branch of the code.

Proved here:

* `handlePacket_dissects`: the code dissects by the layout that it uses (`used`), and never reads
  beyond the captured bytes;
* `dissected_iff`: it gives what is expected, except for the frames of `DLT_LINUX_SLL2` whose bytes
  differ in what the two cooked layouts see;
* `sll2_lost`: such frames.
-/

namespace TrafficMonitor.Dissect

open Bytes

/-! ## Texts of addresses -/

def DOT : UInt8 := 46

/-- `inet_ntop(AF_INET, ..)`; the buffer of the code holds every text. -/
def inet_ntop4 (a : Bytes) : Bytes := [DOT].intercalate (a.map fun b => decimal b.toNat)

/-- The eight groups of an IPv6 address. -/
def words : Bytes → List Nat
  | a :: b :: rest => (a.toNat * 256 + b.toNat) :: words rest
  | _ => []

/-- `"%x"` of a group. -/
def hexWord (n : Nat) : Bytes := (Nat.toDigits 16 n).map fun c => UInt8.ofNat c.toNat

/-- The length of the run of zero groups at the start. -/
def zeroRun (ws : List Nat) : Nat := (ws.takeWhile (· = 0)).length

/-- The start and the length of the first longest run of zero groups, from the group `i` on. -/
def longestRun : Nat → List Nat → Nat × Nat
  | _, [] => (0, 0)
  | i, w :: ws =>
    let later := longestRun (i + 1) ws
    if zeroRun (w :: ws) ≥ later.2 ∧ zeroRun (w :: ws) > 0 then (i, zeroRun (w :: ws)) else later

def groups (ws : List Nat) : Bytes := [COLON].intercalate (ws.map hexWord)

/-- `inet_ntop(AF_INET6, ..)`: a run of two or more zero groups becomes `::`, and an address that
ends with an embedded IPv4 address shows it so. -/
def inet_ntop6 (a : Bytes) : Bytes :=
  let ws := words a
  let (base, len) := longestRun 0 ws
  if len < 2 then groups ws
  else if base = 0 ∧ (len = 6 ∨ (len = 5 ∧ ws[5]? = some 0xffff)) then
    ascii "::" ++ (if len = 5 then ascii "ffff:" else []) ++ inet_ntop4 (a.drop 12)
  else groups (ws.take base) ++ ascii "::" ++ groups (ws.drop (base + len))

example : inet_ntop6 [254, 128, 0, 0, 0, 0, 0, 0, 0, 0, 0, 1, 10, 0, 0, 7] =
    ascii "fe80::1:a00:7" := by decide +kernel

/-! ## Frames -/

inductive LinkType
  | EN10MB
  | LINUX_SLL
  | LINUX_SLL2
  | other (dlt : Nat)
  deriving DecidableEq

/-- `caplen` captured bytes of a frame that has `len` bytes on the wire. -/
structure Frame where
  packet : Bytes
  len : Nat

def Frame.caplen (f : Frame) : Nat := f.packet.length

inductive Stop
  | returned
  | outOfBounds
  deriving DecidableEq

/-- `packet[i]` -/
def byteAt (f : Frame) (i : Nat) : Except Stop UInt8 :=
  match f.packet[i]? with
  | some b => .ok b
  | none => .error .outOfBounds

/-- The `n` bytes from `i` on, that `inet_ntop` reads. -/
def bytesAt (f : Frame) (i n : Nat) : Except Stop Bytes :=
  if i + n ≤ f.caplen then .ok ((f.packet.drop i).take n) else .error .outOfBounds

/-- `(packet[i] << 8) | packet[i + 1]` -/
def word16 (f : Frame) (i : Nat) : Except Stop Nat := do
  let a ← byteAt f i
  let b ← byteAt f (i + 1)
  return a.toNat * 256 + b.toNat

inductive Version
  | v4
  | v6
  deriving DecidableEq

/-- `sizeof(ipv4_header)`, `sizeof(ipv6_header)` -/
def Version.size : Version → Nat
  | .v4 => 20
  | .v6 => 40

/-- The offsets of `src_addr` and `dst_addr`, and the length of an address. -/
def Version.src : Version → Nat
  | .v4 => 12
  | .v6 => 8

def Version.dst : Version → Nat
  | .v4 => 16
  | .v6 => 24

def Version.addrLen : Version → Nat
  | .v4 => 4
  | .v6 => 16

def Version.ntop : Version → Bytes → Bytes
  | .v4 => inet_ntop4
  | .v6 => inet_ntop6

/-- The protocol of the link header: 0x0800, 0x86DD. -/
def versionOf (proto : Nat) : Option Version :=
  if proto = 0x0800 then some .v4 else if proto = 0x86DD then some .v6 else none

/-! ## The code -/

/-- A branch of the `switch`: the version, and the offset of the IP header. -/
def linkHeader (f : Frame) (size protoOff : Nat) : Except Stop (Version × Nat) :=
  if f.caplen < size then .error .returned
  else do
    let proto ← word16 f protoOff
    match versionOf proto with
    | some v => return (v, size)
    | none => .error .returned

/-- `switch (linkType_)`, with the cases of Linux. -/
def layer3 (linkType : LinkType) (f : Frame) : Except Stop (Version × Nat) :=
  match linkType with
  | .EN10MB => linkHeader f 14 12
  | .LINUX_SLL | .LINUX_SLL2 => linkHeader f 16 14
  | .other _ => .error .returned

/-- `handlePacket` of a sniffer that runs; the flow goes to `accumulateFlow`. -/
def handlePacket (linkType : LinkType) (label : Bytes) (f : Frame) : Except Stop PacketMeta := do
  let (v, l3Off) ← layer3 linkType f
  if f.caplen < l3Off + v.size then .error .returned
  else
    let src ← bytesAt f (l3Off + v.src) v.addrLen
    let dst ← bytesAt f (l3Off + v.dst) v.addrLen
    return { iface := label, srcIp := v.ntop src, dstIp := v.ntop dst, bytes := f.len }

/-! ## Layouts -/

/-- The length of a link header and the offset of its protocol, two bytes in network order. -/
structure Layout where
  size : Nat
  protoOff : Nat
  inside : protoOff + 2 ≤ size

def ethernet : Layout := ⟨14, 12, by decide⟩

/-- The cooked header, with the protocol at its end. -/
def sll : Layout := ⟨16, 14, by decide⟩

/-- Version 2 of it, with the protocol in front. -/
def sll2 : Layout := ⟨20, 0, by decide⟩

def published : LinkType → Option Layout
  | .EN10MB => some ethernet
  | .LINUX_SLL => some sll
  | .LINUX_SLL2 => some sll2
  | .other _ => none

/-- The layout that the code uses. -/
def used : LinkType → Option Layout
  | .EN10MB => some ethernet
  | .LINUX_SLL | .LINUX_SLL2 => some sll
  | .other _ => none

/-- The IP version that the link header announces, if the fixed IP header is captured. -/
def Layout.captured (lay : Layout) (f : Frame) : Option Version :=
  match f.packet[lay.protoOff]?, f.packet[lay.protoOff + 1]? with
  | some a, some b =>
    (versionOf (a.toNat * 256 + b.toNat)).filter fun v => lay.size + v.size ≤ f.caplen
  | _, _ => none

/-- The texts of the two addresses of the IP header. -/
def Layout.addresses (lay : Layout) (v : Version) (f : Frame) : Bytes × Bytes :=
  (v.ntop ((f.packet.drop (lay.size + v.src)).take v.addrLen),
    v.ntop ((f.packet.drop (lay.size + v.dst)).take v.addrLen))

/-- The flow of a frame by a layout. -/
def flowBy (label : Bytes) (f : Frame) (lay : Layout) : Option PacketMeta :=
  (lay.captured f).map fun v =>
    { iface := label, srcIp := (lay.addresses v f).1, dstIp := (lay.addresses v f).2
      bytes := f.len }

/-- The flow of a frame by the published layout of its link type. -/
def expected (linkType : LinkType) (label : Bytes) (f : Frame) : Option PacketMeta :=
  (published linkType).bind (flowBy label f)

/-- What the code does if it hands over this flow, or none. -/
def outcome : Option PacketMeta → Except Stop PacketMeta
  | some m => .ok m
  | none => .error .returned

/-- The frame gives the flow that its layout says, and no byte behind it is read. -/
def Dissected (linkType : LinkType) (label : Bytes) (f : Frame) : Prop :=
  handlePacket linkType label f = outcome (expected linkType label f)

/-! ## Dissection by a layout -/

variable {linkType : LinkType} {f : Frame}

theorem exists_byte {f : Frame} {i : Nat} (h : i < f.caplen) :
    ∃ b, f.packet[i]? = some b ∧ byteAt f i = .ok b :=
  ⟨f.packet[i], List.getElem?_eq_getElem h, by rw [byteAt, List.getElem?_eq_getElem h]⟩

theorem bytesAt_of_le {f : Frame} {i n : Nat} (h : i + n ≤ f.caplen) :
    bytesAt f i n = .ok ((f.packet.drop i).take n) := if_pos h

/-- The branch for a layout announces what the layout does, if all of the link header is there. -/
theorem linkHeader_eq (lay : Layout) (h : lay.size ≤ f.caplen) :
    ∃ a b, f.packet[lay.protoOff]? = some a ∧ f.packet[lay.protoOff + 1]? = some b ∧
      linkHeader f lay.size lay.protoOff =
        match versionOf (a.toNat * 256 + b.toNat) with
        | some v => .ok (v, lay.size)
        | none => .error .returned := by
  have hin := lay.inside
  obtain ⟨a, ha, hbyte⟩ := exists_byte (f := f) (i := lay.protoOff) (by omega)
  obtain ⟨b, hb, hbyte'⟩ := exists_byte (f := f) (i := lay.protoOff + 1) (by omega)
  refine ⟨a, b, ha, hb, ?_⟩
  rw [linkHeader, if_neg (by omega), word16, hbyte, hbyte']
  rfl

theorem captured_eq_none (lay : Layout) (h : f.caplen < lay.size) : lay.captured f = none := by
  unfold Layout.captured
  split
  · rw [Option.filter_eq_none_iff]
    intro v _
    simp only [decide_eq_true_eq]
    omega
  · rfl

/-- **The code** dissects by the layout of its branch. -/
theorem handlePacket_eq {lay : Layout} (label : Bytes)
    (h : layer3 linkType f = linkHeader f lay.size lay.protoOff) :
    handlePacket linkType label f = outcome (flowBy label f lay) := by
  rw [handlePacket, h, flowBy]
  by_cases hsize : f.caplen < lay.size
  · rw [captured_eq_none lay hsize, linkHeader, if_pos hsize]
    rfl
  · obtain ⟨a, b, ha, hb, hlink⟩ := linkHeader_eq lay (Nat.le_of_not_lt hsize)
    rw [hlink, Layout.captured, ha, hb]
    dsimp only
    cases versionOf (a.toNat * 256 + b.toNat) with
    | none => rfl
    | some v =>
      by_cases hip : f.caplen < lay.size + v.size
      · rw [Option.filter_some, if_neg (by simpa using hip)]
        exact if_pos hip
      · have hsrc : lay.size + v.src + v.addrLen ≤ f.caplen := by
          cases v <;> simp only [Version.size, Version.src, Version.addrLen] at * <;> omega
        have hdst : lay.size + v.dst + v.addrLen ≤ f.caplen := by
          cases v <;> simp only [Version.size, Version.dst, Version.addrLen] at * <;> omega
        rw [Option.filter_some, if_pos (by simpa using hip)]
        refine (if_neg hip).trans ?_
        rw [bytesAt_of_le hsrc, bytesAt_of_le hdst]
        rfl

/-- **Captured bytes.** The code dissects by the layout that it uses, and reads only what was
captured. -/
theorem handlePacket_dissects (linkType : LinkType) (label : Bytes) (f : Frame) :
    handlePacket linkType label f = outcome ((used linkType).bind (flowBy label f)) ∧
      handlePacket linkType label f ≠ .error .outOfBounds := by
  have heq : handlePacket linkType label f = outcome ((used linkType).bind (flowBy label f)) := by
    cases linkType with
    | other dlt => rfl
    | _ => exact handlePacket_eq label rfl
  refine ⟨heq, ?_⟩
  rw [heq]
  cases (used linkType).bind (flowBy label f) <;> simp [outcome]

/-! ## The two cooked layouts -/

/-- The two layouts see the same in the frame: no captured IP header, or one of the same version
with addresses of the same texts. -/
structure SameView (f : Frame) : Prop where
  captured : sll.captured f = sll2.captured f
  addresses : ∀ v, sll.captured f = some v → sll.addresses v f = sll2.addresses v f

theorem intercalate_cons_cons (sep x y : Bytes) (parts : List Bytes) :
    sep.intercalate (x :: y :: parts) = x ++ sep ++ sep.intercalate (y :: parts) := by
  simp [List.intercalate, List.intersperse]

theorem mem_intercalate {c d : UInt8} {parts : List Bytes} (h : c ∈ [d].intercalate parts) :
    c = d ∨ ∃ p ∈ parts, c ∈ p := by
  induction parts with
  | nil => simp [List.intercalate] at h
  | cons x parts ih =>
    cases parts with
    | nil => exact .inr ⟨x, by simp, by simpa [List.intercalate] using h⟩
    | cons y parts =>
      rw [intercalate_cons_cons, List.mem_append, List.mem_append, List.mem_singleton] at h
      rcases h with (h | h) | h
      · exact .inr ⟨x, by simp, h⟩
      · exact .inl h
      · rcases ih h with h | ⟨p, hp, hc⟩
        · exact .inl h
        · exact .inr ⟨p, List.mem_cons_of_mem _ hp, hc⟩

theorem colon_notMem_ntop4 (a : Bytes) : COLON ∉ inet_ntop4 a := by
  intro h
  rcases mem_intercalate h with h | ⟨p, hp, hc⟩
  · exact absurd h (by decide)
  · obtain ⟨b, -, rfl⟩ := List.mem_map.mp hp
    exact not_mem_decimal (by decide) _ hc

theorem length_words {a : Bytes} (h : a.length = 16) : (words a).length = 8 := by
  match a, h with
  | [_, _, _, _, _, _, _, _, _, _, _, _, _, _, _, _], _ => rfl

theorem colon_mem_ntop6 {a : Bytes} (h : a.length = 16) : COLON ∈ inet_ntop6 a := by
  have hcolons : COLON ∈ ascii "::" := by decide
  unfold inet_ntop6
  dsimp only
  split
  · have hlen := length_words h
    match words a, hlen with
    | x :: y :: ws, _ =>
      rw [groups, List.map_cons, List.map_cons, intercalate_cons_cons]
      simp
  · split
    · simp [hcolons]
    · simp [hcolons]

/-- The texts of addresses of different versions are different. -/
theorem ntop_version {v w : Version} {a b : Bytes} (ha : a.length = v.addrLen)
    (hb : b.length = w.addrLen) (h : v.ntop a = w.ntop b) : v = w := by
  cases v <;> cases w
  · rfl
  · have heq : inet_ntop4 a = inet_ntop6 b := h
    exact absurd (heq ▸ colon_mem_ntop6 hb) (colon_notMem_ntop4 a)
  · have heq : inet_ntop6 a = inet_ntop4 b := h
    exact absurd (heq ▸ colon_mem_ntop6 ha) (colon_notMem_ntop4 b)
  · rfl

/-- The source address of a captured IP header is captured. -/
theorem length_source {lay : Layout} {v : Version} (h : lay.captured f = some v) :
    ((f.packet.drop (lay.size + v.src)).take v.addrLen).length = v.addrLen := by
  unfold Layout.captured at h
  split at h
  · obtain ⟨-, hcap⟩ := Option.filter_eq_some_iff.mp h
    have hle : lay.size + v.size ≤ f.packet.length := of_decide_eq_true hcap
    rw [List.length_take, List.length_drop]
    cases v <;> simp only [Version.size, Version.src, Version.addrLen] at * <;> omega
  · cases h

theorem outcome_injective {m n : Option PacketMeta} (h : outcome m = outcome n) : m = n := by
  cases m <;> cases n <;> simp_all [outcome]

theorem flowBy_eq_iff (label : Bytes) (f : Frame) :
    flowBy label f sll = flowBy label f sll2 ↔ SameView f := by
  unfold flowBy
  constructor
  · intro h
    cases h1 : sll.captured f with
    | none =>
      rw [h1] at h
      have h2 : sll2.captured f = none := by simpa using h.symm
      exact ⟨h1.trans h2.symm, fun v hv => by rw [h1] at hv; cases hv⟩
    | some v =>
      cases h2 : sll2.captured f with
      | none => simp [h1, h2] at h
      | some w =>
        rw [h1, h2, Option.map_some, Option.map_some, Option.some.injEq, PacketMeta.mk.injEq] at h
        obtain ⟨-, hsrc, hdst, -⟩ := h
        obtain rfl := ntop_version (length_source h1) (length_source h2) hsrc
        refine ⟨h1.trans h2.symm, fun u hu => ?_⟩
        obtain rfl : v = u := Option.some.inj (h1.symm.trans hu)
        exact Prod.ext hsrc hdst
  · intro h
    rw [← h.captured]
    cases h1 : sll.captured f with
    | none => rfl
    | some v => rw [Option.map_some, Option.map_some, h.addresses v h1]

/-- **Dissection.** Every frame of every link type is dissected as its published layout says, but
for those of `DLT_LINUX_SLL2`: of these, exactly the ones that the two cooked layouts see alike. -/
theorem dissected_iff (linkType : LinkType) (label : Bytes) (f : Frame) :
    (Dissected linkType label f ↔ (linkType = .LINUX_SLL2 → SameView f)) ∧
      handlePacket linkType label f ≠ .error .outOfBounds := by
  obtain ⟨heq, hread⟩ := handlePacket_dissects linkType label f
  refine ⟨?_, hread⟩
  rw [Dissected, heq, expected]
  cases linkType with
  | LINUX_SLL2 =>
    rw [used, published, Option.bind_some, Option.bind_some, ← flowBy_eq_iff label f]
    exact ⟨fun h _ => outcome_injective h, fun h => congrArg outcome (h rfl)⟩
  | _ => simp [used, published]

/-! ## A frame that is lost, and one that is misread -/

/-- A frame of version 2 of the cooked header: an IPv4 packet from 192.0.2.1 to 192.0.2.2; `a` and
`b` are bytes of the link-layer address. -/
def cooked2 (a b : UInt8) : Frame where
  packet := [8, 0, 0, 0, 0, 0, 0, 2, 0, 1, 0, 6, 2, 66, a, b, 7, 9, 0, 0] ++
    [69, 0, 0, 20, 0, 0, 0, 0, 64, 6, 0, 0, 192, 0, 2, 1, 192, 0, 2, 2] ++ List.replicate 16 0
  len := 1500

/-- The flow of a frame is not accumulated, or accumulated for addresses that are not in it. -/
theorem sll2_lost :
    expected .LINUX_SLL2 (ascii "any") (cooked2 172 17) =
        some ⟨ascii "any", ascii "192.0.2.1", ascii "192.0.2.2", 1500⟩ ∧
      handlePacket .LINUX_SLL2 (ascii "any") (cooked2 172 17) = .error .returned ∧
      handlePacket .LINUX_SLL2 (ascii "any") (cooked2 8 0) =
        .ok ⟨ascii "any", ascii "64.6.0.0", ascii "192.0.2.1", 1500⟩ ∧
      ¬ Dissected .LINUX_SLL2 (ascii "any") (cooked2 172 17) := by
  have hexpected : expected .LINUX_SLL2 (ascii "any") (cooked2 172 17) =
      some ⟨ascii "any", ascii "192.0.2.1", ascii "192.0.2.2", 1500⟩ := by decide +kernel
  have hcode : handlePacket .LINUX_SLL2 (ascii "any") (cooked2 172 17) = .error .returned := rfl
  refine ⟨hexpected, hcode, rfl, fun h => ?_⟩
  rw [Dissected, hcode, hexpected] at h
  cases h

end TrafficMonitor.Dissect
