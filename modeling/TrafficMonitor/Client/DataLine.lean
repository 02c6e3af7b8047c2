import Mathlib
import TrafficMonitor.Protocol

/-!
# D-lines from the client's flow table to the server

`encodeFlush` is the encoding loop of `senderLoop` and `drain` the one of the iOS
`FlowAggregator`; `decodeFlush` cuts the bytes into lines as the server does and parses
each line under the default limits.

Proved here, for every flow table:

* `parseDataLine_fields`: four well-formed fields are read back as they were written;
* `conserved_iff_fits`: a flush arrives flow by flow, unchanged, exactly when every label
  is nonempty, at most 64 bytes and free of tabs and line ends, and every total fits 32
  bits; for the iOS sender, exactly when every total fits 32 bits.

The encoder writes 64-bit totals; a flow of 4 GiB is refused: `four_gib_flow_is_lost`.
-/

namespace TrafficMonitor.DataLine

open Bytes

/-! ## Flows -/

/-- The characters of a numeric address. -/
def isIpChar (c : UInt8) : Bool := isHexDigit c || (65 ≤ c && c ≤ 70) || c = 46 || c = 58

/-- A numeric address as text, within `INET6_ADDRSTRLEN`. -/
structure AddrText where
  text : Bytes
  nonempty : text ≠ []
  short : text.length ≤ 45
  chars : ∀ c ∈ text, isIpChar c = true

/-- An interface label: a C string with its blanks replaced. -/
structure IfaceLabel where
  text : Bytes
  noNul : NUL ∉ text
  noSpace : SP ∉ text

private theorem not_mem_label {s : Bytes} (h : NUL ∉ s) :
    NUL ∉ s.map (fun c => if c = SP then 45 else c) ∧
      SP ∉ s.map (fun c => if c = SP then 45 else c) := by
  constructor
  · intro hm
    obtain ⟨c, hc, e⟩ := List.mem_map.mp hm
    split at e
    · exact absurd e (by decide)
    · exact h (e ▸ hc)
  · intro hm
    obtain ⟨c, hc, e⟩ := List.mem_map.mp hm
    split at e
    · exact absurd e (by decide)
    · contradiction

theorem nul_not_mem_cStr (s : Bytes) : NUL ∉ cStr s := by
  intro h
  have := List.mem_takeWhile_imp h
  simp at this

/-- The label that `enumerateDesired` makes of a device's description and name. -/
def enumerateLabel (description : Option Bytes) (name : Bytes) : IfaceLabel :=
  let label := match description with
    | some d => if cStr d ≠ [] then cStr d else cStr name
    | none => cStr name
  have h : NUL ∉ label := by
    cases description with
    | none => exact nul_not_mem_cStr name
    | some d =>
      simp only [label]
      split
      · exact nul_not_mem_cStr d
      · exact nul_not_mem_cStr name
  { text := label.map fun c => if c = SP then 45 else c
    noNul := (not_mem_label h).1
    noSpace := (not_mem_label h).2 }

/-- An entry of the C++ client's flow table, with its 64-bit total. -/
structure Flow where
  iface : IfaceLabel
  srcIp : AddrText
  dstIp : AddrText
  total : Nat
  total_lt : total < 2 ^ 64

/-- The record that the flow should become on the server. -/
def Flow.record (f : Flow) : PacketMeta := ⟨f.iface.text, f.srcIp.text, f.dstIp.text, f.total⟩

/-- The key of a record: interface, source and destination. -/
def key (m : PacketMeta) : Bytes × Bytes × Bytes := (m.iface, m.srcIp, m.dstIp)

structure FlowTable where
  flows : List Flow
  nodup : (flows.map fun f => key f.record).Nodup

/-- An entry of the iOS aggregator. -/
structure IosFlow where
  srcIP : AddrText
  dstIP : AddrText
  total : Nat
  total_lt : total < 2 ^ 64

def IosFlow.record (f : IosFlow) : PacketMeta := ⟨ascii "utun", f.srcIP.text, f.dstIP.text, f.total⟩

structure IosFlows where
  flows : List IosFlow
  nodup : (flows.map fun f => key f.record).Nodup

/-! ## Encoders and decoder -/

/-- `snprintf(buf, 256, "D %.64s %.46s %.46s %llu\n", …)` -/
def encodeFlow (f : Flow) : Bytes :=
  let buf := ascii "D " ++ (cStr f.iface.text).take 64 ++ [SP] ++ (cStr f.srcIp.text).take 46 ++ [SP]
    ++ (cStr f.dstIp.text).take 46 ++ [SP] ++ decimal f.total ++ [LF]
  if buf.length < 256 then buf else []

/-- The buffer that one turn of the sender loop encodes. -/
def encodeFlush (t : FlowTable) : Bytes := t.flows.flatMap encodeFlow

/-- `drain`: the lines, to which `sendLine` adds the line end. -/
def drain (t : IosFlows) : List Bytes :=
  t.flows.map fun f => ascii "D utun " ++ f.srcIP.text ++ [SP] ++ f.dstIP.text ++ [SP] ++ decimal f.total

/-- What the server's loop makes of one line that begins with `"D "`. -/
def decodeLine (line : Bytes) : Option PacketMeta :=
  (stripPrefix kDataLinePrefix line).bind fun body =>
    parseDataLine body ({} : ServerConfig).max_iface_len ({} : ServerConfig).max_ip_len

def decodeFlush (buf : Bytes) : List (Option PacketMeta) := (Lines.split LF buf).1.map decodeLine

/-- The bytes that the records hold for a key. -/
def totalOf (records : List PacketMeta) (k : Bytes × Bytes × Bytes) : Nat :=
  ((records.filter fun m => key m = k).map (·.bytes)).sum

/-- Every flow is one accepted line and decodes to itself; the totals per key agree, and
no two keys become one. -/
structure Conserved (records : List PacketMeta) (buf : Bytes) : Prop where
  lines : decodeFlush buf = records.map some
  totals : ∀ k, totalOf ((decodeFlush buf).filterMap id) k = totalOf records k
  keys : (((decodeFlush buf).filterMap id).map key).Nodup

theorem conserved_iff {records : List PacketMeta} {buf : Bytes} (hn : (records.map key).Nodup) :
    Conserved records buf ↔ decodeFlush buf = records.map some := by
  constructor
  · exact Conserved.lines
  · intro h
    have e : (decodeFlush buf).filterMap id = records := by
      rw [h]
      simp [List.filterMap_map]
    exact ⟨h, fun k => by rw [e], by rwa [e]⟩

/-- What a decoded record satisfies, whatever was sent. -/
theorem record_bounds {records : List PacketMeta} {buf : Bytes}
    (h : decodeFlush buf = records.map some) {m : PacketMeta} (hm : m ∈ records) :
    m.iface ≠ [] ∧ m.iface.length ≤ 64 ∧ (∀ c ∈ m.iface, isSep c = false) ∧
      m.bytes ≤ 2 ^ 32 - 1 := by
  have hmem : some m ∈ decodeFlush buf := by
    rw [h]
    exact List.mem_map_of_mem hm
  obtain ⟨line, _, hline⟩ := List.mem_map.mp hmem
  obtain ⟨body, _, hbody⟩ := Option.bind_eq_some_iff.mp hline
  exact parseDataLine_bounds hbody

/-! ## Lines of well-formed fields -/

/-- The text of one D-line, without its line end. -/
def lineOf (m : PacketMeta) : Bytes :=
  kDataLinePrefix ++ (m.iface ++ SP :: (m.srcIp ++ SP :: (m.dstIp ++ SP :: decimal m.bytes)))

/-- The condition under which a record survives the line format. -/
structure Sendable (m : PacketMeta) : Prop where
  iface : m.iface ≠ [] ∧ ∀ c ∈ m.iface, isSep c = false
  src : m.srcIp ≠ [] ∧ ∀ c ∈ m.srcIp, isSep c = false
  dst : m.dstIp ≠ [] ∧ ∀ c ∈ m.dstIp, isSep c = false
  ifaceLen : m.iface.length ≤ 64
  srcLen : m.srcIp.length ≤ 50
  dstLen : m.dstIp.length ≤ 50
  bytes : m.bytes ≤ 2 ^ 32 - 1

theorem decodeLine_lineOf {m : PacketMeta} (h : Sendable m) : decodeLine (lineOf m) = some m := by
  simp only [decodeLine, lineOf, stripPrefix_append, Option.bind_some]
  exact parseDataLine_fields m.iface m.srcIp m.dstIp m.bytes _ _ h.iface h.src h.dst h.ifaceLen
    h.srcLen h.dstLen h.bytes

theorem lf_not_mem_of_sep {s : Bytes} (h : ∀ c ∈ s, isSep c = false) : LF ∉ s := by
  intro hm
  exact absurd (h LF hm) (by decide)

theorem lf_not_mem_lineOf {m : PacketMeta} (h : Sendable m) : LF ∉ lineOf m := by
  have hd : LF ∉ decimal m.bytes := not_mem_decimal (by decide) m.bytes
  have hp : LF ∉ kDataLinePrefix := by decide
  have hsp : LF ≠ SP := by decide
  simp only [lineOf, List.mem_append, List.mem_cons, not_or]
  exact ⟨hp, lf_not_mem_of_sep h.iface.2, hsp, lf_not_mem_of_sep h.src.2, hsp,
    lf_not_mem_of_sep h.dst.2, hsp, hd⟩

/-- A buffer of such lines decodes to its records. -/
theorem decodeFlush_join {ms : List PacketMeta} (h : ∀ m ∈ ms, Sendable m) :
    decodeFlush (Lines.join LF (ms.map lineOf)) = ms.map some := by
  have hl : ∀ l ∈ ms.map lineOf, LF ∉ l := by
    intro l hl
    obtain ⟨m, hm, rfl⟩ := List.mem_map.mp hl
    exact lf_not_mem_lineOf (h m hm)
  rw [decodeFlush, Lines.split_join LF _ hl, List.map_map]
  exact List.map_congr_left fun m hm => decodeLine_lineOf (h m hm)

theorem AddrText.sep (a : AddrText) : ∀ c ∈ a.text, isSep c = false := by
  intro c hc
  have h := a.chars c hc
  cases hs : isSep c with
  | false => rfl
  | true =>
    simp only [isSep, Bool.or_eq_true, decide_eq_true_eq] at hs
    rcases hs with ((rfl | rfl) | rfl) | rfl <;> exact absurd h (by decide)

theorem AddrText.cStr_take (a : AddrText) : (cStr a.text).take 46 = a.text := by
  have h : NUL ∉ a.text := fun hm => absurd (a.chars NUL hm) (by decide)
  rw [cStr_of_not_mem h]
  exact List.take_of_length_le (by have := a.short; omega)

/-! ## The C++ sender -/

/-- The label is a field of the D-line, and the total fits 32 bits. -/
def Flow.Fits (f : Flow) : Prop :=
  f.iface.text ≠ [] ∧ f.iface.text.length ≤ 64 ∧
    (∀ c ∈ f.iface.text, c ≠ TAB ∧ c ≠ CR ∧ c ≠ LF) ∧ f.total ≤ 2 ^ 32 - 1

theorem isSep_eq_false_iff {c : UInt8} :
    isSep c = false ↔ c ≠ SP ∧ c ≠ TAB ∧ c ≠ CR ∧ c ≠ LF := by
  simp [isSep, and_assoc]

theorem Flow.Fits.sendable {f : Flow} (h : f.Fits) : Sendable f.record where
  iface := ⟨h.1, fun c hc => isSep_eq_false_iff.mpr
    ⟨fun e => f.iface.noSpace (e ▸ hc), h.2.2.1 c hc⟩⟩
  src := ⟨f.srcIp.nonempty, f.srcIp.sep⟩
  dst := ⟨f.dstIp.nonempty, f.dstIp.sep⟩
  ifaceLen := h.2.1
  srcLen := Nat.le_trans f.srcIp.short (by decide)
  dstLen := Nat.le_trans f.dstIp.short (by decide)
  bytes := h.2.2.2

/-- The buffer of 256 bytes holds every line, so no flow is left out of the flush. -/
theorem encodeFlow_ne_nil (f : Flow) : encodeFlow f ≠ [] := by
  have hdec : (decimal f.total).length ≤ 20 :=
    length_decimal_le (by omega) (Nat.lt_trans f.total_lt (by decide))
  have hi := List.length_take_le 64 (cStr f.iface.text)
  have hs := List.length_take_le 46 (cStr f.srcIp.text)
  have hd := List.length_take_le 46 (cStr f.dstIp.text)
  have hp : (ascii "D ").length = 2 := rfl
  simp only [encodeFlow]
  rw [if_pos]
  · simp
  · simp only [List.length_append, List.length_cons, List.length_nil, hp]
    omega

/-- A short label is not truncated. -/
theorem encodeFlow_of_short {f : Flow} (h : f.iface.text.length ≤ 64) :
    encodeFlow f = lineOf f.record ++ [LF] := by
  have hdec : (decimal f.total).length ≤ 20 :=
    length_decimal_le (by omega) (Nat.lt_trans f.total_lt (by decide))
  have hs := f.srcIp.short
  have hd := f.dstIp.short
  have hD : ascii "D " = kDataLinePrefix := rfl
  have hp : kDataLinePrefix.length = 2 := rfl
  simp only [encodeFlow, AddrText.cStr_take, cStr_of_not_mem f.iface.noNul,
    List.take_of_length_le h, hD]
  rw [if_pos]
  · simp [lineOf, Flow.record]
  · simp only [List.length_append, List.length_cons, List.length_nil, hp]
    omega

theorem encodeFlush_of_fits {t : FlowTable} (h : ∀ f ∈ t.flows, f.Fits) :
    encodeFlush t = Lines.join LF ((t.flows.map Flow.record).map lineOf) := by
  simp only [encodeFlush, Lines.join, List.map_map, List.flatMap_map]
  exact List.flatMap_congr fun f hf => encodeFlow_of_short (h f hf).2.1

/-! ## The iOS sender -/

theorem IosFlow.sendable {f : IosFlow} (h : f.total ≤ 2 ^ 32 - 1) : Sendable f.record where
  iface := (by decide : ascii "utun" ≠ [] ∧ ∀ c ∈ ascii "utun", isSep c = false)
  src := ⟨f.srcIP.nonempty, f.srcIP.sep⟩
  dst := ⟨f.dstIP.nonempty, f.dstIP.sep⟩
  ifaceLen := (by decide : (ascii "utun").length ≤ 64)
  srcLen := Nat.le_trans f.srcIP.short (by decide)
  dstLen := Nat.le_trans f.dstIP.short (by decide)
  bytes := h

theorem drain_eq (t : IosFlows) : drain t = (t.flows.map IosFlow.record).map lineOf := by
  have hD : ascii "D utun " = kDataLinePrefix ++ (ascii "utun" ++ [SP]) := rfl
  simp only [drain, List.map_map]
  refine List.map_congr_left fun f _ => ?_
  simp [lineOf, IosFlow.record, hD]

/-! ## The round trip -/

theorem flush_conserved_iff (t : FlowTable) :
    Conserved (t.flows.map Flow.record) (encodeFlush t) ↔ ∀ f ∈ t.flows, f.Fits := by
  rw [conserved_iff (by rw [List.map_map]; exact t.nodup)]
  constructor
  · intro h f hf
    obtain ⟨hne, hlen, hsep, hb⟩ := record_bounds h (List.mem_map_of_mem hf)
    exact ⟨hne, hlen, fun c hc => (isSep_eq_false_iff.mp (hsep c hc)).2, hb⟩
  · intro h
    rw [encodeFlush_of_fits h]
    apply decodeFlush_join
    intro m hm
    obtain ⟨f, hf, rfl⟩ := List.mem_map.mp hm
    exact (h f hf).sendable

theorem drain_conserved_iff (t : IosFlows) :
    Conserved (t.flows.map IosFlow.record) (Lines.join LF (drain t)) ↔
      ∀ f ∈ t.flows, f.total ≤ 2 ^ 32 - 1 := by
  rw [conserved_iff (by rw [List.map_map]; exact t.nodup)]
  constructor
  · intro h f hf
    exact (record_bounds h (List.mem_map_of_mem hf)).2.2.2
  · intro h
    rw [drain_eq]
    apply decodeFlush_join
    intro m hm
    obtain ⟨f, hf, rfl⟩ := List.mem_map.mp hm
    exact IosFlow.sendable (h f hf)

/-- A flush of the C++ sender is conserved exactly when every flow fits the line format;
one of the iOS sender, exactly when every total fits 32 bits. -/
theorem conserved_iff_fits (t : FlowTable) (ios : IosFlows) :
    (Conserved (t.flows.map Flow.record) (encodeFlush t) ↔ ∀ f ∈ t.flows, f.Fits) ∧
      (Conserved (ios.flows.map IosFlow.record) (Lines.join LF (drain ios)) ↔
        ∀ f ∈ ios.flows, f.total ≤ 2 ^ 32 - 1) :=
  ⟨flush_conserved_iff t, drain_conserved_iff ios⟩

/-- Two hosts of a LAN. -/
def hostOne : AddrText := ⟨ascii "10.0.0.1", by decide, by decide, by decide⟩
def hostTwo : AddrText := ⟨ascii "10.0.0.2", by decide, by decide, by decide⟩

/-- One flow of 4 GiB on eth0. -/
def fourGiB : FlowTable where
  flows := [⟨enumerateLabel none (ascii "eth0"), hostOne, hostTwo, 2 ^ 32, by decide⟩]
  nodup := by simp

/-- The server refuses its line. -/
theorem four_gib_flow_is_lost :
    decodeFlush (encodeFlush fourGiB) = [none] ∧
      ¬ Conserved (fourGiB.flows.map Flow.record) (encodeFlush fourGiB) := by
  have h : decodeFlush (encodeFlush fourGiB) = [none] := by decide
  exact ⟨h, fun hc => absurd (h.symm.trans hc.lines) (by simp [fourGiB])⟩

end TrafficMonitor.DataLine
