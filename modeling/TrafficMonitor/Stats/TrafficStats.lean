import TrafficMonitor.Basic.Maps
import TrafficMonitor.Server.Sessions

/-!
# The traffic statistics (`ntm_types.hpp`, `TrafficStats`)

Sixteen shards, chosen by a hash of the client id, hold day buckets with totals, address
flows, country flows and entity flows for every key `clientId|iface`, the interfaces of
every client, and history rings. `addPacket`, `purgeClient`, `snapshot` and
`snapshotHistory` are the code. A run of the code provides what the library leaves open:
the hash, and the order in which a full map is iterated.

When a counter is about to overflow, `addPacket` resets the client and goes on with
references that the reset has invalidated. What happens then is undefined, and the model
gives no result there.
-/

namespace TrafficMonitor.Stats

open Bytes Maps Sessions

/-! ## Data -/

structure Counter where
  packets : Nat := 0
  bytes : Nat := 0
  deriving DecidableEq

structure FlowStats where
  packets : Nat := 0
  bytes : Nat := 0
  firstSeenSec : Int := -1
  lastSeenSec : Int := -1
  deriving DecidableEq

structure FlowKey where
  src : Bytes
  dst : Bytes
  deriving DecidableEq

structure DayBucket where
  dayIndex : Int
  totals : Map Bytes Counter := ∅
  flows : Map Bytes (Map FlowKey FlowStats) := ∅
  countryFlows : Map Bytes (Map FlowKey Counter) := ∅
  entityFlows : Map Bytes (Map FlowKey Counter) := ∅
  deriving DecidableEq

/-- `ClientMinuteBucket` and `ClientHourBucket`, with the minute or hour as `epoch`. -/
structure HistorySlot where
  epoch : Nat := 0
  inBytes : Nat := 0
  outBytes : Nat := 0
  inPackets : Nat := 0
  outPackets : Nat := 0
  deriving DecidableEq

def kMinuteSlots : Nat := 1440
def kHourSlots : Nat := 168

/-- The slots that have been written. -/
structure ClientHistoryRing where
  minutes : Map Nat HistorySlot := ∅
  hours : Map Nat HistorySlot := ∅
  deriving DecidableEq

structure Shard where
  dayBuckets : List DayBucket := []
  clientIfaces : Map ClientId (List Bytes) := ∅
  ifaceRejectCount : Map ClientId Nat := ∅
  clientHistory : Map ClientId ClientHistoryRing := ∅
  deriving DecidableEq

def kAggregationWindowDaysDefault : Nat := 7

/-- The limits, which are positive. -/
structure Limits where
  windowDays : Nat
  maxFlowEntriesPerKey : Nat
  maxEntityFlowEntriesPerKey : Nat
  maxIfacesPerClient : Nat
  windowDays_pos : 1 ≤ windowDays
  flow_pos : 1 ≤ maxFlowEntriesPerKey
  entity_pos : 1 ≤ maxEntityFlowEntriesPerKey
  ifaces_pos : 1 ≤ maxIfacesPerClient

/-- The constructor of `TrafficStats`. -/
def Limits.of (windowDays maxFlow maxEntityFlow maxIfaces : Nat) : Limits where
  windowDays := if 0 < windowDays then windowDays else kAggregationWindowDaysDefault
  maxFlowEntriesPerKey := if 0 < maxFlow then maxFlow else 1
  maxEntityFlowEntriesPerKey := if 0 < maxEntityFlow then maxEntityFlow else 1
  maxIfacesPerClient := if 0 < maxIfaces then maxIfaces else 1
  windowDays_pos := by unfold kAggregationWindowDaysDefault; split <;> omega
  flow_pos := by split <;> omega
  entity_pos := by split <;> omega
  ifaces_pos := by split <;> omega

abbrev kShardCount : Nat := 16

structure TrafficStats where
  shards : Fin kShardCount → Shard := fun _ => {}

/-- Addition of `uint64_t`. -/
def add64 (a b : Nat) : Nat := (a + b) % 2 ^ 64

/-! ## Adding a packet -/

def ciKey (p : Packet) : Bytes := p.clientId ++ ascii "|" ++ p.iface

def flowKey (p : Packet) : FlowKey := ⟨p.srcIp, p.dstIp⟩
def countryKey (p : Packet) : FlowKey := ⟨p.srcCountry, p.dstCountry⟩
def entityKey (p : Packet) : FlowKey := ⟨p.srcEntity, p.dstEntity⟩

def dayIndex (epochSec : Int) : Int :=
  if 0 ≤ epochSec then epochSec.tdiv 86400 else (epochSec - 86399).tdiv 86400

def wouldOverflow (packets bytes length : Nat) : Bool :=
  2 ^ 64 - 1 - 1 < packets || (0 < length && 2 ^ 64 - 1 - length < bytes)

def Counter.add (c : Counter) (length : Nat) : Counter := ⟨c.packets + 1, c.bytes + length⟩

def FlowStats.add (f : FlowStats) (epochSec : Int) (length : Nat) : FlowStats where
  packets := f.packets + 1
  bytes := f.bytes + length
  firstSeenSec := if f.firstSeenSec < 0 then epochSec else f.firstSeenSec
  lastSeenSec := epochSec

/-- The orders in which the two capped maps are iterated when an entry is evicted. -/
structure Orders where
  flows : List FlowKey := []
  entities : List FlowKey := []
  deriving DecidableEq

/-- The entries that made room for a packet. -/
structure Evicted where
  flow : Option (FlowKey × FlowStats) := none
  entity : Option (FlowKey × Counter) := none
  deriving DecidableEq

/-- One packet in its day bucket; `none` when a counter would overflow. -/
def DayBucket.add (limits : Limits) (epochSec : Int) (p : Packet) (o : Orders) (b : DayBucket) :
    Option (DayBucket × Evicted) := do
  let key := ciKey p
  let total := get b.totals key {}
  let countryMap := get b.countryFlows key ∅
  let (flowMap, flowEvicted) ←
    evict limits.maxFlowEntriesPerKey FlowStats.bytes o.flows (flowKey p) (get b.flows key ∅)
  let (entityMap, entityEvicted) ←
    evict limits.maxEntityFlowEntriesPerKey Counter.bytes o.entities (entityKey p)
      (get b.entityFlows key ∅)
  let flow := get flowMap (flowKey p) {}
  let country := get countryMap (countryKey p) {}
  let entity := get entityMap (entityKey p) {}
  if wouldOverflow total.packets total.bytes p.bytes || wouldOverflow flow.packets flow.bytes p.bytes ||
      wouldOverflow country.packets country.bytes p.bytes ||
      wouldOverflow entity.packets entity.bytes p.bytes then none
  else
    let b := { b with
      totals := b.totals.insert key (total.add p.bytes)
      flows := b.flows.insert key (flowMap.insert (flowKey p) (flow.add epochSec p.bytes))
      countryFlows :=
        b.countryFlows.insert key (countryMap.insert (countryKey p) (country.add p.bytes))
      entityFlows :=
        b.entityFlows.insert key (entityMap.insert (entityKey p) (entity.add p.bytes)) }
    some (b, ⟨flowEvicted, entityEvicted⟩)

def HistorySlot.add (s : HistorySlot) (isIn : Bool) (length : Nat) : HistorySlot :=
  if isIn then { s with inBytes := add64 s.inBytes length, inPackets := add64 s.inPackets 1 }
  else { s with outBytes := add64 s.outBytes length, outPackets := add64 s.outPackets 1 }

/-- Add to the slot of `epoch` in a ring of `slots`, after clearing a slot of another epoch. -/
def addToRing (slots epoch : Nat) (isIn : Bool) (length : Nat) (ring : Map Nat HistorySlot) :
    Map Nat HistorySlot :=
  let slot := get ring (epoch % slots) {}
  let slot := if slot.epoch ≠ epoch then { epoch } else slot
  ring.insert (epoch % slots) (slot.add isIn length)

def ClientHistoryRing.add (r : ClientHistoryRing) (epochSec : Int) (p : Packet) :
    ClientHistoryRing :=
  let isIn := isLanIP p.dstIp && !isLanIP p.srcIp
  { minutes := addToRing kMinuteSlots (epochSec.toNat / 60) isIn p.bytes r.minutes
    hours := addToRing kHourSlots (epochSec.toNat / 3600) isIn p.bytes r.hours }

/-- The buckets before the one of this day, and that bucket: the last one, or a new one. -/
def openBucket {β : Type} (day : β → Int) (new : Int → β) (d : Int) (bs : List β) : List β × β :=
  match bs.getLast? with
  | some b => if day b = d then (bs.dropLast, b) else (bs, new d)
  | none => ([], new d)

/-- `while (dayBuckets.size() > windowDays_) dayBuckets.pop_front();` -/
def prune {β : Type} (windowDays : Nat) (bs : List β) : List β := bs.drop (bs.length - windowDays)

inductive AddResult
  | accepted (ev : Evicted)
  | ifaceCapExceeded
  deriving DecidableEq

/-- `addPacket` on the shard of the client. -/
def Shard.addPacket (limits : Limits) (epochSec : Int) (p : Packet) (o : Orders) (s : Shard) :
    Option (Shard × AddResult) :=
  let ifaces := get s.clientIfaces p.clientId []
  if p.iface ∉ ifaces ∧ limits.maxIfacesPerClient ≤ ifaces.length then
    some ({ s with
      clientIfaces := s.clientIfaces.insert p.clientId ifaces
      ifaceRejectCount :=
        s.ifaceRejectCount.insert p.clientId (get s.ifaceRejectCount p.clientId 0 + 1) },
      .ifaceCapExceeded)
  else
    let ifaces := if p.iface ∈ ifaces then ifaces else ifaces ++ [p.iface]
    let (front, back) := openBucket DayBucket.dayIndex (fun d => { dayIndex := d })
      (dayIndex epochSec) s.dayBuckets
    (back.add limits epochSec p o).map fun (back, ev) =>
      ({ s with
        dayBuckets := prune limits.windowDays (front ++ [back])
        clientIfaces := s.clientIfaces.insert p.clientId ifaces
        clientHistory := s.clientHistory.insert p.clientId
          ((get s.clientHistory p.clientId {}).add epochSec p) },
        .accepted ev)

/-! ## Purging a client -/

/-- The key begins with the client id and the separator. -/
def ofClient (clientId : ClientId) (key : Bytes) : Bool := (clientId ++ ascii "|").isPrefixOf key

def DayBucket.reset (clientId : ClientId) (b : DayBucket) : DayBucket where
  dayIndex := b.dayIndex
  totals := keep (!ofClient clientId ·) b.totals
  flows := keep (!ofClient clientId ·) b.flows
  countryFlows := keep (!ofClient clientId ·) b.countryFlows
  entityFlows := keep (!ofClient clientId ·) b.entityFlows

def resetClientInShard (clientId : ClientId) (s : Shard) : Shard where
  dayBuckets := s.dayBuckets.map (DayBucket.reset clientId)
  clientIfaces := s.clientIfaces.erase clientId
  ifaceRejectCount := s.ifaceRejectCount.erase clientId
  clientHistory := s.clientHistory.erase clientId

/-- `purgeClient` on the shard of the client, with its result. -/
def Shard.purgeClient (clientId : ClientId) (s : Shard) : Shard × Bool :=
  (resetClientInShard clientId s, s.dayBuckets.any fun b => b.totals.keys.any (ofClient clientId))

/-! ## Snapshots -/

def Counter.accumulate (c x : Counter) : Counter :=
  ⟨add64 c.packets x.packets, add64 c.bytes x.bytes⟩

def FlowStats.accumulate (c x : FlowStats) : FlowStats where
  packets := add64 c.packets x.packets
  bytes := add64 c.bytes x.bytes
  firstSeenSec :=
    if 0 ≤ x.firstSeenSec ∧ (c.firstSeenSec < 0 ∨ x.firstSeenSec < c.firstSeenSec) then
      x.firstSeenSec
    else c.firstSeenSec
  lastSeenSec :=
    if 0 ≤ x.lastSeenSec ∧ (c.lastSeenSec < 0 ∨ c.lastSeenSec < x.lastSeenSec) then x.lastSeenSec
    else c.lastSeenSec

structure Snapshot where
  totals : Map Bytes Counter := ∅
  flows : Map Bytes (Map FlowKey FlowStats) := ∅
  countryFlows : Map Bytes (Map FlowKey Counter) := ∅
  entityFlows : Map Bytes (Map FlowKey Counter) := ∅
  deriving DecidableEq

def Snapshot.addBucket (out : Snapshot) (b : DayBucket) : Snapshot where
  totals := mergeInto Counter.accumulate {} out.totals b.totals
  flows := mergeInto (mergeInto FlowStats.accumulate {}) ∅ out.flows b.flows
  countryFlows := mergeInto (mergeInto Counter.accumulate {}) ∅ out.countryFlows b.countryFlows
  entityFlows := mergeInto (mergeInto Counter.accumulate {}) ∅ out.entityFlows b.entityFlows

/-- The retained buckets of all shards, in the order in which they are visited. -/
def TrafficStats.buckets (st : TrafficStats) : List DayBucket :=
  (List.finRange kShardCount).flatMap fun i => (st.shards i).dayBuckets

def TrafficStats.snapshot (st : TrafficStats) : Snapshot := st.buckets.foldl Snapshot.addBucket {}

/-- The day of the oldest front bucket. -/
def TrafficStats.minDay (st : TrafficStats) : Option Int :=
  ((List.finRange kShardCount).filterMap fun i =>
    (st.shards i).dayBuckets.head?.map (·.dayIndex)).min?

/-- `getAggregationWindowStart`, and the window start of a snapshot, in seconds. -/
def TrafficStats.windowStart (st : TrafficStats) (now : Int) : Int :=
  match st.minDay with
  | some d => d * 86400
  | none => now

structure HistoryBucket where
  t : Nat
  inBytes : Nat
  outBytes : Nat
  inPackets : Nat
  outPackets : Nat
  deriving DecidableEq

structure ClientHistorySnapshot where
  clientId : ClientId
  bucketSeconds : Nat
  windowDays : Nat
  buckets : List HistoryBucket
  deriving DecidableEq

def HistorySlot.bucket (s : HistorySlot) (t : Nat) : HistoryBucket :=
  ⟨t, s.inBytes, s.outBytes, s.inPackets, s.outPackets⟩

/-- `nowMin - (n - 1 - i)` is computed on `uint64_t`. -/
def minuteBuckets (nowSec : Int) (n : Nat) (ring : ClientHistoryRing) : List HistoryBucket :=
  (List.range n).filterMap fun i =>
    let em := (nowSec.toNat / 60 + 2 ^ 64 - (n - 1 - i)) % 2 ^ 64
    let slot := get ring.minutes (em % kMinuteSlots) {}
    if slot.epoch ≠ em then none else some (slot.bucket (em * 60 % 2 ^ 64))

def hourBuckets (ring : ClientHistoryRing) : List HistoryBucket :=
  let slots := (List.range kHourSlots).map fun i => get ring.hours i {}
  ((slots.filter fun s => s.epoch ≠ 0).map fun s => s.bucket (s.epoch * 3600)).mergeSort
    fun a b => a.t ≤ b.t

/-- `snapshotHistory` on the shard of the client. -/
def Shard.snapshotHistory (limits : Limits) (nowSec : Int) (clientId : ClientId) (minutes : Int)
    (s : Shard) : ClientHistorySnapshot :=
  match s.clientHistory.lookup clientId with
  | none => ⟨clientId, 60, limits.windowDays, []⟩
  | some ring =>
    if 0 < minutes then
      ⟨clientId, 60, limits.windowDays, minuteBuckets nowSec (min minutes.toNat kMinuteSlots) ring⟩
    else ⟨clientId, 3600, limits.windowDays, hourBuckets ring⟩

end TrafficMonitor.Stats
