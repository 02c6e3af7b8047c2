import TrafficMonitor.Stats.DayOrder

/-!
# The counter-overflow branch of `addPacket` (`ntm_types.hpp`)

`addPacket` holds references to six map entries under the client's key when it finds that
a counter would overflow. `resetClientInShard` erases those entries, and the branch goes on
to assign through the references. Here the entries are told apart by their nodes: a
reference names the node that stood at its entry when it was taken, and what `operator[]`
makes after an erasure is another node. Proved here:

* `addPacketRefs_eq`: without an overflow this is `addPacket` as the runs have it;
* `addPacketRefs_of_overflows`: with one the first assignment goes through a reference
  whose node is gone;
* `overflow_not_handled`: so no packet that would overflow a counter starts its client over.
-/

namespace TrafficMonitor.Stats

open Bytes Maps Sessions

/-! ## References -/

/-- The entries that `addPacket` holds references to, in the order of its assignments. -/
inductive Entry
  | total
  | flowMap
  | entityFlowMap
  | flowCounter
  | countryCounter
  | entityCounter
  deriving DecidableEq, Repr

def Entry.all : List Entry :=
  [.total, .flowMap, .entityFlowMap, .flowCounter, .countryCounter, .entityCounter]

/-- A reference to the node that stands at an entry once it has been erased `node` times. -/
structure Ref where
  entry : Entry
  node : Nat
  deriving DecidableEq, Repr

/-- Access the entries through the references, when each has been erased `node` times: the
first one whose node is gone, or none. -/
def access (node : Nat) : List Ref → Option Entry
  | [] => none
  | r :: rs => if r.node = node then access node rs else some r.entry

inductive Outcome
  | returned (sh : Shard) (res : AddResult)
  /-- An entry is assigned to through a reference whose node has been erased. -/
  | dangling (e : Entry)
  deriving DecidableEq

/-! ## The branch -/

/-- The test for an overflow, on the maps after the evictions; `none` as in `DayBucket.add`. -/
def DayBucket.overflows (limits : Limits) (p : Packet) (o : Orders) (b : DayBucket) :
    Option Bool := do
  let key := ciKey p
  let total := get b.totals key {}
  let countryMap := get b.countryFlows key ∅
  let (flowMap, _) ←
    evict limits.maxFlowEntriesPerKey FlowStats.bytes o.flows (flowKey p) (get b.flows key ∅)
  let (entityMap, _) ←
    evict limits.maxEntityFlowEntriesPerKey Counter.bytes o.entities (entityKey p)
      (get b.entityFlows key ∅)
  let flow := get flowMap (flowKey p) {}
  let country := get countryMap (countryKey p) {}
  let entity := get entityMap (entityKey p) {}
  some (wouldOverflow total.packets total.bytes p.bytes ||
    wouldOverflow flow.packets flow.bytes p.bytes ||
    wouldOverflow country.packets country.bytes p.bytes ||
    wouldOverflow entity.packets entity.bytes p.bytes)

/-- The last bucket once one of the packet's day is open. -/
def Shard.opened (epochSec : Int) (sh : Shard) : List DayBucket × DayBucket :=
  openBucket DayBucket.dayIndex (fun d => { dayIndex := d }) (dayIndex epochSec) sh.dayBuckets

/-- How often the entries of the packet's key have been erased after a reset of its client. -/
def erasures (p : Packet) : Nat := if ofClient p.clientId (ciKey p) then 1 else 0

/-- After the reset: the six assignments through the references taken before it, and, were
they sound, the update of the entries that `operator[]` has made. -/
def Shard.afterReset (limits : Limits) (epochSec : Int) (p : Packet) (o : Orders) (sh : Shard) :
    Option Outcome :=
  match access (erasures p) (Entry.all.map (⟨·, 0⟩)) with
  | some e => some (.dangling e)
  | none =>
    let (front, back) := sh.opened epochSec
    let reset := resetClientInShard p.clientId { sh with dayBuckets := front ++ [back] }
    ((back.reset p.clientId).add limits epochSec p o).map fun (back, ev) =>
      .returned { reset with
        dayBuckets := prune limits.windowDays (reset.dayBuckets.dropLast ++ [back])
        clientHistory := reset.clientHistory.insert p.clientId (({} : ClientHistoryRing).add epochSec p) }
        (.accepted ev)

/-- `addPacket` with its overflow branch. -/
def Shard.addPacketRefs (limits : Limits) (epochSec : Int) (p : Packet) (o : Orders) (sh : Shard) :
    Option Outcome :=
  if sh.Rejects limits p then
    (sh.addPacket limits epochSec p o).map fun r => .returned r.1 r.2
  else match (sh.opened epochSec).2.overflows limits p o with
    | none => none
    | some true => sh.afterReset limits epochSec p o
    | some false => (sh.addPacket limits epochSec p o).map fun r => .returned r.1 r.2

/-- The packet would overflow a counter of its client. -/
def Shard.Overflows (limits : Limits) (epochSec : Int) (p : Packet) (o : Orders) (sh : Shard) :
    Prop :=
  ¬ sh.Rejects limits p ∧ (sh.opened epochSec).2.overflows limits p o = some true

instance (limits : Limits) (epochSec : Int) (p : Packet) (o : Orders) (sh : Shard) :
    Decidable (sh.Overflows limits epochSec p o) :=
  inferInstanceAs (Decidable (_ ∧ _))

/-! ## What is asked for -/

/-- The bucket holds exactly the packet under its key and nothing under others of the client. -/
def DayBucket.HoldsOnly (epochSec : Int) (p : Packet) (b : DayBucket) : Prop :=
  b.totals.lookup (ciKey p) = some ⟨1, p.bytes⟩ ∧
  b.flows.lookup (ciKey p) =
    some (AList.singleton (flowKey p) ⟨1, p.bytes, epochSec, epochSec⟩) ∧
  b.countryFlows.lookup (ciKey p) = some (AList.singleton (countryKey p) ⟨1, p.bytes⟩) ∧
  b.entityFlows.lookup (ciKey p) = some (AList.singleton (entityKey p) ⟨1, p.bytes⟩) ∧
  ∀ key, ofClient p.clientId key = true → key ≠ ciKey p →
    key ∉ b.totals ∧ key ∉ b.flows ∧ key ∉ b.countryFlows ∧ key ∉ b.entityFlows

/-- The client starts over with this packet; all other clients keep what they have. -/
structure StartsOver (epochSec : Int) (p : Packet) (sh sh' : Shard) : Prop where
  today : ∃ bs b, sh'.dayBuckets = bs ++ [b] ∧ b.dayIndex = dayIndex epochSec ∧
    b.HoldsOnly epochSec p ∧ ∀ b' ∈ bs, b'.reset p.clientId = b'
  history : sh'.clientHistory.lookup p.clientId = some (({} : ClientHistoryRing).add epochSec p)
  registered : get sh'.clientIfaces p.clientId [] = [p.iface]
  buckets : sh'.dayBuckets.map (DayBucket.reset p.clientId) =
    sh.dayBuckets.map (DayBucket.reset p.clientId)
  others : ∀ d, d ≠ p.clientId → sh'.clientIfaces.lookup d = sh.clientIfaces.lookup d ∧
    sh'.ifaceRejectCount.lookup d = sh.ifaceRejectCount.lookup d ∧
    sh'.clientHistory.lookup d = sh.clientHistory.lookup d

/-- The call returns, having used no entry that the reset has removed, and the client has
started over. -/
def Handled (limits : Limits) (epochSec : Int) (p : Packet) (o : Orders) (sh : Shard) : Prop :=
  ∃ sh' ev, sh.addPacketRefs limits epochSec p o = some (.returned sh' (.accepted ev)) ∧
    StartsOver epochSec p sh sh'

/-! ## The branch is never sound -/

variable {limits : Limits} {epochSec : Int} {p : Packet} {o : Orders} {sh : Shard}

/-- The test of `DayBucket.add` is the same one. -/
theorem add_eq_none_of_overflows {b : DayBucket} (h : b.overflows limits p o = some true) :
    b.add limits epochSec p o = none := by
  simp only [DayBucket.overflows, Option.bind_eq_bind, Option.bind_eq_some_iff, Prod.exists] at h
  obtain ⟨flowMap, fe, hf, entityMap, ee, he, h⟩ := h
  simp only [DayBucket.add, hf, he, Option.bind_eq_bind, Option.bind_some]
  rw [if_pos (Option.some.inj h)]

theorem add_eq_none_of_overflows_none {b : DayBucket} (h : b.overflows limits p o = none) :
    b.add limits epochSec p o = none := by
  rcases hadd : b.add limits epochSec p o with _ | ⟨b', ev⟩
  · rfl
  · simp only [DayBucket.add, Option.bind_eq_bind, Option.bind_eq_some_iff, Prod.exists] at hadd
    obtain ⟨flowMap, fe, hf, entityMap, ee, he, -⟩ := hadd
    simp only [DayBucket.overflows, hf, he, Option.bind_eq_bind, Option.bind_some] at h
    cases h

theorem addPacket_eq_none {b : DayBucket} (hr : ¬ sh.Rejects limits p)
    (hb : (sh.opened epochSec).2 = b) (h : b.add limits epochSec p o = none) :
    sh.addPacket limits epochSec p o = none := by
  have hr' : ¬ (p.iface ∉ get sh.clientIfaces p.clientId [] ∧
    limits.maxIfacesPerClient ≤ (get sh.clientIfaces p.clientId []).length) := hr
  unfold Shard.opened at hb
  unfold Shard.addPacket
  dsimp only
  rw [if_neg hr', hb, h]
  rfl

/-- **Without an overflow.** The call is the one of the runs. -/
theorem addPacketRefs_eq (h : ¬ sh.Overflows limits epochSec p o) :
    sh.addPacketRefs limits epochSec p o =
      (sh.addPacket limits epochSec p o).map fun r => .returned r.1 r.2 := by
  unfold Shard.addPacketRefs
  by_cases hr : sh.Rejects limits p
  · rw [if_pos hr]
  · rw [if_neg hr]
    cases hov : (sh.opened epochSec).2.overflows limits p o with
    | none =>
      rw [addPacket_eq_none hr rfl (add_eq_none_of_overflows_none hov)]
      rfl
    | some v =>
      cases v with
      | true => exact absurd ⟨hr, hov⟩ h
      | false => rfl

theorem erasures_eq (p : Packet) : erasures p = 1 := by
  have h : ofClient p.clientId (ciKey p) = true :=
    List.isPrefixOf_iff_prefix.mpr ⟨p.iface, rfl⟩
  rw [erasures, if_pos h]

/-- **With an overflow.** `total = bucket.totals[ciKey];` assigns through a reference whose
node the reset has erased. -/
theorem addPacketRefs_of_overflows (h : sh.Overflows limits epochSec p o) :
    sh.addPacketRefs limits epochSec p o = some (.dangling .total) := by
  have haccess : access (erasures p) (Entry.all.map (⟨·, 0⟩)) = some .total := by
    rw [erasures_eq]
    rfl
  rw [Shard.addPacketRefs, if_neg h.1, h.2]
  simp only [Shard.afterReset, haccess]

/-- **Overflow.** In no state is a packet that would overflow a counter handled. -/
theorem overflow_not_handled (limits : Limits) (epochSec : Int) (p : Packet) (o : Orders)
    (sh : Shard) (h : sh.Overflows limits epochSec p o) : ¬ Handled limits epochSec p o sh := by
  rintro ⟨sh', ev, hret, -⟩
  rw [addPacketRefs_of_overflows h] at hret
  cases hret

/-! A client with five packets whose bytes are ten short of 2^64, and a packet of sixty. -/

private def heavyPacket : Packet :=
  ⟨ascii "a", ascii "eth0", ascii "10.0.0.5", ascii "9.9.9.9", ascii "LAN", ascii "DE", ascii "LAN",
    ascii "e", 60⟩

private def nearlyFull : Shard :=
  let key := ciKey heavyPacket
  { dayBuckets := [{
      dayIndex := 0
      totals := AList.singleton key ⟨5, 2 ^ 64 - 10⟩
      flows := AList.singleton key (AList.singleton (flowKey heavyPacket) ⟨5, 2 ^ 64 - 10, 1, 9⟩)
      countryFlows :=
        AList.singleton key (AList.singleton (countryKey heavyPacket) ⟨5, 2 ^ 64 - 10⟩)
      entityFlows :=
        AList.singleton key (AList.singleton (entityKey heavyPacket) ⟨5, 2 ^ 64 - 10⟩) }]
    clientIfaces := AList.singleton (ascii "a") [ascii "eth0"] }

theorem overflow_not_handled_nearly_full :
    nearlyFull.Overflows (Limits.of 7 9 9 9) 100 heavyPacket {} ∧
      ¬ Handled (Limits.of 7 9 9 9) 100 heavyPacket {} nearlyFull := by
  have h : nearlyFull.Overflows (Limits.of 7 9 9 9) 100 heavyPacket {} := by decide +kernel
  exact ⟨h, overflow_not_handled _ _ _ _ _ h⟩

/-- The sixty bytes overflow the total, and the first assignment of the branch goes to an
entry that is no more. -/
theorem overflow_writes_to_erased_entry :
    nearlyFull.addPacketRefs (Limits.of 7 9 9 9) 100 heavyPacket {} = some (.dangling .total) ∧
      ¬ Handled (Limits.of 7 9 9 9) 100 heavyPacket {} nearlyFull := by
  have h : nearlyFull.addPacketRefs (Limits.of 7 9 9 9) 100 heavyPacket {} =
      some (.dangling .total) := by decide +kernel
  refine ⟨h, ?_⟩
  rintro ⟨sh', ev, hret, -⟩
  rw [h] at hret
  cases hret

end TrafficMonitor.Stats
