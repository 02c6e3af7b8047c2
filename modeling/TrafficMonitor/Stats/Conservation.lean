import TrafficMonitor.Basic.Runs
import TrafficMonitor.Stats.TrafficStats

/-!
# Conservation in the traffic statistics

Beside every day bucket stands a record: the packets that the bucket has accepted since
the last purge, and the evictions from its maps. A purge of a client takes its keys out of
both.

Proved here:

* `conserved_add`, `conserved_reset`: what one packet and one purge do to a bucket and its
  record;
* `snapshotExact`: a snapshot holds the sums over all retained buckets;
* `conserved_of_run`: in every run, totals are the sums over the accepted packets and over
  the country flows; address and entity flows stay below and miss what was evicted; the
  maps stay within their caps, and only lightest entries give way, to new keys.
-/

namespace TrafficMonitor.Stats

open Bytes Maps Sessions Runs

/-! ## Records -/

/-- The two quantities that are counted. -/
inductive Quantity
  | packets
  | bytes

def Counter.of : Quantity → Counter → Nat
  | .packets, c => c.packets
  | .bytes, c => c.bytes

def FlowStats.of : Quantity → FlowStats → Nat
  | .packets, f => f.packets
  | .bytes, f => f.bytes

def amount : Quantity → Packet → Nat
  | .packets, _ => 1
  | .bytes, p => p.bytes

/-- An entry that made room for another one, and the bytes of all entries at that time. -/
structure Eviction where
  key : Bytes
  arriving : FlowKey
  victim : FlowKey
  lost : Counter
  before : List (FlowKey × Nat)
  deriving DecidableEq

structure Record where
  dayIndex : Int
  packets : List Packet := []
  flowEvictions : List Eviction := []
  entityEvictions : List Eviction := []
  deriving DecidableEq

def evictions {V : Type} (key : Bytes) (arriving : FlowKey) (counter : V → Counter)
    (m : Map FlowKey V) : Option (FlowKey × V) → List Eviction
  | none => []
  | some e => [⟨key, arriving, e.1, counter e.2, m.entries.map fun x => (x.1, (counter x.2).bytes)⟩]

def FlowStats.counter (f : FlowStats) : Counter := ⟨f.packets, f.bytes⟩

/-- The record after a packet, with the bucket before it. -/
def Record.accept (b : DayBucket) (p : Packet) (ev : Evicted) (r : Record) : Record where
  dayIndex := r.dayIndex
  packets := r.packets ++ [p]
  flowEvictions := r.flowEvictions ++
    evictions (ciKey p) (flowKey p) FlowStats.counter (get b.flows (ciKey p) ∅) ev.flow
  entityEvictions := r.entityEvictions ++
    evictions (ciKey p) (entityKey p) id (get b.entityFlows (ciKey p) ∅) ev.entity

def Record.reset (clientId : ClientId) (r : Record) : Record where
  dayIndex := r.dayIndex
  packets := r.packets.filter fun p => !ofClient clientId (ciKey p)
  flowEvictions := r.flowEvictions.filter fun e => !ofClient clientId e.key
  entityEvictions := r.entityEvictions.filter fun e => !ofClient clientId e.key

/-- What the packets of a key add up to. -/
def Record.sum (r : Record) (key : Bytes) (q : Quantity) : Nat :=
  ((r.packets.filter fun p => ciKey p = key).map (amount q)).sum

/-- What the evicted entries of a key add up to. -/
def lost (es : List Eviction) (key : Bytes) (q : Quantity) : Nat :=
  ((es.filter fun e => e.key = key).map fun e => e.lost.of q).sum

/-! ## Runs -/

structure State where
  stats : TrafficStats := {}
  /-- The records of the buckets of every shard. -/
  records : Fin kShardCount → List Record := fun _ => []
  /-- The packets accepted since the last purge of their client, with their days. -/
  accepted : List (Int × Packet) := []

inductive Call
  | addPacket (epochSec : Int) (p : Packet) (o : Orders)
  | purgeClient (clientId : ClientId)
  deriving DecidableEq

/-- The records of a shard after it has accepted a packet. -/
def acceptRecord (limits : Limits) (epochSec : Int) (p : Packet) (ev : Evicted) (sh : Shard)
    (rs : List Record) : List Record :=
  let back := (openBucket DayBucket.dayIndex (fun d => { dayIndex := d }) (dayIndex epochSec)
    sh.dayBuckets).2
  let opened := openBucket Record.dayIndex (fun d => { dayIndex := d }) (dayIndex epochSec) rs
  prune limits.windowDays (opened.1 ++ [opened.2.accept back p ev])

/-- One call; `hash` is the shard index of a client. -/
def step (limits : Limits) (hash : ClientId → Fin kShardCount) (s : State) : Call → Option State
  | .addPacket epochSec p o =>
    let i := hash p.clientId
    match (s.stats.shards i).addPacket limits epochSec p o with
    | none => none
    | some (sh, .ifaceCapExceeded) =>
      some { s with stats := ⟨Function.update s.stats.shards i sh⟩ }
    | some (sh, .accepted ev) =>
      some {
        stats := ⟨Function.update s.stats.shards i sh⟩
        records := Function.update s.records i
          (acceptRecord limits epochSec p ev (s.stats.shards i) (s.records i))
        accepted := s.accepted ++ [(dayIndex epochSec, p)] }
  | .purgeClient clientId =>
    let i := hash clientId
    some {
      stats := ⟨Function.update s.stats.shards i ((s.stats.shards i).purgeClient clientId).1⟩
      records := Function.update s.records i ((s.records i).map (Record.reset clientId))
      accepted := s.accepted.filter fun a =>
        !(hash a.2.clientId = i && ofClient clientId (ciKey a.2)) }

/-! ## The invariant -/

/-- The map was full, the key was new, and no entry had fewer bytes. -/
structure Eviction.Minimal (cap : Nat) (e : Eviction) : Prop where
  full : cap ≤ e.before.length
  new : ∀ x ∈ e.before, x.1 ≠ e.arriving
  victim : (e.victim, e.lost.bytes) ∈ e.before
  least : ∀ x ∈ e.before, e.lost.bytes ≤ x.2

/-- A bucket agrees with its record. -/
structure Conserved (limits : Limits) (b : DayBucket) (r : Record) : Prop where
  day : b.dayIndex = r.dayIndex
  keys : ∀ key, key ∈ b.totals ↔ ∃ p ∈ r.packets, ciKey p = key
  flowKeys : ∀ key, key ∈ b.flows ↔ key ∈ b.totals
  countryKeys : ∀ key, key ∈ b.countryFlows ↔ key ∈ b.totals
  entityKeys : ∀ key, key ∈ b.entityFlows ↔ key ∈ b.totals
  totals : ∀ key q, (get b.totals key {}).of q = r.sum key q
  countryFlows : ∀ key q, total (Counter.of q) (get b.countryFlows key ∅) = r.sum key q
  flows : ∀ key q,
    total (FlowStats.of q) (get b.flows key ∅) + lost r.flowEvictions key q = r.sum key q
  entityFlows : ∀ key q,
    total (Counter.of q) (get b.entityFlows key ∅) + lost r.entityEvictions key q = r.sum key q
  flowCap : ∀ key, size (get b.flows key ∅) ≤ limits.maxFlowEntriesPerKey
  entityCap : ∀ key, size (get b.entityFlows key ∅) ≤ limits.maxEntityFlowEntriesPerKey
  flowEvictions : ∀ e ∈ r.flowEvictions, e.Minimal limits.maxFlowEntriesPerKey
  entityEvictions : ∀ e ∈ r.entityEvictions, e.Minimal limits.maxEntityFlowEntriesPerKey

/-! ## One packet -/

theorem Counter.of_add (q : Quantity) (c : Counter) (p : Packet) :
    (c.add p.bytes).of q = c.of q + amount q p := by
  cases q <;> rfl

theorem FlowStats.of_add (q : Quantity) (f : FlowStats) (epochSec : Int) (p : Packet) :
    (f.add epochSec p.bytes).of q = f.of q + amount q p := by
  cases q <;> rfl

@[simp] theorem FlowStats.of_counter (q : Quantity) (f : FlowStats) : f.counter.of q = f.of q := by
  cases q <;> rfl

theorem Record.sum_accept (r : Record) (b : DayBucket) (p : Packet) (ev : Evicted) (key : Bytes)
    (q : Quantity) : (r.accept b p ev).sum key q =
      r.sum key q + if ciKey p = key then amount q p else 0 := by
  simp only [Record.sum, Record.accept, List.filter_append, List.map_append, List.sum_append]
  by_cases h : ciKey p = key <;> simp [h]

theorem lost_append (es fs : List Eviction) (key : Bytes) (q : Quantity) :
    lost (es ++ fs) key q = lost es key q + lost fs key q := by
  simp [lost]

/-- What one packet does to the maps of its key. -/
theorem add_spec {limits : Limits} {epochSec : Int} {p : Packet} {o : Orders} {b b' : DayBucket}
    {ev : Evicted} (h : b.add limits epochSec p o = some (b', ev)) :
    ∃ flowMap entityMap,
      Evicts limits.maxFlowEntriesPerKey FlowStats.bytes (flowKey p) (get b.flows (ciKey p) ∅)
        flowMap ev.flow ∧
      Evicts limits.maxEntityFlowEntriesPerKey Counter.bytes (entityKey p)
        (get b.entityFlows (ciKey p) ∅) entityMap ev.entity ∧
      b' = { b with
        totals := b.totals.insert (ciKey p) ((get b.totals (ciKey p) {}).add p.bytes)
        flows := b.flows.insert (ciKey p)
          (flowMap.insert (flowKey p) ((get flowMap (flowKey p) {}).add epochSec p.bytes))
        countryFlows := b.countryFlows.insert (ciKey p)
          ((get b.countryFlows (ciKey p) ∅).insert (countryKey p)
            ((get (get b.countryFlows (ciKey p) ∅) (countryKey p) {}).add p.bytes))
        entityFlows := b.entityFlows.insert (ciKey p)
          (entityMap.insert (entityKey p) ((get entityMap (entityKey p) {}).add p.bytes)) } := by
  simp only [DayBucket.add, Option.bind_eq_bind, Option.bind_eq_some_iff, Prod.exists] at h
  obtain ⟨flowMap, fe, hf, entityMap, ee, he, h⟩ := h
  split at h
  · cases h
  · cases h
    exact ⟨flowMap, entityMap, evict_spec limits.flow_pos hf, evict_spec limits.entity_pos he, rfl⟩

private theorem lost_evictions {V : Type} (counter : V → Counter) (key key' : Bytes) (k : FlowKey)
    (m : Map FlowKey V) (ev : Option (FlowKey × V)) (q : Quantity) :
    lost (evictions key k counter m ev) key' q =
      if key = key' then ev.elim 0 fun e => (counter e.2).of q else 0 := by
  cases ev with
  | none => simp [lost, evictions]
  | some e => by_cases h : key = key' <;> simp [lost, evictions, h]

private theorem minimal_evictions {V : Type} {cap : Nat} (counter : V → Counter) {key : Bytes}
    {k : FlowKey} {m m' : Map FlowKey V} {ev : Option (FlowKey × V)}
    (h : Evicts cap (fun v => (counter v).bytes) k m m' ev) :
    ∀ e ∈ evictions key k counter m ev, e.Minimal cap := by
  cases h with
  | nothing => simp [evictions]
  | lightest v hv hk hc hmin =>
    have hentry : ∀ x ∈ m.entries, m.lookup x.1 = some x.2 := fun x hx =>
      AList.mem_lookup_iff.mpr hx
    intro e he
    rw [evictions, List.mem_singleton] at he
    subst he
    refine ⟨?_, ?_, ?_, ?_⟩
    · simpa [size] using hc
    · intro x hx hxk
      obtain ⟨y, hy, rfl⟩ := List.mem_map.mp hx
      have hyk : y.1 = k := hxk
      refine hk ?_
      rw [← AList.lookup_isSome, ← hyk, hentry y hy]
      rfl
    · exact List.mem_map.mpr ⟨⟨v.1, v.2⟩, AList.mem_lookup_iff.mp hv, rfl⟩
    · intro x hx
      obtain ⟨y, hy, rfl⟩ := List.mem_map.mp hx
      exact hmin y.1 y.2 (hentry y hy)

/-- A capped map with its evictions gains what the packet brings. -/
private theorem total_capped {V : Type} {cap n : Nat} {weight g : V → Nat} {d v : V} {k : FlowKey}
    {m m' : Map FlowKey V} {ev : Option (FlowKey × V)} (h : Evicts cap weight k m m' ev)
    (hd : g d = 0) (hv : g v = g (get m' k d) + n) :
    total g (m'.insert k v) + ev.elim 0 (fun e => g e.2) = total g m + n := by
  have hinsert := total_insert_get hd m' k v
  have hevict := total_evicts g h
  omega

/-- **One packet.** -/
theorem conserved_add {limits : Limits} {epochSec : Int} {p : Packet} {o : Orders}
    {b b' : DayBucket} {ev : Evicted} {r : Record} (hc : Conserved limits b r)
    (h : b.add limits epochSec p o = some (b', ev)) :
    Conserved limits b' (r.accept b p ev) := by
  obtain ⟨flowMap, entityMap, hf, he, rfl⟩ := add_spec h
  constructor
  case day => exact hc.day
  case keys =>
    intro key
    rw [AList.mem_insert, hc.keys key, or_comm, eq_comm]
    simp only [Record.accept, List.mem_append, List.mem_singleton, or_and_right, exists_or,
      exists_eq_left]
  case flowKeys => exact fun key => by rw [AList.mem_insert, AList.mem_insert, hc.flowKeys]
  case countryKeys => exact fun key => by rw [AList.mem_insert, AList.mem_insert, hc.countryKeys]
  case entityKeys => exact fun key => by rw [AList.mem_insert, AList.mem_insert, hc.entityKeys]
  case totals =>
    intro key q
    rw [Record.sum_accept, ← hc.totals key q]
    by_cases hk : ciKey p = key
    · subst hk
      rw [get_insert, Counter.of_add, if_pos rfl]
    · rw [get_insert_ne (Ne.symm hk), if_neg hk, Nat.add_zero]
  case countryFlows =>
    intro key q
    rw [Record.sum_accept, ← hc.countryFlows key q]
    by_cases hk : ciKey p = key
    · subst hk
      -- the country flows have no cap
      have hroom : Evicts (size (get b.countryFlows (ciKey p) ∅) + 1) Counter.bytes (countryKey p)
          (get b.countryFlows (ciKey p) ∅) (get b.countryFlows (ciKey p) ∅) none :=
        .nothing (.inl (Nat.lt_succ_self _))
      rw [get_insert, if_pos rfl]
      exact total_capped hroom (by cases q <;> rfl) (Counter.of_add q _ p)
    · rw [get_insert_ne (Ne.symm hk), if_neg hk, Nat.add_zero]
  case flows =>
    intro key q
    rw [Record.sum_accept, ← hc.flows key q]
    simp only [Record.accept, lost_append, lost_evictions, FlowStats.of_counter]
    by_cases hk : ciKey p = key
    · subst hk
      have := total_capped (g := FlowStats.of q) (d := {}) hf (by cases q <;> rfl)
        (FlowStats.of_add q _ epochSec p)
      rw [get_insert, if_pos rfl, if_pos rfl]
      omega
    · rw [get_insert_ne (Ne.symm hk), if_neg hk, if_neg hk, Nat.add_zero, Nat.add_zero]
  case entityFlows =>
    intro key q
    rw [Record.sum_accept, ← hc.entityFlows key q]
    simp only [Record.accept, lost_append, lost_evictions, id_eq]
    by_cases hk : ciKey p = key
    · subst hk
      have := total_capped (g := Counter.of q) (d := {}) he (by cases q <;> rfl)
        (Counter.of_add q _ p)
      rw [get_insert, if_pos rfl, if_pos rfl]
      omega
    · rw [get_insert_ne (Ne.symm hk), if_neg hk, if_neg hk, Nat.add_zero, Nat.add_zero]
  case flowCap =>
    intro key
    by_cases hk : ciKey p = key
    · subst hk
      rw [get_insert]
      exact size_insert_evicts hf (hc.flowCap _) _
    · rw [get_insert_ne (Ne.symm hk)]
      exact hc.flowCap key
  case entityCap =>
    intro key
    by_cases hk : ciKey p = key
    · subst hk
      rw [get_insert]
      exact size_insert_evicts he (hc.entityCap _) _
    · rw [get_insert_ne (Ne.symm hk)]
      exact hc.entityCap key
  case flowEvictions =>
    intro e hmem
    exact (List.mem_append.mp hmem).elim (hc.flowEvictions e)
      (minimal_evictions FlowStats.counter hf e)
  case entityEvictions =>
    intro e hmem
    exact (List.mem_append.mp hmem).elim (hc.entityEvictions e)
      (minimal_evictions id he e)

/-- An empty bucket. -/
theorem conserved_new (limits : Limits) (d : Int) :
    Conserved limits { dayIndex := d } { dayIndex := d } := by
  constructor <;> simp [Record.sum, lost]
  intro q
  cases q <;> rfl

/-! ## A purge -/

private theorem sum_purged {A : Type} (clientId : ClientId) (l : List A) (keyOf : A → Bytes)
    (f : A → Nat) (key : Bytes) :
    (((l.filter fun a => !ofClient clientId (keyOf a)).filter fun a => keyOf a = key).map f).sum =
      if !ofClient clientId key then ((l.filter fun a => keyOf a = key).map f).sum else 0 := by
  rw [List.filter_filter]
  split
  · rename_i hk
    congr 2
    refine List.filter_congr fun a _ => ?_
    by_cases h : keyOf a = key
    · simpa [h] using hk
    · simp [h]
  · rename_i hk
    rw [List.filter_eq_nil_iff.mpr]
    · rfl
    · intro a _ ha
      obtain ⟨rfl, hn⟩ : keyOf a = key ∧ ofClient clientId (keyOf a) = false := by simpa using ha
      simp [hn] at hk

theorem Record.sum_reset (clientId : ClientId) (r : Record) (key : Bytes) (q : Quantity) :
    (r.reset clientId).sum key q = if !ofClient clientId key then r.sum key q else 0 :=
  sum_purged clientId r.packets ciKey (amount q) key

theorem lost_reset (clientId : ClientId) (es : List Eviction) (key : Bytes) (q : Quantity) :
    lost (es.filter fun e => !ofClient clientId e.key) key q =
      if !ofClient clientId key then lost es key q else 0 :=
  sum_purged clientId es Eviction.key (fun e => e.lost.of q) key

/-- **One purge.** -/
theorem conserved_reset {limits : Limits} {b : DayBucket} {r : Record}
    (hc : Conserved limits b r) (clientId : ClientId) :
    Conserved limits (b.reset clientId) (r.reset clientId) := by
  constructor
  case day => exact hc.day
  case keys =>
    intro key
    rw [DayBucket.reset, mem_keep, hc.keys key]
    simp only [Record.reset, List.mem_filter]
    constructor
    · rintro ⟨hk, p, hp, rfl⟩
      exact ⟨p, ⟨hp, hk⟩, rfl⟩
    · rintro ⟨p, ⟨hp, hk⟩, rfl⟩
      exact ⟨hk, p, hp, rfl⟩
  case flowKeys => exact fun key => by simp only [DayBucket.reset, mem_keep, hc.flowKeys]
  case countryKeys => exact fun key => by simp only [DayBucket.reset, mem_keep, hc.countryKeys]
  case entityKeys => exact fun key => by simp only [DayBucket.reset, mem_keep, hc.entityKeys]
  case totals =>
    intro key q
    rw [DayBucket.reset, get_keep, Record.sum_reset]
    split
    · exact hc.totals key q
    · cases q <;> rfl
  case countryFlows =>
    intro key q
    rw [DayBucket.reset, get_keep, Record.sum_reset]
    split
    · exact hc.countryFlows key q
    · rfl
  case flows =>
    intro key q
    rw [DayBucket.reset, get_keep, Record.sum_reset, Record.reset, lost_reset]
    split
    · exact hc.flows key q
    · rfl
  case entityFlows =>
    intro key q
    rw [DayBucket.reset, get_keep, Record.sum_reset, Record.reset, lost_reset]
    split
    · exact hc.entityFlows key q
    · rfl
  case flowCap =>
    intro key
    rw [DayBucket.reset, get_keep]
    split
    · exact hc.flowCap key
    · exact Nat.zero_le _
  case entityCap =>
    intro key
    rw [DayBucket.reset, get_keep]
    split
    · exact hc.entityCap key
    · exact Nat.zero_le _
  case flowEvictions =>
    intro e he
    exact hc.flowEvictions e (List.mem_filter.mp he).1
  case entityEvictions =>
    intro e he
    exact hc.entityEvictions e (List.mem_filter.mp he).1

/-! ## The buckets of a shard -/

theorem openBucket_concat {β : Type} (day : β → Int) (new : Int → β) (d : Int) (bs : List β)
    (b : β) : openBucket day new d (bs ++ [b]) =
      if day b = d then (bs, b) else (bs ++ [b], new d) := by
  simp [openBucket]

section Forall₂

variable {β γ : Type} {R : β → γ → Prop} {bs : List β} {rs : List γ}

private theorem forall₂_concat_left {b : β} (h : List.Forall₂ R (bs ++ [b]) rs) :
    ∃ r u, rs = u ++ [r] ∧ R b r ∧ List.Forall₂ R bs u := by
  have hrev := List.forall₂_reverse_iff.mpr h
  rw [List.reverse_append, List.reverse_singleton, List.singleton_append,
    List.forall₂_cons_left_iff] at hrev
  obtain ⟨r, u, hr, hu, hrs⟩ := hrev
  refine ⟨r, u.reverse, ?_, hr, ?_⟩
  · rw [← List.reverse_cons, ← hrs, List.reverse_reverse]
  · rwa [← List.forall₂_reverse_iff, List.reverse_reverse]

private theorem forall₂_openBucket {day : β → Int} {day' : γ → Int} (new : Int → β)
    (new' : Int → γ) {d : Int} (hday : ∀ b r, R b r → day b = day' r) (hnew : R (new d) (new' d))
    (h : List.Forall₂ R bs rs) :
    List.Forall₂ R (openBucket day new d bs).1 (openBucket day' new' d rs).1 ∧
      R (openBucket day new d bs).2 (openBucket day' new' d rs).2 := by
  rcases List.eq_nil_or_concat bs with rfl | ⟨bs, b, rfl⟩
  · cases h
    exact ⟨.nil, hnew⟩
  · rw [List.concat_eq_append] at h ⊢
    obtain ⟨r, u, rfl, hr, hu⟩ := forall₂_concat_left h
    rw [openBucket_concat, openBucket_concat, hday b r hr]
    split
    · exact ⟨hu, hr⟩
    · exact ⟨h, hnew⟩

private theorem forall₂_prune (n : Nat) (h : List.Forall₂ R bs rs) :
    List.Forall₂ R (prune n bs) (prune n rs) := by
  rw [prune, prune, h.length_eq]
  exact List.forall₂_drop _ h

end Forall₂

/-- The packets of the records with their days. -/
def dated (rs : List Record) : List (Int × Packet) :=
  rs.flatMap fun r => r.packets.map (r.dayIndex, ·)

theorem dated_suffix {rs rs' : List Record} (h : rs <:+ rs') : dated rs <:+ dated rs' := by
  obtain ⟨t, rfl⟩ := h
  exact ⟨dated t, by simp [dated]⟩

theorem dated_opened (d : Int) (b : DayBucket) (p : Packet) (ev : Evicted) (rs : List Record) :
    dated ((openBucket Record.dayIndex (fun d => { dayIndex := d }) d rs).1 ++
      [(openBucket Record.dayIndex (fun d => { dayIndex := d }) d rs).2.accept b p ev]) =
      dated rs ++ [(d, p)] := by
  rcases List.eq_nil_or_concat rs with rfl | ⟨rs, r, rfl⟩
  · rfl
  · rw [List.concat_eq_append, openBucket_concat]
    split
    · rename_i h
      simp [dated, Record.accept, h]
    · simp [dated, Record.accept]

theorem dated_reset (clientId : ClientId) (rs : List Record) :
    dated (rs.map (Record.reset clientId)) =
      (dated rs).filter fun a => !ofClient clientId (ciKey a.2) := by
  induction rs with
  | nil => rfl
  | cons r rs ih =>
    simp only [dated, List.map_cons, List.flatMap_cons, List.filter_append] at ih ⊢
    rw [ih, List.filter_map]
    rfl

/-! ## The calls -/

/-- What a shard keeps: its buckets agree with the records, the records hold the latest of
the packets that the shard has accepted, and no client has too many interfaces. -/
structure Kept (limits : Limits) (sh : Shard) (rs : List Record) (accepted : List (Int × Packet)) :
    Prop where
  conserved : List.Forall₂ (Conserved limits) sh.dayBuckets rs
  latest : dated rs <:+ accepted
  ifaceCap : ∀ clientId, (get sh.clientIfaces clientId []).length ≤ limits.maxIfacesPerClient

theorem addPacket_spec {limits : Limits} {epochSec : Int} {p : Packet} {o : Orders}
    {sh sh' : Shard} {res : AddResult} (h : sh.addPacket limits epochSec p o = some (sh', res)) :
    (∃ ifaces, sh'.clientIfaces = sh.clientIfaces.insert p.clientId ifaces ∧
      (ifaces = get sh.clientIfaces p.clientId [] ∨
        ifaces.length ≤ limits.maxIfacesPerClient)) ∧
    ((res = .ifaceCapExceeded ∧ sh'.dayBuckets = sh.dayBuckets) ∨
      ∃ ev opened back, openBucket DayBucket.dayIndex (fun d => { dayIndex := d })
          (dayIndex epochSec) sh.dayBuckets = opened ∧
        opened.2.add limits epochSec p o = some (back, ev) ∧ res = .accepted ev ∧
        sh'.dayBuckets = prune limits.windowDays (opened.1 ++ [back])) := by
  unfold Shard.addPacket at h
  dsimp only at h
  split at h
  · cases h
    exact ⟨⟨_, rfl, .inl rfl⟩, .inl ⟨rfl, rfl⟩⟩
  · rename_i hcap
    obtain ⟨⟨back, ev⟩, hadd, h⟩ := Option.map_eq_some_iff.mp h
    cases h
    refine ⟨⟨_, rfl, ?_⟩, .inr ⟨ev, _, back, rfl, hadd, rfl, rfl⟩⟩
    split
    · exact .inl rfl
    · rename_i hnew
      have := not_and.mp hcap hnew
      rw [List.length_append, List.length_singleton]
      omega

private theorem ifaces_kept {cap : Nat} {m m' : Map ClientId (List Bytes)} {clientId : ClientId}
    {ifaces : List Bytes} (hm : ∀ c, (get m c []).length ≤ cap)
    (h : m' = m.insert clientId ifaces)
    (hi : ifaces = get m clientId [] ∨ ifaces.length ≤ cap) (c : ClientId) :
    (get m' c []).length ≤ cap := by
  subst h
  by_cases hc : c = clientId
  · subst hc
    rw [get_insert]
    exact hi.elim (fun h => h ▸ hm _) id
  · rw [get_insert_ne hc]
    exact hm c

theorem kept_packet {limits : Limits} {epochSec : Int} {p : Packet} {o : Orders}
    {sh sh' : Shard} {ev : Evicted} {rs : List Record} {as : List (Int × Packet)}
    (hk : Kept limits sh rs as)
    (h : sh.addPacket limits epochSec p o = some (sh', .accepted ev)) :
    Kept limits sh' (acceptRecord limits epochSec p ev sh rs)
      (as ++ [(dayIndex epochSec, p)]) := by
  obtain ⟨⟨ifaces, hi, hcap⟩, ⟨hres, -⟩ | ⟨_, opened, back, rfl, hadd, hres, hb⟩⟩ := addPacket_spec h
  · cases hres
  cases hres
  obtain ⟨hfront, hback⟩ := forall₂_openBucket (fun d => { dayIndex := d })
    (fun d => { dayIndex := d }) (fun _ _ hc => hc.day)
    (conserved_new limits (dayIndex epochSec)) hk.conserved
  refine ⟨?_, ?_, ?_⟩
  · rw [hb]
    exact forall₂_prune _ (List.rel_append hfront (.cons (conserved_add hback hadd) .nil))
  · refine (dated_suffix (List.drop_suffix _ _)).trans ?_
    rw [dated_opened]
    obtain ⟨t, ht⟩ := hk.latest
    exact ⟨t, by rw [← ht, List.append_assoc]⟩
  · exact ifaces_kept hk.ifaceCap hi hcap

theorem kept_rejected {limits : Limits} {epochSec : Int} {p : Packet} {o : Orders}
    {sh sh' : Shard} {rs : List Record} {as : List (Int × Packet)} (hk : Kept limits sh rs as)
    (h : sh.addPacket limits epochSec p o = some (sh', .ifaceCapExceeded)) :
    Kept limits sh' rs as := by
  obtain ⟨⟨ifaces, hi, hcap⟩, ⟨-, hb⟩ | ⟨_, _, _, -, -, hres, -⟩⟩ := addPacket_spec h
  · exact ⟨hb ▸ hk.conserved, hk.latest, ifaces_kept hk.ifaceCap hi hcap⟩
  · cases hres

theorem kept_purge {limits : Limits} {sh : Shard} {rs : List Record} {as : List (Int × Packet)}
    (hk : Kept limits sh rs as) (clientId : ClientId) :
    Kept limits (sh.purgeClient clientId).1 (rs.map (Record.reset clientId))
      (as.filter fun a => !ofClient clientId (ciKey a.2)) := by
  refine ⟨?_, ?_, ?_⟩
  · refine List.forall₂_map_left_iff.mpr (List.forall₂_map_right_iff.mpr ?_)
    exact hk.conserved.imp fun _ _ hc => conserved_reset hc clientId
  · rw [dated_reset]
    exact hk.latest.filter _
  · intro c
    have h := hk.ifaceCap c
    show (get (sh.clientIfaces.erase clientId) c []).length ≤ _
    by_cases hc : c = clientId
    · subst hc
      simp [Maps.get, AList.lookup_erase]
    · rwa [Maps.get, AList.lookup_erase_ne hc]

/-- The packets that a shard has accepted. -/
def acceptedBy (hash : ClientId → Fin kShardCount) (i : Fin kShardCount)
    (as : List (Int × Packet)) : List (Int × Packet) :=
  as.filter fun a => hash a.2.clientId = i

def Keeps (limits : Limits) (hash : ClientId → Fin kShardCount) (s : State) : Prop :=
  ∀ i, Kept limits (s.stats.shards i) (s.records i) (acceptedBy hash i s.accepted)

theorem keeps_step {limits : Limits} {hash : ClientId → Fin kShardCount} {s s' : State} {c : Call}
    (hk : Keeps limits hash s) (h : step limits hash s c = some s') : Keeps limits hash s' := by
  cases c with
  | addPacket epochSec p o =>
    simp only [step] at h
    split at h
    · cases h
    · rename_i sh hadd
      cases h
      intro i
      by_cases hi : i = hash p.clientId
      · subst hi
        simpa using kept_rejected (hk _) hadd
      · simpa [hi] using hk i
    · rename_i sh ev hadd
      cases h
      intro i
      by_cases hi : i = hash p.clientId
      · subst hi
        simpa [acceptedBy] using kept_packet (hk _) hadd
      · simpa [acceptedBy, hi, Ne.symm hi] using hk i
  | purgeClient clientId =>
    cases h
    intro i
    by_cases hi : i = hash clientId
    · subst hi
      have hpurged := kept_purge (hk (hash clientId)) clientId
      have has : acceptedBy hash (hash clientId) (s.accepted.filter fun a =>
          !(hash a.2.clientId = hash clientId && ofClient clientId (ciKey a.2))) =
          (acceptedBy hash (hash clientId) s.accepted).filter
            fun a => !ofClient clientId (ciKey a.2) := by
        simp only [acceptedBy, List.filter_filter]
        refine List.filter_congr fun a _ => ?_
        by_cases ha : hash a.2.clientId = hash clientId <;> simp [ha]
      simp only [Function.update_self, has]
      exact hpurged
    · have has : acceptedBy hash i (s.accepted.filter fun a =>
          !(hash a.2.clientId = hash clientId && ofClient clientId (ciKey a.2))) =
          acceptedBy hash i s.accepted := by
        simp only [acceptedBy, List.filter_filter]
        refine List.filter_congr fun a _ => ?_
        by_cases ha : hash a.2.clientId = i
        · simp [ha, hi]
        · simp [ha]
      simp only [Function.update_of_ne hi, has]
      exact hk i

/-! ## Snapshots -/

/-- What a snapshot holds: for every key, and for every flow of a key, the sums over the
buckets (which are exact below 2^64), and nothing but the keys and flows of the buckets. -/
structure SnapshotExact (bs : List DayBucket) (out : Snapshot) : Prop where
  totals : ∀ key q, (get out.totals key {}).of q =
    (bs.map fun b => (get b.totals key {}).of q).sum % 2 ^ 64
  flows : ∀ key flow q, (get (get out.flows key ∅) flow {}).of q =
    (bs.map fun b => (get (get b.flows key ∅) flow {}).of q).sum % 2 ^ 64
  countryFlows : ∀ key flow q, (get (get out.countryFlows key ∅) flow {}).of q =
    (bs.map fun b => (get (get b.countryFlows key ∅) flow {}).of q).sum % 2 ^ 64
  entityFlows : ∀ key flow q, (get (get out.entityFlows key ∅) flow {}).of q =
    (bs.map fun b => (get (get b.entityFlows key ∅) flow {}).of q).sum % 2 ^ 64
  keys : ∀ key, key ∈ out.totals ↔ ∃ b ∈ bs, key ∈ b.totals
  flowKeys : ∀ key, key ∈ out.flows ↔ ∃ b ∈ bs, key ∈ b.flows
  countryKeys : ∀ key, key ∈ out.countryFlows ↔ ∃ b ∈ bs, key ∈ b.countryFlows
  entityKeys : ∀ key, key ∈ out.entityFlows ↔ ∃ b ∈ bs, key ∈ b.entityFlows

theorem Counter.of_accumulate (q : Quantity) (c x : Counter) :
    (c.accumulate x).of q = (c.of q + x.of q) % 2 ^ 64 := by
  cases q <;> rfl

theorem FlowStats.of_accumulate (q : Quantity) (c x : FlowStats) :
    (c.accumulate x).of q = (c.of q + x.of q) % 2 ^ 64 := by
  cases q <;> rfl

@[simp] theorem Counter.of_default (q : Quantity) : Counter.of q {} = 0 := by
  cases q <;> rfl

@[simp] theorem FlowStats.of_default (q : Quantity) : FlowStats.of q {} = 0 := by
  cases q <;> rfl

/-- Two levels of merging. -/
private theorem get_foldl_flows {V : Type} {f : V → V → V} {d : V} {g : V → Nat} (hd : g d = 0)
    (hf : ∀ v w, g (f v w) = (g v + g w) % 2 ^ 64) (ms : List (Map Bytes (Map FlowKey V)))
    (key : Bytes) (flow : FlowKey) :
    g (get (get (ms.foldl (mergeInto (mergeInto f d) ∅) ∅) key ∅) flow d) =
      (ms.map fun m => g (get (get m key ∅) flow d)).sum % 2 ^ 64 := by
  refine get_foldl_mergeInto (g := fun m => g (get m flow d)) (h := fun m => g (get m flow d))
    (n := 2 ^ 64) (by decide) (by simp [hd]) (by simp [hd]) ?_ ms key
  intro v w hv
  rw [get_mergeInto]
  cases hw : w.lookup flow with
  | none =>
    have hget : get w flow d = d := get_of_notMem (AList.lookup_eq_none.mp hw)
    rw [Option.elim_none, hget, hd, Nat.add_zero, Nat.mod_eq_of_lt hv]
  | some x =>
    have hget : get w flow d = x := by rw [Maps.get, hw, Option.getD_some]
    rw [Option.elim_some, hf, hget]

theorem foldl_addBucket (bs : List DayBucket) : bs.foldl Snapshot.addBucket {} =
    { totals := (bs.map DayBucket.totals).foldl (mergeInto Counter.accumulate {}) ∅
      flows := (bs.map DayBucket.flows).foldl (mergeInto (mergeInto FlowStats.accumulate {}) ∅) ∅
      countryFlows := (bs.map DayBucket.countryFlows).foldl
        (mergeInto (mergeInto Counter.accumulate {}) ∅) ∅
      entityFlows := (bs.map DayBucket.entityFlows).foldl
        (mergeInto (mergeInto Counter.accumulate {}) ∅) ∅ } := by
  induction bs using List.reverseRecOn with
  | nil => rfl
  | append_singleton bs b ih =>
    simp only [List.foldl_append, List.foldl_cons, List.foldl_nil, ih, List.map_append,
      List.map_singleton]
    rfl

/-- **Snapshots.** -/
theorem snapshotExact (bs : List DayBucket) : SnapshotExact bs (bs.foldl Snapshot.addBucket {}) := by
  rw [foldl_addBucket]
  constructor
  case totals =>
    intro key q
    rw [get_foldl_mergeInto (by decide) (Counter.of_default q) (Counter.of_default q)
      (fun v w _ => Counter.of_accumulate q v w), List.map_map]
    rfl
  case flows =>
    intro key flow q
    rw [get_foldl_flows (FlowStats.of_default q) (FlowStats.of_accumulate q), List.map_map]
    rfl
  case countryFlows =>
    intro key flow q
    rw [get_foldl_flows (Counter.of_default q) (Counter.of_accumulate q), List.map_map]
    rfl
  case entityFlows =>
    intro key flow q
    rw [get_foldl_flows (Counter.of_default q) (Counter.of_accumulate q), List.map_map]
    rfl
  all_goals
    intro key
    simp only [mem_foldl_mergeInto, List.mem_map, exists_exists_and_eq_and]

/-! ## Every run -/

/-- The address and entity flows of a key stay within its total, and reach it as long as
nothing was evicted from their map. -/
structure FlowsWithinTotal (b : DayBucket) (r : Record) : Prop where
  flows_le : ∀ key q, total (FlowStats.of q) (get b.flows key ∅) ≤ (get b.totals key {}).of q
  flows_eq : ∀ key q, (∀ e ∈ r.flowEvictions, e.key ≠ key) →
    total (FlowStats.of q) (get b.flows key ∅) = (get b.totals key {}).of q
  entityFlows_le : ∀ key q,
    total (Counter.of q) (get b.entityFlows key ∅) ≤ (get b.totals key {}).of q
  entityFlows_eq : ∀ key q, (∀ e ∈ r.entityEvictions, e.key ≠ key) →
    total (Counter.of q) (get b.entityFlows key ∅) = (get b.totals key {}).of q

theorem lost_eq_zero {es : List Eviction} {key : Bytes} (h : ∀ e ∈ es, e.key ≠ key)
    (q : Quantity) : lost es key q = 0 := by
  have hnil : (es.filter fun e => e.key = key) = [] := by
    simpa [List.filter_eq_nil_iff] using h
  rw [lost, hnil]
  rfl

theorem Conserved.flowsWithinTotal {limits : Limits} {b : DayBucket} {r : Record}
    (hc : Conserved limits b r) : FlowsWithinTotal b r := by
  constructor
  case flows_le =>
    intro key q
    rw [hc.totals, ← hc.flows key q]
    exact Nat.le_add_right _ _
  case flows_eq =>
    intro key q h
    rw [hc.totals, ← hc.flows key q, lost_eq_zero h, Nat.add_zero]
  case entityFlows_le =>
    intro key q
    rw [hc.totals, ← hc.entityFlows key q]
    exact Nat.le_add_right _ _
  case entityFlows_eq =>
    intro key q h
    rw [hc.totals, ← hc.entityFlows key q, lost_eq_zero h, Nat.add_zero]

/-- What holds of the statistics: each bucket agrees with its record, the records hold the
latest of the packets accepted by the shard, no client has too many interfaces, and a
snapshot holds the sums over the retained buckets of all shards. -/
structure Conservation (limits : Limits) (hash : ClientId → Fin kShardCount) (s : State) :
    Prop where
  buckets : ∀ i, List.Forall₂ (fun b r => Conserved limits b r ∧ FlowsWithinTotal b r)
    (s.stats.shards i).dayBuckets (s.records i)
  latest : ∀ i, dated (s.records i) <:+ acceptedBy hash i s.accepted
  ifaceCap : ∀ i clientId,
    (get (s.stats.shards i).clientIfaces clientId []).length ≤ limits.maxIfacesPerClient
  snapshot : SnapshotExact s.stats.buckets s.stats.snapshot

theorem keeps_of_run {limits : Limits} {hash : ClientId → Fin kShardCount} {calls : List Call}
    {s : State} (hr : run (step limits hash) {} calls = some s) : Keeps limits hash s := by
  refine invariant_of_run (I := Keeps limits hash) (fun _ _ _ => keeps_step) ?_ hr
  intro i
  refine ⟨.nil, List.nil_suffix, fun clientId => ?_⟩
  simp

/-- **Conservation.** -/
theorem conserved_of_run (limits : Limits) (hash : ClientId → Fin kShardCount)
    (calls : List Call) (s : State) (hr : run (step limits hash) {} calls = some s) :
    Conservation limits hash s := by
  have hk := keeps_of_run hr
  constructor
  case buckets =>
    intro i
    exact (hk i).conserved.imp fun _ _ hc => ⟨hc, hc.flowsWithinTotal⟩
  case latest => exact fun i => (hk i).latest
  case ifaceCap => exact fun i => (hk i).ifaceCap
  case snapshot => exact snapshotExact s.stats.buckets

/-! A client whose second address flow takes the place of the first, and a purge. -/

private def samplePacket (clientId dst : String) (bytes : Nat) : Packet :=
  ⟨ascii clientId, ascii "eth0", ascii "10.0.0.5", ascii dst, ascii "LAN", ascii "DE", ascii "LAN",
    ascii "e", bytes⟩

private def sampleCalls : List Call :=
  [.addPacket 100 (samplePacket "a" "9.9.9.9" 60) {},
    .addPacket 200 (samplePacket "a" "8.8.8.8" 40) ⟨[⟨ascii "10.0.0.5", ascii "9.9.9.9"⟩], []⟩,
    .addPacket 86400 (samplePacket "b" "9.9.9.9" 70) {}, .purgeClient (ascii "b")]

theorem conserved_of_run_eviction :
    ∃ s, run (step (Limits.of 7 1 1 1) fun _ => 3) {} sampleCalls = some s ∧
      (s.records 3).map (fun r => (r.packets.length, r.flowEvictions.length)) = [(2, 1), (0, 0)] ∧
      Conservation (Limits.of 7 1 1 1) (fun _ => 3) s := by
  have h : (run (step (Limits.of 7 1 1 1) fun _ => 3) {} sampleCalls).map (fun s =>
      (s.records 3).map fun r => (r.packets.length, r.flowEvictions.length)) =
      some [(2, 1), (0, 0)] := by decide +kernel
  obtain ⟨s, hs, hr⟩ := Option.map_eq_some_iff.mp h
  exact ⟨s, hs, hr, conserved_of_run _ _ _ s hs⟩

end TrafficMonitor.Stats
