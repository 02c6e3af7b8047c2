import TrafficMonitor.Basic.StampedRing
import TrafficMonitor.Stats.DayOrder

/-!
# The traffic history of a client (`ntm_types.hpp`, `TrafficStats`)

Every accepted packet is counted in two rings of its client, 1440 slots of a minute and 168
of an hour, each slot stamped with its minute or hour. Beside the statistics stands the log
of the packets accepted since the last purge of their client. Proved here:

* `content_samples`: what a slot holds of an epoch are its sums, modulo 2^64;
* `rings_of_run`: in every run the rings hold what the log puts into a ring of stamped slots;
* `samples_sorted`: a clock that does not go back puts the epochs in order.
-/

namespace TrafficMonitor.History

open Bytes Maps Sessions Runs Stats StampedRing

/-! ## Runs with a log -/

structure State where
  base : Stats.State := {}
  /-- The packets accepted since the last purge of their client, with their times. -/
  log : List (Int × Packet) := []

/-- A packet that is not turned away is logged, a purge takes a client's packets out. -/
def State.logAfter (limits : Limits) (hash : ClientId → Fin kShardCount) (s : State) :
    Call → List (Int × Packet)
  | .addPacket epochSec p _ =>
    if (s.base.stats.shards (hash p.clientId)).Rejects limits p then s.log
    else s.log ++ [(epochSec, p)]
  | .purgeClient c => s.log.filter fun a => a.2.clientId ≠ c

def step (limits : Limits) (hash : ClientId → Fin kShardCount) (s : State) (c : Call) :
    Option State :=
  match Stats.step limits hash s.base c with
  | none => none
  | some base => some { base := base, log := s.logAfter limits hash c }

/-- The log of one client. -/
def State.logOf (s : State) (c : ClientId) : List (Int × Packet) :=
  s.log.filter fun a => a.2.clientId = c

/-- The times of the packets, in order. -/
def times (calls : List Call) : List Int :=
  calls.filterMap fun
    | .addPacket epochSec _ _ => some epochSec
    | .purgeClient _ => none

def State.snapshotHistory (limits : Limits) (hash : ClientId → Fin kShardCount) (s : State)
    (nowSec : Int) (c : ClientId) (minutes : Int) : ClientHistorySnapshot :=
  (s.base.stats.shards (hash c)).snapshotHistory limits nowSec c minutes

/-! ## What is asked for -/

/-- Bytes that arrive at a LAN address count as "in". -/
def isIn (p : Packet) : Bool := isLanIP p.dstIp && !isLanIP p.srcIp

/-- Epochs of `unit` seconds. -/
def epochOf (unit : Nat) (epochSec : Int) : Nat := epochSec.toNat / unit

/-- The packets of one epoch. -/
def packetsOf (unit : Nat) (as : List (Int × Packet)) (e : Nat) : List Packet :=
  (as.filter fun a => epochOf unit a.1 = e).map (·.2)

/-- What packets add up to. -/
def sums (e : Nat) (ps : List Packet) : HistorySlot where
  epoch := e
  inBytes := ((ps.filter isIn).map (·.bytes)).sum
  outBytes := ((ps.filter (!isIn ·)).map (·.bytes)).sum
  inPackets := (ps.filter isIn).length
  outPackets := (ps.filter (!isIn ·)).length

/-- The bucket that a history should have for an epoch. -/
def exactBucket (unit : Nat) (as : List (Int × Packet)) (e : Nat) : HistoryBucket :=
  (sums e (packetsOf unit as e)).bucket (e * unit)

/-- The sums fit into the counters of a slot. -/
structure Fits (s : HistorySlot) : Prop where
  inBytes : s.inBytes < 2 ^ 64
  outBytes : s.outBytes < 2 ^ 64
  inPackets : s.inPackets < 2 ^ 64
  outPackets : s.outPackets < 2 ^ 64

/-! ## The rings as stamped slots -/

/-- A slot with its counters as `uint64_t`. -/
def wrap (s : HistorySlot) : HistorySlot where
  epoch := s.epoch
  inBytes := s.inBytes % 2 ^ 64
  outBytes := s.outBytes % 2 ^ 64
  inPackets := s.inPackets % 2 ^ 64
  outPackets := s.outPackets % 2 ^ 64

/-- The slots of the two rings. -/
def slots : Slots HistorySlot Packet where
  stamp := (·.epoch)
  fresh e := { epoch := e }
  put s p := s.add (isIn p) p.bytes
  stamp_fresh _ := rfl
  stamp_put s p := by
    unfold HistorySlot.add
    split <;> rfl

def samples (unit : Nat) (as : List (Int × Packet)) : List (Nat × Packet) :=
  as.map fun a => (epochOf unit a.1, a.2)

theorem fits_iff {s : HistorySlot} : Fits s ↔ wrap s = s := by
  constructor
  · intro h
    simp only [wrap, Nat.mod_eq_of_lt h.inBytes, Nat.mod_eq_of_lt h.outBytes,
      Nat.mod_eq_of_lt h.inPackets, Nat.mod_eq_of_lt h.outPackets]
  · intro h
    have hlt : ∀ a : Nat, a % 2 ^ 64 < 2 ^ 64 := fun a => Nat.mod_lt a (by decide)
    constructor <;> rw [← h]
    · exact hlt _
    · exact hlt _
    · exact hlt _
    · exact hlt _

/-- One packet more in a slot. -/
theorem wrap_sums_snoc (e : Nat) (ps : List Packet) (p : Packet) :
    wrap (sums e (ps ++ [p])) =
      (wrap (sums e ps)).add (isIn p) p.bytes := by
  cases hp : isIn p <;>
    simp [wrap, sums, HistorySlot.add, add64, hp, List.filter_append]

/-- The content of an epoch is its sums, modulo 2^64. -/
theorem content_samples (unit : Nat) (as : List (Int × Packet)) (e : Nat) :
    content slots (samples unit as) e = wrap (sums e (packetsOf unit as e)) := by
  induction as using List.reverseRecOn with
  | nil => rfl
  | append_singleton as a ih =>
    have hs : samples unit (as ++ [a]) = samples unit as ++ [(epochOf unit a.1, a.2)] := by
      simp [samples]
    rw [hs, content_snoc, ih]
    by_cases he : epochOf unit a.1 = e
    · have hp : packetsOf unit (as ++ [a]) e = packetsOf unit as e ++ [a.2] := by
        simp [packetsOf, he]
      rw [if_pos he, hp, wrap_sums_snoc]
      rfl
    · have hp : packetsOf unit (as ++ [a]) e = packetsOf unit as e := by
        simp [packetsOf, he]
      rw [if_neg he, hp]

theorem get_addToRing (n e : Nat) (p : Packet) (ring : Map Nat HistorySlot) (k : Nat) :
    get (addToRing n e (isIn p) p.bytes ring) k {} =
      write slots n (fun j => get ring j {}) (e, p) k := by
  unfold addToRing write
  by_cases hk : k = e % n
  · subst hk
    rw [get_insert, Function.update_self]
    by_cases he : (get ring (e % n) {}).epoch = e
    · simp [slots, he]
    · simp [slots, he]
  · rw [get_insert_ne hk, Function.update_of_ne hk]

/-! ## Every run -/

variable {limits : Limits} {hash : ClientId → Fin kShardCount}

theorem step_eq_some {s s' : State} {c : Call} : step limits hash s c = some s' ↔
    ∃ base, Stats.step limits hash s.base c = some base ∧
      s' = { base := base, log := s.logAfter limits hash c } := by
  unfold step
  cases Stats.step limits hash s.base c <;> simp [eq_comm]

/-- The rings of a client in its shard. -/
def State.ring (hash : ClientId → Fin kShardCount) (s : State) (c : ClientId) : ClientHistoryRing :=
  get (s.base.stats.shards (hash c)).clientHistory c {}

/-- The two rings of a client hold its log. -/
structure RingKept (r : ClientHistoryRing) (as : List (Int × Packet)) : Prop where
  minutes : (fun k => get r.minutes k {}) = collect slots kMinuteSlots (samples 60 as)
  hours : (fun k => get r.hours k {}) = collect slots kHourSlots (samples 3600 as)

def RingsKept (hash : ClientId → Fin kShardCount) (s : State) : Prop :=
  ∀ c, RingKept (s.ring hash c) (s.logOf c)

theorem ringKept_empty : RingKept {} [] := by
  constructor <;> exact funext fun k => by simp; rfl

theorem ringKept_add {r : ClientHistoryRing} {as : List (Int × Packet)} (h : RingKept r as)
    (epochSec : Int) (p : Packet) : RingKept (r.add epochSec p) (as ++ [(epochSec, p)]) := by
  have hsample : ∀ unit, samples unit (as ++ [(epochSec, p)]) =
      samples unit as ++ [(epochOf unit epochSec, p)] := fun unit => by simp [samples]
  constructor
  · rw [hsample, collect_snoc, ← h.minutes]
    exact funext fun k => get_addToRing _ _ _ _ _
  · rw [hsample, collect_snoc, ← h.hours]
    exact funext fun k => get_addToRing _ _ _ _ _

theorem clientHistory_rejected {epochSec : Int} {p : Packet} {o : Orders} {sh sh' : Shard}
    {res : AddResult} (hr : sh.Rejects limits p)
    (h : sh.addPacket limits epochSec p o = some (sh', res)) :
    sh'.clientHistory = sh.clientHistory := by
  rw [addPacket_of_rejects hr] at h
  cases h
  rfl

theorem clientHistory_accepted {epochSec : Int} {p : Packet} {o : Orders} {sh sh' : Shard}
    {ev : Evicted} (h : sh.addPacket limits epochSec p o = some (sh', .accepted ev)) :
    sh'.clientHistory =
      sh.clientHistory.insert p.clientId ((get sh.clientHistory p.clientId {}).add epochSec p) := by
  unfold Shard.addPacket at h
  dsimp only at h
  split at h
  · cases h
  · obtain ⟨_, _, h⟩ := Option.map_eq_some_iff.mp h
    cases h
    rfl

theorem logOf_snoc (s : State) (base : Stats.State) (epochSec : Int) (p : Packet) (c : ClientId) :
    State.logOf ⟨base, s.log ++ [(epochSec, p)]⟩ c =
      if p.clientId = c then s.logOf c ++ [(epochSec, p)] else s.logOf c := by
  by_cases h : p.clientId = c <;> simp [State.logOf, h]

theorem logOf_purge (s : State) (base : Stats.State) (d c : ClientId) :
    State.logOf ⟨base, s.log.filter fun a => a.2.clientId ≠ d⟩ c =
      if c = d then [] else s.logOf c := by
  simp only [State.logOf, List.filter_filter]
  split
  · rename_i h
    simp [h]
  · rename_i h
    refine List.filter_congr fun a _ => ?_
    by_cases ha : a.2.clientId = c <;> simp [ha, h]

theorem ringsKept_accepted {s : State} {base : Stats.State} {epochSec : Int} {p : Packet}
    {o : Orders} {ev : Evicted} (hi : RingsKept hash s)
    (hs : Stats.step limits hash s.base (.addPacket epochSec p o) = some base)
    (hadd : (s.base.stats.shards (hash p.clientId)).addPacket limits epochSec p o =
      some (base.stats.shards (hash p.clientId), .accepted ev)) :
    RingsKept hash ⟨base, s.log ++ [(epochSec, p)]⟩ := by
  have hhist := clientHistory_accepted hadd
  have hring : State.ring hash ⟨base, s.log ++ [(epochSec, p)]⟩ p.clientId =
      (s.ring hash p.clientId).add epochSec p := by
    simp only [State.ring, hhist, get_insert]
  have hother : ∀ c, c ≠ p.clientId →
      (base.stats.shards (hash c)).clientHistory.lookup c =
        (s.base.stats.shards (hash c)).clientHistory.lookup c := by
    intro c hc
    by_cases hh : hash c = hash p.clientId
    · rw [hh, hhist, AList.lookup_insert_ne hc]
    · rw [shards_of_ne hs hh]
  have hsame : ∀ c, c ≠ p.clientId → State.ring hash ⟨base, s.log ++ [(epochSec, p)]⟩ c =
      s.ring hash c := fun c hc => by simp only [State.ring, Maps.get, hother c hc]
  intro c
  rw [logOf_snoc]
  split
  · rename_i h
    subst h
    rw [hring]
    exact ringKept_add (hi _) epochSec p
  · rename_i h
    rw [hsame c (Ne.symm h)]
    exact hi c

theorem ringsKept_step {s s' : State} {c : Call} (hi : RingsKept hash s)
    (h : step limits hash s c = some s') : RingsKept hash s' := by
  obtain ⟨base, hs, rfl⟩ := step_eq_some.mp h
  cases c with
  | addPacket epochSec p o =>
    obtain ⟨res, hadd⟩ := shard_step hs
    by_cases hr : (s.base.stats.shards (hash p.clientId)).Rejects limits p
    · have hsame : ∀ c, (base.stats.shards (hash c)).clientHistory =
          (s.base.stats.shards (hash c)).clientHistory := by
        intro c
        by_cases hh : hash c = hash p.clientId
        · rw [hh]
          exact clientHistory_rejected hr hadd
        · rw [shards_of_ne hs hh]
      have hring : ∀ log c, State.ring hash ⟨base, log⟩ c = s.ring hash c := fun log c => by
        simp only [State.ring, hsame]
      simp only [State.logAfter, hr, ↓reduceIte]
      intro c
      rw [hring]
      exact hi c
    · obtain ⟨ev, rfl⟩ := accepted_of_not_rejects hr hadd
      simp only [State.logAfter, hr, ↓reduceIte]
      exact ringsKept_accepted hi hs hadd
  | purgeClient d =>
    have hbase : base.stats.shards = Function.update s.base.stats.shards (hash d)
        ((s.base.stats.shards (hash d)).purgeClient d).1 := by
      cases hs
      rfl
    have hlookup : ∀ c, (base.stats.shards (hash c)).clientHistory.lookup c =
        if c = d then none else (s.base.stats.shards (hash c)).clientHistory.lookup c := by
      intro c
      rw [hbase]
      by_cases hh : hash c = hash d
      · rw [hh, Function.update_self]
        by_cases hc : c = d
        · subst hc
          rw [if_pos rfl]
          exact AList.lookup_erase _ _
        · rw [if_neg hc]
          exact AList.lookup_erase_ne hc
      · have hc : c ≠ d := fun e => hh (by rw [e])
        rw [Function.update_of_ne hh, if_neg hc]
    have hring : ∀ c log, State.ring hash ⟨base, log⟩ c = if c = d then {} else s.ring hash c := by
      intro c log
      simp only [State.ring, Maps.get, hlookup]
      split <;> rfl
    simp only [State.logAfter]
    intro c
    rw [logOf_purge, hring]
    split
    · exact ringKept_empty
    · exact hi c

/-- **The rings.** -/
theorem rings_of_run {calls : List Call} {s : State}
    (hr : run (step limits hash) {} calls = some s) : RingsKept hash s :=
  invariant_of_run (I := RingsKept hash) (fun _ _ _ hi hs => ringsKept_step hi hs)
    (s := {}) (fun _ => ringKept_empty) hr

theorem times_snoc (calls : List Call) (c : Call) :
    times (calls ++ [c]) = times calls ++ times [c] := by
  simp [times, List.filterMap_append]

/-- The log keeps the order of the calls. -/
theorem log_sublist {calls : List Call} {s : State}
    (hr : run (step limits hash) {} calls = some s) :
    (s.log.map (·.1)).Sublist (times calls) := by
  induction calls using List.reverseRecOn generalizing s with
  | nil =>
    cases hr
    exact List.Sublist.refl _
  | append_singleton calls c ih =>
    obtain ⟨s₁, hr₁, hs⟩ := run_snoc_eq_some.mp hr
    obtain ⟨base, -, rfl⟩ := step_eq_some.mp hs
    rw [times_snoc]
    have hold := ih hr₁
    cases c with
    | addPacket epochSec p o =>
      simp only [State.logAfter]
      split
      · exact hold.trans (List.sublist_append_left _ _)
      · rw [List.map_append]
        exact hold.append (List.Sublist.refl _)
    | purgeClient d =>
      have hpurged := (List.filter_sublist (p := fun a => decide (a.2.clientId ≠ d))
        (l := s₁.log)).map (·.1)
      exact (hpurged.trans hold).trans (List.sublist_append_left _ _)

theorem mem_times_of_mem_log {calls : List Call} {s : State}
    (hr : run (step limits hash) {} calls = some s) {c : ClientId} {a : Int × Packet}
    (ha : a ∈ s.logOf c) : a.1 ∈ times calls :=
  (log_sublist hr).subset (List.mem_map.mpr ⟨a, List.mem_of_mem_filter ha, rfl⟩)

theorem epochOf_mono (unit : Nat) {a b : Int} (h : a ≤ b) : epochOf unit a ≤ epochOf unit b :=
  Nat.div_le_div_right (by omega)

/-- The samples of a client come in the order of their epochs. -/
theorem samples_sorted {calls : List Call} {s : State}
    (hclock : (times calls).Pairwise (· ≤ ·)) (hr : run (step limits hash) {} calls = some s)
    (unit : Nat) (c : ClientId) : (samples unit (s.logOf c)).Pairwise fun x y => x.1 ≤ y.1 := by
  have hfilter : (s.logOf c).Sublist s.log := List.filter_sublist
  have hsub : ((s.logOf c).map (·.1)).Sublist (times calls) :=
    (hfilter.map (·.1)).trans (log_sublist hr)
  have hlog : (s.logOf c).Pairwise fun a b => a.1 ≤ b.1 := List.pairwise_map.mp (hclock.sublist hsub)
  exact List.pairwise_map.mpr (hlog.imp fun h => epochOf_mono unit h)

/-- The log has packets of an epoch when one of its samples is of that epoch. -/
theorem packetsOf_ne_nil {unit : Nat} {as : List (Int × Packet)} {e : Nat} :
    packetsOf unit as e ≠ [] ↔ ∃ x ∈ samples unit as, x.1 = e := by
  simp only [packetsOf, samples, ne_eq, List.map_eq_nil_iff, List.filter_eq_nil_iff,
    decide_eq_true_eq, not_forall, not_not, exists_prop, List.mem_map, exists_exists_and_eq_and]

theorem fits_nil (e : Nat) : Fits (sums e []) := by
  constructor <;> simp [sums]

theorem bucket_wrap {unit : Nat} {as : List (Int × Packet)} {e : Nat} :
    (wrap (sums e (packetsOf unit as e))).bucket (e * unit) = exactBucket unit as e ↔
      Fits (sums e (packetsOf unit as e)) := by
  rw [fits_iff, exactBucket]
  generalize sums e (packetsOf unit as e) = s
  cases s
  simp [HistorySlot.bucket, wrap]

theorem exactBucket_inj {unit : Nat} (hu : 0 < unit) {as : List (Int × Packet)} {d e : Nat}
    {s : HistorySlot} (h : s.bucket (d * unit) = exactBucket unit as e) : d = e := by
  have ht : d * unit = e * unit := congrArg HistoryBucket.t h
  exact Nat.eq_of_mul_eq_mul_right hu ht

/-! Two packets of a client, in the two minutes after the 25th hour has begun. -/

def examplePacket (iface : String) (bytes : Nat) : Packet :=
  ⟨ascii "a", ascii iface, ascii "10.0.0.5", ascii "9.9.9.9", ascii "LAN", ascii "DE", ascii "LAN",
    ascii "e", bytes⟩

def twoMinutes : List Call :=
  [90000, 90065].map fun epochSec => .addPacket epochSec (examplePacket "eth0" 60) {}

theorem twoMinutes_run :
    ∃ s, run (step (Limits.of 7 9 9 9) fun _ => 3) {} twoMinutes = some s ∧
      s.logOf (ascii "a") = [(90000, examplePacket "eth0" 60), (90065, examplePacket "eth0" 60)] := by
  have h : (run (step (Limits.of 7 9 9 9) fun _ => 3) {} twoMinutes).map (·.logOf (ascii "a")) =
      some [(90000, examplePacket "eth0" 60), (90065, examplePacket "eth0" 60)] := by
    decide +kernel
  exact Option.map_eq_some_iff.mp h

end TrafficMonitor.History
