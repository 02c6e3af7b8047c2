import TrafficMonitor.Basic.Rolling
import TrafficMonitor.Stats.Conservation

/-!
# The rolling window (`ntm_types.hpp`, `TrafficStats`)

A shard drops its oldest day bucket when it opens one too many, and at no other time. So
it keeps the last `windowDays` days on which it accepted a packet, and these are the last
days of the calendar only if there were no idle days.

Proved here:

* `counted_of_run`: in every run of packets at times that do not decrease, a shard keeps
  the groups of the last days that it has accepted packets on;
* `windowExact_iff`: a snapshot is of exactly the days of the window if and only if every
  shard either accepted nothing before it, or accepted a packet on each of its days;
* `idle_days_are_not_counted`: the traffic of a client that fell silent stays for good.
-/

namespace TrafficMonitor.Stats

open Bytes Maps Sessions Runs Rolling

/-! ## Runs of packets -/

structure Arrival where
  epochSec : Int
  packet : Packet
  orders : Orders := {}
  deriving DecidableEq

def Arrival.call (a : Arrival) : Call := .addPacket a.epochSec a.packet a.orders

/-- The packets of every record, under its day. -/
def groups (rs : List Record) : List (Int × List Packet) := rs.map fun r => (r.dayIndex, r.packets)

theorem flat_groups (rs : List Record) : flat (groups rs) = dated rs := by
  simp [flat, groups, dated, List.flatMap_map]

theorem groups_prune (w : Nat) (rs : List Record) :
    groups (prune w rs) = (groups rs).drop ((groups rs).length - w) := by
  simp [groups, prune, List.map_drop]

theorem groups_acceptRecord (limits : Limits) (epochSec : Int) (p : Packet) (ev : Evicted)
    (sh : Shard) (rs : List Record) : groups (acceptRecord limits epochSec p ev sh rs) =
      arrive limits.windowDays (dayIndex epochSec) p (groups rs) := by
  have hjoin : ∀ b, groups ((openBucket Record.dayIndex (fun d => { dayIndex := d })
      (dayIndex epochSec) rs).1 ++ [(openBucket Record.dayIndex (fun d => { dayIndex := d })
      (dayIndex epochSec) rs).2.accept b p ev]) = join (dayIndex epochSec) p (groups rs) := by
    intro b
    rcases List.eq_nil_or_concat rs with rfl | ⟨rs, r, rfl⟩
    · rfl
    · have hg : groups (rs ++ [r]) = groups rs ++ [(r.dayIndex, r.packets)] := by simp [groups]
      rw [List.concat_eq_append, hg, join_concat, openBucket_concat]
      split
      · rename_i h
        simp [groups, Record.accept, h]
      · simp [groups, Record.accept]
  rw [acceptRecord, groups_prune, hjoin, arrive]

theorem dayIndex_eq (epochSec : Int) : dayIndex epochSec = epochSec / 86400 := by
  unfold dayIndex
  split
  · rename_i h
    exact Int.tdiv_eq_ediv_of_nonneg h
  · rename_i h
    have hneg : (epochSec - 86399).tdiv 86400 = -((86399 - epochSec).tdiv 86400) := by
      rw [← Int.neg_tdiv, Int.neg_sub]
    rw [hneg, Int.tdiv_eq_ediv_of_nonneg (by omega)]
    omega

theorem dayIndex_mono {a b : Int} (h : a ≤ b) : dayIndex a ≤ dayIndex b := by
  rw [dayIndex_eq, dayIndex_eq]
  omega

/-- The accepted packets are of days of the run, and every shard keeps the groups of the
last days. -/
structure DaysKept (limits : Limits) (hash : ClientId → Fin kShardCount) (arrivals : List Arrival)
    (s : State) : Prop where
  days : ∀ a ∈ s.accepted, ∃ x ∈ arrivals, a.1 = dayIndex x.epochSec
  counted : ∀ i, Counted limits.windowDays (groups (s.records i)) (acceptedBy hash i s.accepted)
  length : ∀ i, (groups (s.records i)).length ≤ limits.windowDays

theorem daysKept_step {limits : Limits} {hash : ClientId → Fin kShardCount} {s s' : State}
    {arrivals : List Arrival} {x : Arrival} (hk : DaysKept limits hash arrivals s)
    (hx : ∀ y ∈ arrivals, y.epochSec ≤ x.epochSec)
    (h : step limits hash s x.call = some s') : DaysKept limits hash (arrivals ++ [x]) s' := by
  have hdays : ∀ a ∈ s.accepted, ∃ y ∈ arrivals ++ [x], a.1 = dayIndex y.epochSec := by
    intro a ha
    obtain ⟨y, hy, hay⟩ := hk.days a ha
    exact ⟨y, List.mem_append_left _ hy, hay⟩
  simp only [step, Arrival.call] at h
  split at h
  · cases h
  · cases h
    exact ⟨hdays, hk.counted, hk.length⟩
  · rename_i sh ev _
    cases h
    refine ⟨?_, ?_, ?_⟩
    · intro a ha
      rcases List.mem_append.mp ha with ha | ha
      · exact hdays a ha
      · exact ⟨x, by simp, by rw [List.mem_singleton.mp ha]⟩
    · intro i
      by_cases hi : i = hash x.packet.clientId
      · subst hi
        have hle : ∀ a ∈ acceptedBy hash (hash x.packet.clientId) s.accepted,
            a.1 ≤ dayIndex x.epochSec := by
          intro a ha
          obtain ⟨y, hy, hay⟩ := hk.days a (List.mem_of_mem_filter ha)
          exact hay ▸ dayIndex_mono (hx y hy)
        have harrive := counted_arrive limits.windowDays_pos (hk.counted _) hle x.packet
        simpa [acceptedBy, groups_acceptRecord] using harrive
      · simpa [acceptedBy, hi, Ne.symm hi] using hk.counted i
    · intro i
      by_cases hi : i = hash x.packet.clientId
      · subst hi
        simp only [Function.update_self, groups_acceptRecord]
        exact length_arrive _ _ _ _
      · simpa only [Function.update_of_ne hi] using hk.length i

/-- **Days of a run.** -/
theorem counted_of_run {limits : Limits} {hash : ClientId → Fin kShardCount}
    {arrivals : List Arrival} {s : State}
    (hsorted : arrivals.Pairwise fun x y => x.epochSec ≤ y.epochSec)
    (hr : run (step limits hash) {} (arrivals.map Arrival.call) = some s) :
    DaysKept limits hash arrivals s := by
  induction arrivals using List.reverseRecOn generalizing s with
  | nil =>
    cases hr
    exact ⟨by simp, fun _ => counted_nil _, fun _ => Nat.zero_le _⟩
  | append_singleton arrivals x ih =>
    rw [List.map_append, List.map_singleton] at hr
    obtain ⟨s₁, hr₁, hs⟩ := run_snoc_eq_some.mp hr
    obtain ⟨hsorted, -, hlast⟩ := List.pairwise_append.mp hsorted
    exact daysKept_step (ih hsorted hr₁) (fun y hy => hlast y hy x (by simp)) hs

/-! ## The window -/

/-- The days from `windowDays - 1` days before `now` to `now`. -/
abbrev InWindow (limits : Limits) (now : Int) (a : Int × Packet) : Prop :=
  dayIndex now - limits.windowDays < a.1 ∧ a.1 ≤ dayIndex now

/-- What the packets of a key add up to. -/
def sumOf (as : List (Int × Packet)) (key : Bytes) (q : Quantity) : Nat :=
  ((as.filter fun a => ciKey a.2 = key).map fun a => amount q a.2).sum

/-- A snapshot at `now` is of exactly the packets of the window: the records of the buckets
that it adds up hold them, it holds their sums and keys, and its window start is not older
than the window. -/
structure WindowExact (limits : Limits) (hash : ClientId → Fin kShardCount) (now : Int)
    (s : State) : Prop where
  retained : ∀ i, dated (s.records i) =
    (acceptedBy hash i s.accepted).filter fun a => InWindow limits now a
  totals : ∀ key q, (get s.stats.snapshot.totals key {}).of q =
    sumOf (s.accepted.filter fun a => InWindow limits now a) key q % 2 ^ 64
  keys : ∀ key, key ∈ s.stats.snapshot.totals ↔
    ∃ a ∈ s.accepted, InWindow limits now a ∧ ciKey a.2 = key
  flowKeys : ∀ key, key ∈ s.stats.snapshot.flows ↔ key ∈ s.stats.snapshot.totals
  countryKeys : ∀ key, key ∈ s.stats.snapshot.countryFlows ↔ key ∈ s.stats.snapshot.totals
  entityKeys : ∀ key, key ∈ s.stats.snapshot.entityFlows ↔ key ∈ s.stats.snapshot.totals
  windowStart : (dayIndex now - limits.windowDays + 1) * 86400 ≤ s.stats.windowStart now

variable {limits : Limits} {hash : ClientId → Fin kShardCount} {now : Int} {s : State}

/-! ## The window start -/

theorem le_windowStart_iff {st : TrafficStats} {lo : Int} (h : lo * 86400 ≤ now) :
    lo * 86400 ≤ st.windowStart now ↔
      ∀ i, ∀ b ∈ (st.shards i).dayBuckets.head?, lo ≤ b.dayIndex := by
  have hheads : ∀ d, d ∈ (List.finRange kShardCount).filterMap (fun i =>
      (st.shards i).dayBuckets.head?.map (·.dayIndex)) ↔
        ∃ i, ∃ b ∈ (st.shards i).dayBuckets.head?, b.dayIndex = d := by
    simp [List.mem_filterMap]
  unfold TrafficStats.windowStart TrafficStats.minDay
  cases hmin : ((List.finRange kShardCount).filterMap fun i =>
      (st.shards i).dayBuckets.head?.map (·.dayIndex)).min? with
  | none =>
    refine iff_of_true h fun i b hb => ?_
    have hmem := (hheads b.dayIndex).mpr ⟨i, b, hb, rfl⟩
    rw [List.min?_eq_none_iff.mp hmin] at hmem
    cases hmem
  | some d =>
    have hle := List.le_min?_iff hmin (x := lo)
    show lo * 86400 ≤ d * 86400 ↔ _
    constructor
    · intro hd i b hb
      exact hle.mp (by omega) _ ((hheads b.dayIndex).mpr ⟨i, b, hb, rfl⟩)
    · intro hall
      have hlo : lo ≤ d := hle.mpr fun e he => by
        obtain ⟨i, b, hb, rfl⟩ := (hheads e).mp he
        exact hall i b hb
      omega

/-- The front bucket is the oldest. -/
theorem le_heads_iff {bs : List DayBucket} {rs : List Record} {w : Nat}
    {as : List (Int × Packet)} {lo : Int} (hc : List.Forall₂ (Conserved limits) bs rs)
    (hk : Counted w (groups rs) as) :
    (∀ b ∈ bs.head?, lo ≤ b.dayIndex) ↔ ∀ g ∈ groups rs, lo ≤ g.1 := by
  cases hc with
  | nil => simp [groups]
  | @cons b r bs rs hbr _ =>
    have hfirst : ∀ g ∈ groups rs, r.dayIndex < g.1 := (List.pairwise_cons.mp hk.increasing).1
    constructor
    · intro hb g hg
      have hlo : lo ≤ r.dayIndex := hbr.day ▸ hb b rfl
      rcases List.mem_cons.mp hg with rfl | hg
      · exact hlo
      · exact hlo.trans (hfirst g hg).le
    · rintro hg _ ⟨⟩
      rw [hbr.day]
      exact hg _ List.mem_cons_self

/-! ## The sums -/

theorem sumOf_append (as bs : List (Int × Packet)) (key : Bytes) (q : Quantity) :
    sumOf (as ++ bs) key q = sumOf as key q + sumOf bs key q := by
  simp [sumOf]

/-- The totals of a shard are those of its records' packets. -/
theorem sum_shard {bs : List DayBucket} {rs : List Record}
    (hc : List.Forall₂ (Conserved limits) bs rs) (key : Bytes) (q : Quantity) :
    (bs.map fun b => (get b.totals key {}).of q).sum = sumOf (dated rs) key q := by
  induction hc with
  | nil => rfl
  | @cons b r bs rs hbr _ ih =>
    have hr : r.sum key q = sumOf (r.packets.map (r.dayIndex, ·)) key q := by
      simp [sumOf, Record.sum, List.filter_map, Function.comp_def]
    rw [List.map_cons, List.sum_cons, ih, hbr.totals, hr, ← sumOf_append]
    rfl

/-- Every packet was accepted by one shard. -/
theorem sum_acceptedBy (hash : ClientId → Fin kShardCount) (as : List (Int × Packet)) (key : Bytes)
    (q : Quantity) :
    ((List.finRange kShardCount).map fun i => sumOf (acceptedBy hash i as) key q).sum =
      sumOf as key q := by
  induction as with
  | nil => simp [sumOf, acceptedBy]
  | cons a as ih =>
    have hcons : ∀ i, sumOf (acceptedBy hash i (a :: as)) key q =
        (if hash a.2.clientId = i then sumOf [a] key q else 0) +
          sumOf (acceptedBy hash i as) key q := by
      intro i
      by_cases hi : hash a.2.clientId = i
      · rw [if_pos hi, ← sumOf_append]
        simp [acceptedBy, hi]
      · rw [if_neg hi, Nat.zero_add]
        simp [acceptedBy, hi]
    simp only [hcons, List.sum_map_add, ih]
    rw [← Fin.sum_univ_def, Finset.sum_ite_eq, if_pos (Finset.mem_univ _), ← sumOf_append]
    rfl

theorem sum_buckets (st : TrafficStats) (f : DayBucket → Nat) : (st.buckets.map f).sum =
    ((List.finRange kShardCount).map fun i => ((st.shards i).dayBuckets.map f).sum).sum := by
  unfold TrafficStats.buckets
  induction List.finRange kShardCount with
  | nil => rfl
  | cons i is ih =>
    rw [List.flatMap_cons, List.map_append, List.sum_append, ih, List.map_cons, List.sum_cons]

theorem mem_buckets {st : TrafficStats} {b : DayBucket} :
    b ∈ st.buckets ↔ ∃ i, b ∈ (st.shards i).dayBuckets := by
  simp [TrafficStats.buckets]

/-- The keys of a shard are those of its records' packets. -/
theorem exists_key_iff {bs : List DayBucket} {rs : List Record}
    (hc : List.Forall₂ (Conserved limits) bs rs) (key : Bytes) :
    (∃ b ∈ bs, key ∈ b.totals) ↔ ∃ a ∈ dated rs, ciKey a.2 = key := by
  induction hc with
  | nil => simp [dated]
  | @cons b r bs rs hbr _ ih =>
    have hdated : dated (r :: rs) = r.packets.map (r.dayIndex, ·) ++ dated rs := rfl
    simp only [List.mem_cons, or_and_right, exists_or, exists_eq_left, ih, hdated, List.mem_append,
      hbr.keys key, List.mem_map, exists_exists_and_eq_and]

/-! ## Every run -/

theorem exists_record {bs : List DayBucket} {rs : List Record}
    (hc : List.Forall₂ (Conserved limits) bs rs) {b : DayBucket} (hb : b ∈ bs) :
    ∃ r, Conserved limits b r := by
  induction hc with
  | nil => cases hb
  | @cons b' r bs rs hbr _ ih =>
    rcases List.mem_cons.mp hb with rfl | hb
    · exact ⟨r, hbr⟩
    · exact ih hb

/-- Every key that a snapshot lists has a total, address, country and entity flows. -/
theorem snapshot_keys (hk : Keeps limits hash s) (key : Bytes) :
    (key ∈ s.stats.snapshot.flows ↔ key ∈ s.stats.snapshot.totals) ∧
      (key ∈ s.stats.snapshot.countryFlows ↔ key ∈ s.stats.snapshot.totals) ∧
      (key ∈ s.stats.snapshot.entityFlows ↔ key ∈ s.stats.snapshot.totals) := by
  have hexact : SnapshotExact s.stats.buckets s.stats.snapshot := snapshotExact _
  have hrec : ∀ b ∈ s.stats.buckets, ∃ r, Conserved limits b r := by
    intro b hb
    obtain ⟨i, hi⟩ := mem_buckets.mp hb
    exact exists_record (hk i).conserved hi
  rw [hexact.keys, hexact.flowKeys, hexact.countryKeys, hexact.entityKeys]
  refine ⟨?_, ?_, ?_⟩ <;>
    refine exists_congr fun b => and_congr_right fun hb => ?_ <;> obtain ⟨r, hr⟩ := hrec b hb
  · exact hr.flowKeys key
  · exact hr.countryKeys key
  · exact hr.entityKeys key

private theorem acceptedBy_filter (hash : ClientId → Fin kShardCount) (i : Fin kShardCount)
    (as : List (Int × Packet)) (p : Int × Packet → Bool) :
    (acceptedBy hash i as).filter p = acceptedBy hash i (as.filter p) := by
  simp only [acceptedBy, List.filter_filter, Bool.and_comm]

/-- If every shard retains what it accepted in the window, so does a snapshot. -/
theorem windowExact_of_retained (hk : Keeps limits hash s)
    (hret : ∀ i, dated (s.records i) =
      (acceptedBy hash i s.accepted).filter fun a => InWindow limits now a)
    (hstart : (dayIndex now - limits.windowDays + 1) * 86400 ≤ s.stats.windowStart now) :
    WindowExact limits hash now s := by
  have hexact : SnapshotExact s.stats.buckets s.stats.snapshot := snapshotExact _
  constructor
  case retained => exact hret
  case totals =>
    intro key q
    rw [hexact.totals, sum_buckets]
    simp only [sum_shard (hk _).conserved, hret, acceptedBy_filter, sum_acceptedBy]
  case keys =>
    intro key
    rw [hexact.keys]
    constructor
    · rintro ⟨b, hb, hkey⟩
      obtain ⟨i, hi⟩ := mem_buckets.mp hb
      obtain ⟨a, ha, hak⟩ := (exists_key_iff (hk i).conserved key).mp ⟨b, hi, hkey⟩
      rw [hret, acceptedBy_filter] at ha
      obtain ⟨ha, hin⟩ := List.mem_filter.mp (List.mem_of_mem_filter ha)
      exact ⟨a, ha, of_decide_eq_true hin, hak⟩
    · rintro ⟨a, ha, hin, hak⟩
      have hmem : a ∈ dated (s.records (hash a.2.clientId)) := by
        rw [hret]
        simp [acceptedBy, ha, hin]
      obtain ⟨b, hb, hkey⟩ := (exists_key_iff (hk _).conserved key).mpr ⟨a, hmem, hak⟩
      exact ⟨b, mem_buckets.mpr ⟨_, hb⟩, hkey⟩
  case flowKeys => exact fun key => (snapshot_keys hk key).1
  case countryKeys => exact fun key => (snapshot_keys hk key).2.1
  case entityKeys => exact fun key => (snapshot_keys hk key).2.2
  case windowStart => exact hstart

/-- **Window.** After any run of packets at times that do not decrease, a snapshot is of
exactly the window if and only if every shard accepted no packet before the window, or one
on each of its days. -/
theorem windowExact_iff (limits : Limits) (hash : ClientId → Fin kShardCount)
    (arrivals : List Arrival) (now : Int) (s : State)
    (hsorted : arrivals.Pairwise fun x y => x.epochSec ≤ y.epochSec)
    (hnow : ∀ x ∈ arrivals, x.epochSec ≤ now)
    (hr : run (step limits hash) {} (arrivals.map Arrival.call) = some s) :
    WindowExact limits hash now s ↔
      ∀ i, (∀ a ∈ acceptedBy hash i s.accepted, dayIndex now - limits.windowDays < a.1) ∨
        ∀ d, dayIndex now - limits.windowDays < d → d ≤ dayIndex now →
          ∃ a ∈ acceptedBy hash i s.accepted, a.1 = d := by
  have hk := keeps_of_run hr
  have hd := counted_of_run hsorted hr
  have hle : ∀ i, ∀ a ∈ acceptedBy hash i s.accepted, a.1 ≤ dayIndex now := by
    intro i a ha
    obtain ⟨x, hx, hax⟩ := hd.days a (List.mem_of_mem_filter ha)
    exact hax ▸ dayIndex_mono (hnow x hx)
  have hwindow := fun i => kept_in_window_iff (hd.counted i) (hd.length i) (hle i)
  have hstart : (dayIndex now - limits.windowDays + 1) * 86400 ≤ s.stats.windowStart now ↔
      ∀ i, ∀ g ∈ groups (s.records i), dayIndex now - limits.windowDays + 1 ≤ g.1 := by
    have hpos := limits.windowDays_pos
    rw [le_windowStart_iff (by rw [dayIndex_eq]; omega)]
    exact forall_congr' fun i => le_heads_iff (hk i).conserved (hd.counted i)
  constructor
  · intro h i
    exact (hwindow i).mp fun g hg => hstart.mp h.windowStart i g hg
  · intro h
    have hin : ∀ i, ∀ g ∈ groups (s.records i), dayIndex now - limits.windowDays < g.1 :=
      fun i => (hwindow i).mpr (h i)
    refine windowExact_of_retained hk (fun i => ?_) (hstart.mpr fun i g hg => hin i g hg)
    rw [← flat_groups]
    exact (hd.counted i).flat_eq limits.windowDays_pos (hd.length i) (hle i) (hin i)

/-! A window of two days: traffic every day, and a client that falls silent. -/

private def packetFrom (clientId : String) : Packet :=
  ⟨ascii clientId, ascii "eth0", ascii "10.0.0.5", ascii "9.9.9.9", ascii "LAN", ascii "DE",
    ascii "LAN", ascii "e", 60⟩

private def daily : List Arrival :=
  [⟨100, packetFrom "a", {}⟩, ⟨86500, packetFrom "a", {}⟩, ⟨172900, packetFrom "a", {}⟩]

theorem windowExact_daily : ∃ s,
    run (step (Limits.of 2 9 9 9) fun _ => 3) {} (daily.map Arrival.call) = some s ∧
      WindowExact (Limits.of 2 9 9 9) (fun _ => 3) 172900 s := by
  have h : (run (step (Limits.of 2 9 9 9) fun _ => 3) {} (daily.map Arrival.call)).map
      (fun s => s.accepted.map (·.1)) = some [0, 1, 2] := by decide +kernel
  obtain ⟨s, hs, hdays⟩ := Option.map_eq_some_iff.mp h
  refine ⟨s, hs, (windowExact_iff _ _ daily 172900 s (by decide) (by decide) hs).mpr ?_⟩
  intro i
  by_cases hi : i = 3
  · refine .inr fun d hlo hhi => ?_
    have hnow : dayIndex 172900 = 2 := by decide
    have hw : (Limits.of 2 9 9 9).windowDays = 2 := by decide
    have hd : d ∈ s.accepted.map (·.1) := by
      rw [hnow, hw] at hlo
      rw [hnow] at hhi
      simp [hdays]
      omega
    obtain ⟨a, ha, rfl⟩ := List.mem_map.mp hd
    exact ⟨a, by simp [acceptedBy, ha, hi], rfl⟩
  · refine .inl fun a ha => ?_
    have h3 : (3 : Fin kShardCount) = i := by simpa using (List.mem_filter.mp ha).2
    exact absurd h3.symm hi

/-- A hundred days later the packet of a silent client is still reported, and so is, on day
50, the packet of day 0 of a client that is heard again. -/
theorem idle_days_are_not_counted :
    (∃ s, run (step (Limits.of 2 9 9 9) fun _ => 3) {}
        ([⟨100, packetFrom "a", {}⟩].map Arrival.call) = some s ∧
      ¬WindowExact (Limits.of 2 9 9 9) (fun _ => 3) (100 * 86400) s ∧
      (get s.stats.snapshot.totals (ascii "a|eth0") {}).packets = 1) ∧
    ∃ s, run (step (Limits.of 2 9 9 9) fun _ => 3) {}
        ([⟨100, packetFrom "a", {}⟩, ⟨50 * 86400, packetFrom "a", {}⟩].map Arrival.call) = some s ∧
      ¬WindowExact (Limits.of 2 9 9 9) (fun _ => 3) (50 * 86400) s ∧
      (get s.stats.snapshot.totals (ascii "a|eth0") {}).packets = 2 := by
  have hidle : (run (step (Limits.of 2 9 9 9) fun _ => 3) {}
      ([⟨100, packetFrom "a", {}⟩].map Arrival.call)).map (fun s =>
        (s.stats.windowStart (100 * 86400),
          (get s.stats.snapshot.totals (ascii "a|eth0") {}).packets)) = some (0, 1) := by
    decide +kernel
  have hgap : (run (step (Limits.of 2 9 9 9) fun _ => 3) {}
      ([⟨100, packetFrom "a", {}⟩, ⟨50 * 86400, packetFrom "a", {}⟩].map Arrival.call)).map
        (fun s => (s.stats.windowStart (50 * 86400),
          (get s.stats.snapshot.totals (ascii "a|eth0") {}).packets)) = some (0, 2) := by
    decide +kernel
  obtain ⟨s, hs, hsv⟩ := Option.map_eq_some_iff.mp hidle
  obtain ⟨t, ht, htv⟩ := Option.map_eq_some_iff.mp hgap
  rw [Prod.mk.injEq] at hsv htv
  refine ⟨⟨s, hs, fun h => ?_, hsv.2⟩, t, ht, fun h => ?_, htv.2⟩
  · exact absurd (hsv.1 ▸ h.windowStart) (by decide)
  · exact absurd (htv.1 ▸ h.windowStart) (by decide)

end TrafficMonitor.Stats
