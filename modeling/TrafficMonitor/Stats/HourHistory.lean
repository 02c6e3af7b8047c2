import TrafficMonitor.Stats.History

/-!
# The hourly history (`ntm_types.hpp`, `snapshotHistory`)

In hourly mode `snapshotHistory` returns every slot of the hour ring but those of hour 0,
sorted by time; it does not compare their hours with the present one. Proved here, for
every run whose clock does not go back:

* `mem_hours`: what it returns are the latest hours that went to each slot, with their sums
  modulo 2^64;
* `hours_current_iff`: so the hourly history is current if and only if every hour that has
  not been written over is recent, and its sums fit into 64 bits;
* `hour_of_an_earlier_turn`: a client that has been silent since still has its old hours.
-/

namespace TrafficMonitor.History

open Bytes Maps Runs Stats StampedRing Sessions

/-- Buckets of the last 168 hours only, in order and each hour once, with their sums. -/
structure HoursCurrent (nowSec : Int) (as : List (Int × Packet)) (out : ClientHistorySnapshot) :
    Prop where
  sorted : out.buckets.Pairwise fun a b => a.t < b.t
  current : ∀ hb ∈ out.buckets, ∃ h, epochOf 3600 nowSec < h + kHourSlots ∧
    h ≤ epochOf 3600 nowSec ∧ hb = exactBucket 3600 as h

variable {limits : Limits} {hash : ClientId → Fin kShardCount}

/-! ## The hour ring -/

theorem mem_hourBuckets {ring : ClientHistoryRing} {hb : HistoryBucket} :
    hb ∈ hourBuckets ring ↔ ∃ k < kHourSlots, (get ring.hours k {}).epoch ≠ 0 ∧
      hb = (get ring.hours k {}).bucket ((get ring.hours k {}).epoch * 3600) := by
  simp only [hourBuckets, List.mem_mergeSort, List.mem_map, List.mem_filter, List.mem_range,
    decide_eq_true_eq]
  constructor
  · rintro ⟨_, ⟨⟨k, hk, rfl⟩, h0⟩, rfl⟩
    exact ⟨k, hk, h0, rfl⟩
  · rintro ⟨k, hk, h0, rfl⟩
    exact ⟨_, ⟨⟨k, hk, rfl⟩, h0⟩, rfl⟩

/-- The slots of a ring whose stamps belong into them have no hour in common. -/
theorem hourBuckets_sorted {ring : ClientHistoryRing}
    (hstamp : ∀ k, (get ring.hours k {}).epoch ≠ 0 →
      (get ring.hours k {}).epoch % kHourSlots = k) :
    (hourBuckets ring).Pairwise fun a b => a.t < b.t := by
  have hne : (((((List.range kHourSlots).map fun i => get ring.hours i {}).filter
      fun s => s.epoch ≠ 0).map fun s => s.bucket (s.epoch * 3600))).Pairwise
      fun a b => a.t ≠ b.t := by
    rw [List.pairwise_map, List.pairwise_filter, List.pairwise_map]
    refine List.pairwise_lt_range.imp fun {i j} hij hi hj heq => ?_
    have heq : (get ring.hours i {}).epoch * 3600 = (get ring.hours j {}).epoch * 3600 := heq
    have hi := hstamp i (of_decide_eq_true hi)
    have hj := hstamp j (of_decide_eq_true hj)
    have hepoch : (get ring.hours i {}).epoch = (get ring.hours j {}).epoch := by omega
    rw [hepoch] at hi
    omega
  have hle : (hourBuckets ring).Pairwise fun a b => a.t ≤ b.t :=
    (List.pairwise_mergeSort (by simp only [decide_eq_true_eq]; omega)
      (by simp only [Bool.or_eq_true, decide_eq_true_eq]; omega) _).imp fun h => of_decide_eq_true h
  have hne' : (hourBuckets ring).Pairwise fun a b => a.t ≠ b.t :=
    ((List.mergeSort_perm _ _).pairwise_iff fun h => h.symm).mpr hne
  exact hle.imp₂ (fun _ _ => lt_of_le_of_ne) hne'

theorem snapshotHistory_hours (limits : Limits) (hash : ClientId → Fin kShardCount) (s : State)
    (nowSec : Int) {minutes : Int} (c : ClientId) (hm : minutes ≤ 0) :
    (s.snapshotHistory limits hash nowSec c minutes).buckets = hourBuckets (s.ring hash c) := by
  unfold State.snapshotHistory Shard.snapshotHistory State.ring Maps.get
  cases (s.base.stats.shards (hash c)).clientHistory.lookup c with
  | none =>
    refine (List.eq_nil_iff_forall_not_mem.mpr fun hb hmem => ?_).symm
    obtain ⟨k, -, h0, -⟩ := mem_hourBuckets.mp hmem
    exact h0 rfl
  | some ring =>
    dsimp only
    rw [if_neg (not_lt.mpr hm), Option.getD_some]

/-- A stamped slot of the hour ring holds the latest hour that went to it. -/
theorem hour_slot {calls : List Call} {s : State} {c : ClientId}
    (hclock : (times calls).Pairwise (· ≤ ·)) (hr : run (step limits hash) {} calls = some s)
    {k : Nat} (h0 : (get (s.ring hash c).hours k {}).epoch ≠ 0) :
    ∃ h, Latest kHourSlots (samples 3600 (s.logOf c)) k h ∧
      get (s.ring hash c).hours k {} = wrap (sums h (packetsOf 3600 (s.logOf c) h)) := by
  have hring : get (s.ring hash c).hours k {} =
      collect slots kHourSlots (samples 3600 (s.logOf c)) k :=
    congrFun ((rings_of_run hr c).hours) k
  rw [hring] at h0 ⊢
  rcases slot_cases slots kHourSlots (samples_sorted hclock hr 3600 c) k with ⟨_, hc⟩ | ⟨e, he, hc⟩
  · rw [hc] at h0
    exact absurd rfl h0
  · exact ⟨e, he, by rw [hc, content_samples]⟩

/-- What the rings of a run hold of the hours. -/
theorem mem_hours {calls : List Call} {s : State} {c : ClientId}
    (hclock : (times calls).Pairwise (· ≤ ·)) (hr : run (step limits hash) {} calls = some s)
    (hb : HistoryBucket) :
    hb ∈ hourBuckets (s.ring hash c) ↔ ∃ h, h ≠ 0 ∧
      Latest kHourSlots (samples 3600 (s.logOf c)) (h % kHourSlots) h ∧
      hb = (wrap (sums h (packetsOf 3600 (s.logOf c) h))).bucket (h * 3600) := by
  rw [mem_hourBuckets]
  constructor
  · rintro ⟨k, -, h0, rfl⟩
    obtain ⟨h, hlatest, hslot⟩ := hour_slot hclock hr h0
    rw [hslot] at h0 ⊢
    exact ⟨h, h0, by rwa [hlatest.slot], rfl⟩
  · rintro ⟨h, h0, hlatest, rfl⟩
    have hring : get (s.ring hash c).hours (h % kHourSlots) {} =
        wrap (sums h (packetsOf 3600 (s.logOf c) h)) := by
      rw [congrFun ((rings_of_run hr c).hours) _,
        collect_of_latest (samples_sorted hclock hr 3600 c) hlatest, content_samples]
    refine ⟨h % kHourSlots, Nat.mod_lt h (by decide), ?_⟩
    rw [hring]
    exact ⟨h0, rfl⟩

/-- **Hours.** -/
theorem hours_current_iff (calls : List Call) (s : State) (nowSec minutes : Int) (c : ClientId)
    (hclock : (times calls ++ [nowSec]).Pairwise (· ≤ ·))
    (hr : run (step limits hash) {} calls = some s) (hm : minutes ≤ 0) :
    HoursCurrent nowSec (s.logOf c) (s.snapshotHistory limits hash nowSec c minutes) ↔
      ∀ a ∈ s.logOf c, epochOf 3600 a.1 ≠ 0 →
        (epochOf 3600 nowSec < epochOf 3600 a.1 + kHourSlots ∧
          Fits (sums (epochOf 3600 a.1) (packetsOf 3600 (s.logOf c) (epochOf 3600 a.1)))) ∨
        ∃ b ∈ s.logOf c, epochOf 3600 b.1 % kHourSlots = epochOf 3600 a.1 % kHourSlots ∧
          epochOf 3600 a.1 < epochOf 3600 b.1 := by
  obtain ⟨hcalls, -, hlast⟩ := List.pairwise_append.mp hclock
  have hmem := mem_hours (c := c) hcalls hr
  have hout := snapshotHistory_hours limits hash s nowSec c hm
  have hsample : ∀ a ∈ s.logOf c,
      (epochOf 3600 a.1, a.2) ∈ samples 3600 (s.logOf c) := fun a ha => List.mem_map.mpr ⟨a, ha, rfl⟩
  constructor
  · intro h a ha h0
    obtain ⟨e, he⟩ := exists_latest (n := kHourSlots) (hsample a ha)
    have hle : epochOf 3600 a.1 ≤ e := he.le _ (hsample a ha) rfl
    rcases hle.eq_or_lt with rfl | hlt
    · -- the slot still holds the hour of `a`
      obtain ⟨h', hlo, -, heq⟩ := h.current _ (by rw [hout, hmem]; exact ⟨_, h0, he, rfl⟩)
      obtain rfl := exactBucket_inj (by decide) heq
      exact .inl ⟨hlo, bucket_wrap.mp heq⟩
    · obtain ⟨x, hx, rfl⟩ := he.mem
      obtain ⟨b, hb, rfl⟩ := List.mem_map.mp hx
      exact .inr ⟨b, hb, he.slot, hlt⟩
  · intro hall
    refine ⟨?_, fun hb hin => ?_⟩
    · rw [hout]
      refine hourBuckets_sorted fun k h0 => ?_
      obtain ⟨h, hlatest, hslot⟩ := hour_slot hcalls hr h0
      rw [hslot]
      exact hlatest.slot
    · rw [hout, hmem] at hin
      obtain ⟨h, h0, hlatest, rfl⟩ := hin
      obtain ⟨x, hx, rfl⟩ := hlatest.mem
      obtain ⟨a, ha, rfl⟩ := List.mem_map.mp hx
      rcases hall a ha h0 with ⟨hlo, hfits⟩ | ⟨b, hb, hslot, hlt⟩
      · refine ⟨_, hlo, epochOf_mono 3600 ?_, bucket_wrap.mpr hfits⟩
        exact hlast a.1 (mem_times_of_mem_log hr ha) nowSec (by simp)
      · exact absurd (hlatest.le _ (hsample b hb) hslot) (not_le.mpr hlt)

theorem hours_current_iff_two_minutes :
    ∃ s, run (step (Limits.of 7 9 9 9) fun _ => 3) {} twoMinutes = some s ∧
      HoursCurrent 90065 (s.logOf (ascii "a"))
        (s.snapshotHistory (Limits.of 7 9 9 9) (fun _ => 3) 90065 (ascii "a") 0) := by
  obtain ⟨s, hs, hlog⟩ := twoMinutes_run
  refine ⟨s, hs, (hours_current_iff twoMinutes s 90065 0 (ascii "a") (by decide) hs (by decide)).mpr
    fun a ha _ => .inl ?_⟩
  rw [hlog] at ha ⊢
  have hhour : epochOf 3600 a.1 = 25 := by
    simp only [List.mem_cons, List.not_mem_nil, or_false] at ha
    obtain rfl | rfl := ha <;> rfl
  rw [hhour]
  exact ⟨by decide, by constructor <;> decide +kernel⟩

/-- A client last seen in hour 25 still has a bucket of that hour in hour 1000. -/
theorem hour_of_an_earlier_turn :
    ∃ s, run (step (Limits.of 7 9 9 9) fun _ => 3) {} twoMinutes = some s ∧
      (times twoMinutes ++ [3600000]).Pairwise (· ≤ ·) ∧
      (s.snapshotHistory (Limits.of 7 9 9 9) (fun _ => 3) 3600000 (ascii "a") 0).buckets =
        [⟨90000, 0, 120, 0, 2⟩] ∧
      ¬ HoursCurrent 3600000 (s.logOf (ascii "a"))
        (s.snapshotHistory (Limits.of 7 9 9 9) (fun _ => 3) 3600000 (ascii "a") 0) := by
  have hrun : (run (step (Limits.of 7 9 9 9) fun _ => 3) {} twoMinutes).map (fun s =>
      (s.snapshotHistory (Limits.of 7 9 9 9) (fun _ => 3) 3600000 (ascii "a") 0).buckets) =
        some [⟨90000, 0, 120, 0, 2⟩] := by
    decide +kernel
  obtain ⟨s, hs, hbuckets⟩ := Option.map_eq_some_iff.mp hrun
  refine ⟨s, hs, by decide, hbuckets, fun h => ?_⟩
  obtain ⟨k, hlo, -, heq⟩ := h.current ⟨90000, 0, 120, 0, 2⟩ (by simp [hbuckets])
  have ht : 90000 = k * 3600 := congrArg HistoryBucket.t heq
  have hnow : epochOf 3600 3600000 = 1000 := rfl
  have hslots : kHourSlots = 168 := rfl
  omega

end TrafficMonitor.History
