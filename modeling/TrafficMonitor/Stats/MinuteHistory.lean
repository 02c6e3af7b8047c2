import TrafficMonitor.Stats.History

/-!
# The minute history (`ntm_types.hpp`, `snapshotHistory`)

`snapshotHistory` asks the minute ring for each of the last `n` minutes and takes the slots
that bear its stamp. Proved here, for every run whose clock does not go back:

* `mem_minutes`: what it returns are the minutes with packets, with their sums modulo 2^64;
* `minutes_exact_iff`: so the minute history is exact if and only if the sums of its minutes
  fit into 64 bits, which the rings, unlike the other counters, do not check;
* `full_minute`: two interfaces of a client can fill a minute that does not fit.
-/

namespace TrafficMonitor.History

open Bytes Maps Runs Stats StampedRing Sessions

/-- The last `n` minutes, the current one included, in which the client had packets, in
order and each once, with their sums. -/
structure MinutesExact (nowSec : Int) (n : Nat) (as : List (Int × Packet))
    (out : ClientHistorySnapshot) : Prop where
  sorted : out.buckets.Pairwise fun a b => a.t < b.t
  exact : ∀ hb, hb ∈ out.buckets ↔ ∃ m, epochOf 60 nowSec < m + n ∧ m ≤ epochOf 60 nowSec ∧
    packetsOf 60 as m ≠ [] ∧ hb = exactBucket 60 as m

variable {limits : Limits} {hash : ClientId → Fin kShardCount}

/-! ## The minute ring -/

/-- The slot of a minute within the last 1440 bears its stamp exactly when there are packets
of it. -/
theorem minute_slot {xs : List (Nat × Packet)} {m now n : Nat}
    (hsorted : xs.Pairwise fun x y => x.1 ≤ y.1) (hnow : ∀ x ∈ xs, x.1 ≤ now) (hpos : 0 < m)
    (hrecent : now < m + n) :
    (collect slots n xs (m % n)).epoch = m ↔ ∃ x ∈ xs, x.1 = m := by
  constructor
  · intro h
    rcases slot_cases slots n hsorted (m % n) with ⟨_, hc⟩ | ⟨e, he, hc⟩
    · rw [hc] at h
      exact absurd h hpos.ne
    · have hstamp : (content slots xs e).epoch = e := stamp_content (S := slots) xs e
      rw [hc, hstamp] at h
      exact h ▸ he.mem
  · intro h
    rw [collect_of_latest hsorted (latest_of_recent hnow h hrecent)]
    exact stamp_content (S := slots) xs m

theorem minute_back {nowSec : Int} {n i : Nat} (hn : n ≤ epochOf 60 nowSec) (h64 : nowSec < 2 ^ 63) :
    (nowSec.toNat / 60 + 2 ^ 64 - (n - 1 - i)) % 2 ^ 64 = epochOf 60 nowSec - (n - 1 - i) := by
  unfold epochOf at *
  omega

theorem mem_minuteBuckets {nowSec : Int} {n : Nat} {ring : ClientHistoryRing} {hb : HistoryBucket}
    (hn : n ≤ epochOf 60 nowSec) (h64 : nowSec < 2 ^ 63) :
    hb ∈ minuteBuckets nowSec n ring ↔ ∃ m, epochOf 60 nowSec < m + n ∧ m ≤ epochOf 60 nowSec ∧
      (get ring.minutes (m % kMinuteSlots) {}).epoch = m ∧
      hb = (get ring.minutes (m % kMinuteSlots) {}).bucket (m * 60) := by
  have hsec : ∀ m, m ≤ epochOf 60 nowSec → m * 60 % 2 ^ 64 = m * 60 := by
    unfold epochOf
    omega
  simp only [minuteBuckets, List.mem_filterMap, List.mem_range]
  constructor
  · rintro ⟨i, hi, h⟩
    rw [minute_back hn h64, hsec _ (Nat.sub_le _ _)] at h
    split at h
    · cases h
    · rename_i hs
      exact ⟨_, by omega, Nat.sub_le _ _, not_not.mp hs, (Option.some.inj h).symm⟩
  · rintro ⟨m, hlo, hhi, hs, rfl⟩
    refine ⟨n - 1 - (epochOf 60 nowSec - m), by omega, ?_⟩
    have he : epochOf 60 nowSec - (n - 1 - (n - 1 - (epochOf 60 nowSec - m))) = m := by omega
    rw [minute_back hn h64, he, if_neg (not_not.mpr hs), hsec m hhi]

theorem minuteBuckets_sorted {nowSec : Int} {n : Nat} (ring : ClientHistoryRing)
    (hn : n ≤ epochOf 60 nowSec) (h64 : nowSec < 2 ^ 63) :
    (minuteBuckets nowSec n ring).Pairwise fun a b => a.t < b.t := by
  have ht : ∀ i, i < n → ∀ hb,
      (if (get ring.minutes ((epochOf 60 nowSec - (n - 1 - i)) % kMinuteSlots) {}).epoch ≠
          epochOf 60 nowSec - (n - 1 - i) then none
        else some ((get ring.minutes ((epochOf 60 nowSec - (n - 1 - i)) % kMinuteSlots) {}).bucket
          ((epochOf 60 nowSec - (n - 1 - i)) * 60 % 2 ^ 64))) = some hb →
      hb.t = (epochOf 60 nowSec - (n - 1 - i)) * 60 := by
    intro i _ hb h
    split at h
    · cases h
    · cases h
      simp only [HistorySlot.bucket]
      unfold epochOf
      omega
  simp only [minuteBuckets, minute_back hn h64]
  rw [List.pairwise_filterMap]
  refine List.pairwise_lt_range.imp_of_mem fun {i j} hi hj hij a ha b hb => ?_
  have hi := List.mem_range.mp hi
  have hj := List.mem_range.mp hj
  rw [ht i hi a ha, ht j hj b hb]
  omega

/-- A client without rings has none of the minutes. -/
theorem snapshotHistory_minutes (limits : Limits) (hash : ClientId → Fin kShardCount) (s : State)
    {nowSec : Int} {n : Nat} (c : ClientId) (h1 : 1 ≤ n)
    (h1440 : n ≤ 1440) (hn : n ≤ epochOf 60 nowSec) (h64 : nowSec < 2 ^ 63) :
    (s.snapshotHistory limits hash nowSec c n).buckets =
      minuteBuckets nowSec n (s.ring hash c) := by
  unfold State.snapshotHistory Shard.snapshotHistory State.ring Maps.get
  cases (s.base.stats.shards (hash c)).clientHistory.lookup c with
  | none =>
    refine (List.eq_nil_iff_forall_not_mem.mpr fun hb hmem => ?_).symm
    obtain ⟨m, hlo, -, hs, -⟩ := (mem_minuteBuckets hn h64).mp hmem
    have h0 : 0 = m := hs
    omega
  | some ring =>
    have hpos : (0 : Int) < n := by omega
    have hmin : min (n : Int).toNat kMinuteSlots = n := by
      rw [Int.toNat_natCast]
      exact min_eq_left h1440
    dsimp only
    rw [if_pos hpos, hmin, Option.getD_some]

/-- What the rings of a run hold of the minutes asked for. -/
theorem mem_minutes {calls : List Call} {s : State} {nowSec : Int} {n : Nat} {c : ClientId}
    (hclock : (times calls ++ [nowSec]).Pairwise (· ≤ ·))
    (hr : run (step limits hash) {} calls = some s) (hn : n ≤ epochOf 60 nowSec) (h1440 : n ≤ 1440)
    (h64 : nowSec < 2 ^ 63) (hb : HistoryBucket) :
    hb ∈ minuteBuckets nowSec n (s.ring hash c) ↔ ∃ m, epochOf 60 nowSec < m + n ∧
      m ≤ epochOf 60 nowSec ∧ packetsOf 60 (s.logOf c) m ≠ [] ∧
      hb = (wrap (sums m (packetsOf 60 (s.logOf c) m))).bucket (m * 60) := by
  obtain ⟨hcalls, -, hlast⟩ := List.pairwise_append.mp hclock
  have hnow : ∀ x ∈ samples 60 (s.logOf c), x.1 ≤ epochOf 60 nowSec := by
    intro x hx
    obtain ⟨a, ha, rfl⟩ := List.mem_map.mp hx
    exact epochOf_mono 60 (hlast a.1 (mem_times_of_mem_log hr ha) nowSec (by simp))
  have hring : ∀ k, get (s.ring hash c).minutes k {} =
      collect slots kMinuteSlots (samples 60 (s.logOf c)) k :=
    congrFun ((rings_of_run hr c).minutes)
  rw [mem_minuteBuckets hn h64]
  refine exists_congr fun m => and_congr_right fun hlo => and_congr_right fun _ => ?_
  have hrecent : epochOf 60 nowSec < m + kMinuteSlots :=
    lt_of_lt_of_le hlo (Nat.add_le_add_left h1440 m)
  rw [hring, minute_slot (samples_sorted hcalls hr 60 c) hnow (by omega) hrecent, packetsOf_ne_nil]
  refine and_congr_right fun hm => ?_
  rw [collect_of_latest (samples_sorted hcalls hr 60 c) (latest_of_recent hnow hm hrecent), content_samples]

/-- Sums that do not fit are not the ones returned. -/
theorem fits_of_minutesExact {calls : List Call} {s : State} {nowSec : Int} {n : Nat} {c : ClientId}
    (hclock : (times calls ++ [nowSec]).Pairwise (· ≤ ·))
    (hr : run (step limits hash) {} calls = some s) (hday : 86400 < nowSec) (h64 : nowSec < 2 ^ 63)
    (h1 : 1 ≤ n) (h1440 : n ≤ 1440)
    (h : MinutesExact nowSec n (s.logOf c) (s.snapshotHistory limits hash nowSec c n)) (m : Nat)
    (hlo : epochOf 60 nowSec < m + n) (hhi : m ≤ epochOf 60 nowSec) :
    Fits (sums m (packetsOf 60 (s.logOf c) m)) := by
  have hn : n ≤ epochOf 60 nowSec := by
    unfold epochOf
    omega
  by_cases hm : packetsOf 60 (s.logOf c) m = []
  · rw [hm]
    exact fits_nil m
  · have hin := (h.exact _).mpr ⟨m, hlo, hhi, hm, rfl⟩
    rw [snapshotHistory_minutes limits hash s c h1 h1440 hn h64, mem_minutes hclock hr hn h1440 h64] at hin
    obtain ⟨m', -, -, -, heq⟩ := hin
    obtain rfl := exactBucket_inj (by decide) heq.symm
    exact bucket_wrap.mp heq.symm

/-- **Minutes.** -/
theorem minutes_exact_iff (calls : List Call) (s : State) (nowSec : Int) (n : Nat) (c : ClientId)
    (hclock : (times calls ++ [nowSec]).Pairwise (· ≤ ·))
    (hr : run (step limits hash) {} calls = some s) (hday : 86400 < nowSec) (h64 : nowSec < 2 ^ 63)
    (h1 : 1 ≤ n) (h1440 : n ≤ 1440) :
    MinutesExact nowSec n (s.logOf c) (s.snapshotHistory limits hash nowSec c n) ↔
      ∀ m, epochOf 60 nowSec < m + n → m ≤ epochOf 60 nowSec →
        Fits (sums m (packetsOf 60 (s.logOf c) m)) := by
  have hn : n ≤ epochOf 60 nowSec := by
    unfold epochOf
    omega
  have hmem := mem_minutes (c := c) hclock hr hn h1440 h64
  have hout := snapshotHistory_minutes limits hash s c h1 h1440 hn h64
  constructor
  · exact fits_of_minutesExact hclock hr hday h64 h1 h1440
  · intro hfits
    refine ⟨?_, fun hb => ?_⟩
    · rw [hout]
      exact minuteBuckets_sorted _ hn h64
    · rw [hout, hmem]
      refine exists_congr fun m => and_congr_right fun hlo => and_congr_right fun hhi =>
        and_congr_right fun _ => ?_
      rw [bucket_wrap.mpr (hfits m hlo hhi)]

theorem minutes_exact_iff_two_minutes :
    ∃ s, run (step (Limits.of 7 9 9 9) fun _ => 3) {} twoMinutes = some s ∧
      MinutesExact 90065 2 (s.logOf (ascii "a"))
        (s.snapshotHistory (Limits.of 7 9 9 9) (fun _ => 3) 90065 (ascii "a") 2) := by
  obtain ⟨s, hs, hlog⟩ := twoMinutes_run
  refine ⟨s, hs, (minutes_exact_iff twoMinutes s 90065 2 (ascii "a") (by decide) hs (by decide)
    (by decide) (by decide) (by decide)).mpr fun m hlo hhi => ?_⟩
  rw [hlog]
  obtain rfl | rfl : m = 1500 ∨ m = 1501 := by
    have hnow : epochOf 60 90065 = 1501 := rfl
    omega
  · constructor <;> decide +kernel
  · constructor <;> decide +kernel

/-! Two interfaces of a client, each with packets of 2^32 - 1 bytes within one minute: the
bytes of the one are kept below 2^64, and those of both together are not. -/

private def fullPacket (iface : String) : Packet := examplePacket iface (2 ^ 32 - 1)

private def full (iface : String) : Call := .addPacket 90000 (fullPacket iface) {}

/-- The bucket holds `n` times the packet under its key. -/
private def Holds (p : Packet) (n : Nat) (b : DayBucket) : Prop :=
  get b.totals (ciKey p) {} = ⟨n, n * p.bytes⟩ ∧
  (flowKey p ∈ get b.flows (ciKey p) ∅ ∧
    (get (get b.flows (ciKey p) ∅) (flowKey p) {}).counter = ⟨n, n * p.bytes⟩) ∧
  get (get b.countryFlows (ciKey p) ∅) (countryKey p) {} = ⟨n, n * p.bytes⟩ ∧
  (entityKey p ∈ get b.entityFlows (ciKey p) ∅ ∧
    get (get b.entityFlows (ciKey p) ∅) (entityKey p) {} = ⟨n, n * p.bytes⟩)

private instance (p : Packet) (n : Nat) (b : DayBucket) : Decidable (Holds p n b) :=
  inferInstanceAs (Decidable (_ ∧ (_ ∧ _) ∧ _ ∧ _ ∧ _))

private theorem evict_of_mem {V : Type} {cap : Nat} {weight : V → Nat} {order : List FlowKey}
    {k : FlowKey} {m : Map FlowKey V} (hk : k ∈ m) : evict cap weight order k m = some (m, none) :=
  if_neg fun h => h.2 hk

private theorem holds_add (limits : Limits) (epochSec : Int) (o : Orders) {p q : Packet} {n k : Nat}
    {b : DayBucket} (hp : Holds p n b) (hq : Holds q k b) (hkey : ciKey q ≠ ciKey p) (hn : n + 1 < 2 ^ 64)
    (hbytes : (n + 1) * p.bytes < 2 ^ 64) :
    ∃ b', b.add limits epochSec p o = some (b', {}) ∧ b'.dayIndex = b.dayIndex ∧
      Holds p (n + 1) b' ∧ Holds q k b' := by
  obtain ⟨htotal, ⟨hflow, hflowc⟩, hcountry, hentity, hentityc⟩ := hp
  have hroom : wouldOverflow n (n * p.bytes) p.bytes = false := by
    rw [Nat.succ_mul] at hbytes
    simp only [wouldOverflow, Bool.or_eq_false_iff, Bool.and_eq_false_iff, decide_eq_false_iff_not]
    omega
  have hmore : (⟨n, n * p.bytes⟩ : Counter).add p.bytes = ⟨n + 1, (n + 1) * p.bytes⟩ := by
    rw [Nat.succ_mul]
    rfl
  have hp' : (get (get b.flows (ciKey p) ∅) (flowKey p) {}).packets = n := congrArg (·.packets) hflowc
  have hb' : (get (get b.flows (ciKey p) ∅) (flowKey p) {}).bytes = n * p.bytes :=
    congrArg (·.bytes) hflowc
  unfold DayBucket.add
  simp only [evict_of_mem hflow, evict_of_mem hentity, Option.bind_eq_bind, Option.bind_some, htotal,
    hcountry, hentityc, hp', hb', hroom, Bool.or_self, Bool.false_eq_true, ↓reduceIte]
  refine ⟨_, rfl, rfl, ⟨?_, ⟨?_, ?_⟩, ?_, ?_, ?_⟩, ?_⟩
  · rw [get_insert, hmore]
  · rw [get_insert]
    simp
  · rw [get_insert, get_insert, ← hmore, ← hflowc]
    rfl
  · rw [get_insert, get_insert, hmore]
  · rw [get_insert]
    simp
  · rw [get_insert, get_insert, hmore]
  · unfold Holds
    simp only [get_insert_ne hkey]
    exact hq

/-- The shard of a client with packets on two interfaces, all on one day. -/
private def Ready (d : Int) (p q : Packet) (n k : Nat) (sh : Shard) : Prop :=
  (∃ b, sh.dayBuckets = [b] ∧ b.dayIndex = d ∧ Holds p n b ∧ Holds q k b) ∧
    p.iface ∈ get sh.clientIfaces p.clientId [] ∧ q.iface ∈ get sh.clientIfaces p.clientId []

private theorem ready_add (limits : Limits) (o : Orders) {p q : Packet} {n k : Nat} {sh : Shard}
    {epochSec : Int} (h : Ready (dayIndex epochSec) p q n k sh) (hkey : ciKey q ≠ ciKey p) (hn : n + 1 < 2 ^ 64)
    (hbytes : (n + 1) * p.bytes < 2 ^ 64) :
    ∃ sh' ev, sh.addPacket limits epochSec p o = some (sh', .accepted ev) ∧
      Ready (dayIndex epochSec) p q (n + 1) k sh' := by
  obtain ⟨⟨b, hb, hday, hp, hq⟩, hip, hiq⟩ := h
  obtain ⟨b', hadd, hday', hp', hq'⟩ := holds_add limits epochSec o hp hq hkey hn hbytes
  have hopen : openBucket DayBucket.dayIndex (fun d => { dayIndex := d }) (dayIndex epochSec)
      sh.dayBuckets = ([], b) := by
    rw [hb]
    simp [openBucket, hday]
  have hkeep : prune limits.windowDays [b'] = [b'] := by
    have := limits.windowDays_pos
    simp [prune, Nat.sub_eq_zero_of_le this]
  unfold Shard.addPacket
  dsimp only
  rw [if_neg fun hr => hr.1 hip, hopen]
  simp only [hadd, Option.map_some]
  refine ⟨_, _, rfl, ⟨b', ?_, hday'.trans hday, hp', hq'⟩, ?_, ?_⟩
  · exact hkeep
  · rw [get_insert, if_pos hip]
    exact hip
  · rw [get_insert, if_pos hip]
    exact hiq

private theorem ready_replicate (limits : Limits) (hash : ClientId → Fin kShardCount) (o : Orders)
    {p q : Packet} {n k : Nat} {s : State} {epochSec : Int} (h : Ready (dayIndex epochSec) p q n k (s.base.stats.shards (hash p.clientId)))
    (hkey : ciKey q ≠ ciKey p) (m : Nat) (hn : n + m < 2 ^ 64)
    (hbytes : (n + m) * p.bytes < 2 ^ 64) :
    ∃ s', run (step limits hash) s (List.replicate m (.addPacket epochSec p o)) = some s' ∧
      Ready (dayIndex epochSec) p q (n + m) k (s'.base.stats.shards (hash p.clientId)) ∧
      s'.log = s.log ++ List.replicate m (epochSec, p) := by
  induction m generalizing n s with
  | zero => exact ⟨s, rfl, h, by simp⟩
  | succ m ih =>
    have hn1 : n + 1 < 2 ^ 64 := by omega
    have hbytes1 : (n + 1) * p.bytes < 2 ^ 64 :=
      lt_of_le_of_lt (Nat.mul_le_mul_right _ (by omega)) hbytes
    obtain ⟨sh', ev, hadd, h'⟩ := ready_add limits o h hkey hn1 hbytes1
    have hnot : ¬ (s.base.stats.shards (hash p.clientId)).Rejects limits p := fun hr => hr.1 h.2.1
    have hs : ∃ base, Stats.step limits hash s.base (.addPacket epochSec p o) = some base ∧
        base.stats.shards (hash p.clientId) = sh' := by
      unfold Stats.step
      simp only [hadd]
      exact ⟨_, rfl, Function.update_self _ _ _⟩
    obtain ⟨base, hs, hsh⟩ := hs
    have hstep : step limits hash s (.addPacket epochSec p o) =
        some ⟨base, s.log ++ [(epochSec, p)]⟩ := by
      simp only [step, hs, State.logAfter, hnot, ↓reduceIte]
    obtain ⟨t, ht, hready, hlog⟩ := ih (s := ⟨base, s.log ++ [(epochSec, p)]⟩) (n := n + 1)
      (by rw [hsh]; exact h') (by omega) (by rwa [Nat.add_right_comm, Nat.add_assoc])
    refine ⟨t, run_cons_eq_some.mpr ⟨_, hstep, ht⟩, ?_, ?_⟩
    · rwa [Nat.add_right_comm, Nat.add_assoc] at hready
    · rw [hlog, List.append_assoc]
      rfl
private def fullLog (m : Nat) : List (Int × Packet) :=
  [(90000, fullPacket "eth0"), (90000, fullPacket "wlan0")] ++
    (List.replicate m (90000, fullPacket "eth0") ++ List.replicate m (90000, fullPacket "wlan0"))

private theorem fullLog_outBytes (m : Nat) :
    (sums 1500 (packetsOf 60 ((fullLog m).filter fun a => a.2.clientId = ascii "a") 1500)).outBytes =
      (2 * m + 2) * (2 ^ 32 - 1) := by
  have hmem : ∀ a ∈ fullLog m, a = (90000, fullPacket "eth0") ∨ a = (90000, fullPacket "wlan0") := by
    intro a ha
    simp only [fullLog, List.mem_append, List.mem_cons, List.mem_replicate, List.not_mem_nil,
      or_false] at ha
    tauto
  have hclient : (fullLog m).filter (fun a => a.2.clientId = ascii "a") = fullLog m :=
    List.filter_eq_self.mpr fun a ha => by rcases hmem a ha with rfl | rfl <;> rfl
  have hminute : (fullLog m).filter (fun a => epochOf 60 a.1 = 1500) = fullLog m :=
    List.filter_eq_self.mpr fun a ha => by rcases hmem a ha with rfl | rfl <;> rfl
  have hout : ((fullLog m).map (·.2)).filter (!isIn ·) = (fullLog m).map (·.2) := by
    refine List.filter_eq_self.mpr fun q hq => ?_
    obtain ⟨a, ha, rfl⟩ := List.mem_map.mp hq
    rcases hmem a ha with rfl | rfl <;> decide +kernel
  have hbytes : ∀ x ∈ ((fullLog m).map (·.2)).map (·.bytes), x = 2 ^ 32 - 1 := by
    intro x hx
    obtain ⟨q, hq, rfl⟩ := List.mem_map.mp hx
    obtain ⟨a, ha, rfl⟩ := List.mem_map.mp hq
    rcases hmem a ha with rfl | rfl <;> rfl
  have hlength : (fullLog m).length = 2 * m + 2 := by
    simp only [fullLog, List.length_append, List.length_cons, List.length_nil, List.length_replicate]
    omega
  simp only [sums, packetsOf, hclient, hminute, hout]
  rw [List.sum_eq_card_nsmul _ _ hbytes, List.length_map, List.length_map, hlength, smul_eq_mul]

private def fullCalls (m : Nat) : List Call :=
  [full "eth0", full "wlan0"] ++
    (List.replicate m (full "eth0") ++ List.replicate m (full "wlan0"))

private theorem full_run (m : Nat) (hm : (1 + m) * (2 ^ 32 - 1) < 2 ^ 64) :
    ∃ s, run (step (Limits.of 7 9 9 9) fun _ => 3) {} (fullCalls m) = some s ∧
      s.log = fullLog m := by
  have hfirst : ((run (step (Limits.of 7 9 9 9) fun _ => 3) {} [full "eth0", full "wlan0"]).map
      fun s => (s.log, (s.base.stats.shards 3).dayBuckets.map (·.dayIndex),
        decide (∀ b ∈ (s.base.stats.shards 3).dayBuckets,
          Holds (fullPacket "eth0") 1 b ∧ Holds (fullPacket "wlan0") 1 b),
        get (s.base.stats.shards 3).clientIfaces (ascii "a") [])) =
      some (fullLog 0, [1], true, [ascii "eth0", ascii "wlan0"]) := by decide +kernel
  obtain ⟨s, hs, hv⟩ := Option.map_eq_some_iff.mp hfirst
  simp only [Prod.mk.injEq, decide_eq_true_eq] at hv
  obtain ⟨hlog, hdays, hholds, hifaces⟩ := hv
  have hready : Ready (dayIndex 90000) (fullPacket "eth0") (fullPacket "wlan0") 1 1
      (s.base.stats.shards 3) := by
    obtain ⟨b, hb, hday⟩ := List.map_eq_singleton_iff.mp hdays
    refine ⟨⟨b, hb, hday, hholds b (by simp [hb])⟩, ?_⟩
    have hclient : (fullPacket "eth0").clientId = ascii "a" := rfl
    rw [hclient, hifaces]
    decide
  have hkey : ciKey (fullPacket "wlan0") ≠ ciKey (fullPacket "eth0") := by decide
  have hm' : 1 + m < 2 ^ 64 := by omega
  obtain ⟨s₁, hs₁, ⟨⟨b, hb, hday, h₁, h₂⟩, hi₁, hi₂⟩, hlog₁⟩ :=
    ready_replicate (Limits.of 7 9 9 9) (fun _ => 3) {} hready hkey m hm' hm
  obtain ⟨s₂, hs₂, -, hlog₂⟩ := ready_replicate (Limits.of 7 9 9 9) (fun _ => 3) {}
    (p := fullPacket "wlan0") (q := fullPacket "eth0") ⟨⟨b, hb, hday, h₂, h₁⟩, hi₂, hi₁⟩ (Ne.symm hkey) m hm' hm
  refine ⟨s₂, ?_, ?_⟩
  · rw [fullCalls, run_append, hs, Option.bind_some, run_append, full, hs₁, Option.bind_some]
    exact hs₂
  · rw [hlog₂, hlog₁, hlog, List.append_assoc]
    rfl

private theorem fullCalls_times (m : Nat) : ∀ t ∈ times (fullCalls m), t = 90000 := by
  intro t ht
  obtain ⟨c, hc, hct⟩ := List.mem_filterMap.mp ht
  simp only [fullCalls, List.mem_append, List.mem_cons, List.mem_replicate, List.not_mem_nil,
    or_false] at hc
  obtain rfl | rfl : c = full "eth0" ∨ c = full "wlan0" := by tauto
  · exact (Option.some.inj hct).symm
  · exact (Option.some.inj hct).symm

private theorem fullCalls_clock (m : Nat) :
    (times (fullCalls m) ++ [90000]).Pairwise (· ≤ ·) := by
  have hall : ∀ t ∈ times (fullCalls m) ++ [90000], t = 90000 := by
    intro t ht
    rcases List.mem_append.mp ht with ht | ht
    · exact fullCalls_times m t ht
    · exact List.mem_singleton.mp ht
  refine List.pairwise_of_forall_mem_list fun t ht u hu => ?_
  rw [hall t ht, hall u hu]

/-- After 2^31 + 1 packets on either interface the minute has bytes that do not fit. -/
theorem full_minute :
    ∃ s, (times (fullCalls (2 ^ 31)) ++ [90000]).Pairwise (· ≤ ·) ∧
      (∀ t ∈ times (fullCalls (2 ^ 31)), 86400 < t) ∧
      run (step (Limits.of 7 9 9 9) fun _ => 3) {} (fullCalls (2 ^ 31)) = some s ∧
      ¬ MinutesExact 90000 1 (s.logOf (ascii "a"))
        (s.snapshotHistory (Limits.of 7 9 9 9) (fun _ => 3) 90000 (ascii "a") 1) := by
  obtain ⟨s, hs, hlog⟩ := full_run (2 ^ 31) (by decide)
  have hclock := fullCalls_clock (2 ^ 31)
  refine ⟨s, hclock, fun t ht => ?_, hs, fun h => ?_⟩
  · rw [fullCalls_times _ t ht]
    decide
  · have hfits := (fits_of_minutesExact hclock hs (by decide) (by decide) (by decide) (by decide) h
      1500 (by decide) (by decide)).outBytes
    rw [State.logOf, hlog, fullLog_outBytes] at hfits
    exact absurd hfits (by decide)

end TrafficMonitor.History
