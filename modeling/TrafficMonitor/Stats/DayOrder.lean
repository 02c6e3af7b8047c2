import TrafficMonitor.Stats.Conservation

/-!
# The order of the day buckets (`ntm_types.hpp`, `TrafficStats`)

`addPacket` compares the day of the system clock with the last bucket only: another day
gets a new bucket at the back, an earlier one too. Pruning takes buckets from the front,
and the window start is the day of a front bucket. Proved here:

* `days_addPacket`: what a packet does to the days of its shard;
* `ordered_of_run`: in every run in which no packet comes on a day before the last bucket
  of its shard, days are strictly increasing, pruning takes the oldest ones and none
  inside the window, and the window start is the minimum retained day;
* `clock_stepped_back`: after a clock that goes back over midnight none of this holds.
-/

namespace TrafficMonitor.Stats

open Bytes Maps Sessions Runs

/-! ## Days -/

def Shard.days (sh : Shard) : List Int := sh.dayBuckets.map (·.dayIndex)

/-- The days of all shards, in the order in which a snapshot visits them. -/
def TrafficStats.days (st : TrafficStats) : List Int := st.buckets.map (·.dayIndex)

/-- The days with the bucket of day `d` at the end. -/
def openDay (d : Int) (ds : List Int) : List Int := if ds.getLast? = some d then ds else ds ++ [d]

abbrev Increasing (ds : List Int) : Prop := ds.Pairwise (· < ·)

/-- The packet is turned away before it reaches the buckets. -/
def Shard.Rejects (limits : Limits) (sh : Shard) (p : Packet) : Prop :=
  p.iface ∉ get sh.clientIfaces p.clientId [] ∧
    limits.maxIfacesPerClient ≤ (get sh.clientIfaces p.clientId []).length

instance (limits : Limits) (sh : Shard) (p : Packet) : Decidable (sh.Rejects limits p) :=
  inferInstanceAs (Decidable (_ ∧ _))

/-- A packet that is not turned away comes on the day of the shard's last bucket or later. -/
def NotBack (limits : Limits) (hash : ClientId → Fin kShardCount) (s : State) : Call → Prop
  | .addPacket epochSec p _ => (s.stats.shards (hash p.clientId)).Rejects limits p ∨
      ∀ d ∈ (s.stats.shards (hash p.clientId)).days.getLast?, d ≤ dayIndex epochSec
  | .purgeClient _ => True

instance (limits : Limits) (hash : ClientId → Fin kShardCount) (s : State) :
    ∀ c, Decidable (NotBack limits hash s c)
  | .addPacket epochSec p _ => inferInstanceAs (Decidable (
      (s.stats.shards (hash p.clientId)).Rejects limits p ∨
      ∀ d ∈ (s.stats.shards (hash p.clientId)).days.getLast?, d ≤ dayIndex epochSec))
  | .purgeClient _ => isTrue trivial

/-- One bucket per day, in order, and a window start that is the oldest day. -/
structure Ordered (st : TrafficStats) : Prop where
  increasing : ∀ i, Increasing (st.shards i).days
  windowStart : ∀ now, st.windowStart now = (st.days.min?).elim now (· * 86400)

/-- A day that a packet's pruning takes is older than all days kept, and out of the window. -/
def PrunesOldest (limits : Limits) (today : Int) (sh sh' : Shard) : Prop :=
  ∀ d ∈ sh.days, d ∉ sh'.days → (∀ d' ∈ sh'.days, d < d') ∧ d ≤ today - limits.windowDays

/-! ## Lists of days -/

theorem increasing_openDay {d : Int} {ds : List Int} (h : Increasing ds)
    (hd : ∀ x ∈ ds.getLast?, x ≤ d) : Increasing (openDay d ds) := by
  unfold openDay
  split
  · exact h
  · rename_i hne
    rcases List.eq_nil_or_concat ds with rfl | ⟨ds, x, rfl⟩
    · exact List.pairwise_singleton ..
    · rw [List.concat_eq_append] at h hd hne ⊢
      have hx : x < d := by
        have hle : x ≤ d := hd x (by simp)
        have hnx : x ≠ d := fun e => hne (by simp [e])
        omega
      refine List.pairwise_append.mpr ⟨h, List.pairwise_singleton .., ?_⟩
      intro a ha b hb
      rw [List.mem_singleton.mp hb]
      rcases List.mem_append.mp ha with ha | ha
      · exact ((List.pairwise_append.mp h).2.2 a ha x (by simp)).trans hx
      · rwa [List.mem_singleton.mp ha]

/-- Strictly increasing days up to `t` that follow `x` push it back, one day each. -/
theorem add_length_le {t x : Int} {ds : List Int} (h : Increasing (x :: ds))
    (ht : ∀ d ∈ x :: ds, d ≤ t) : x + ds.length ≤ t := by
  induction ds generalizing x with
  | nil => simpa using ht x (by simp)
  | cons y ds ih =>
    have hxy : x < y := (List.pairwise_cons.mp h).1 y (by simp)
    have := ih (List.pairwise_cons.mp h).2 fun d hd => ht d (by simp [List.mem_cons.mp hd])
    simp only [List.length_cons]
    omega

/-- What is dropped from the front of increasing days is older than the rest. -/
theorem dropped_of_increasing {t : Int} {ds : List Int} {w : Nat} (h : Increasing ds)
    (ht : ∀ d ∈ ds, d ≤ t) {d : Int} (hd : d ∈ ds) (hout : d ∉ prune w ds) :
    (∀ d' ∈ prune w ds, d < d') ∧ d ≤ t - w := by
  obtain ⟨as, bs, rfl⟩ := List.append_of_mem hd
  obtain ⟨-, hbs, hab⟩ := List.pairwise_append.mp h
  -- the days kept all come after `d`
  have hlen : w ≤ bs.length := by
    by_contra hlt
    apply hout
    rw [prune, List.drop_append_of_le_length
      (by simp only [List.length_append, List.length_cons]; omega)]
    exact List.mem_append_right _ (by simp)
  have hprune : prune w (as ++ d :: bs) = bs.drop (bs.length - w) := by
    have he : (as ++ d :: bs).length - w = as.length + (1 + (bs.length - w)) := by
      simp only [List.length_append, List.length_cons]
      omega
    rw [prune, he, List.drop_length_add_append, Nat.add_comm 1, List.drop_succ_cons]
  constructor
  · intro d' hd'
    rw [hprune] at hd'
    exact (List.pairwise_cons.mp hbs).1 d' (List.mem_of_mem_drop hd')
  · have := add_length_le hbs fun x hx => ht x (List.mem_append_right _ hx)
    omega

theorem subset_openDay (d : Int) (ds : List Int) : ds ⊆ openDay d ds := by
  unfold openDay
  split
  · exact List.Subset.refl _
  · exact List.subset_append_left _ _

theorem le_of_mem_openDay {d x : Int} {ds : List Int} (h : Increasing ds)
    (hd : ∀ x ∈ ds.getLast?, x ≤ d) (hx : x ∈ openDay d ds) : x ≤ d := by
  have hle : ∀ y ∈ ds, y ≤ d := by
    rcases List.eq_nil_or_concat ds with rfl | ⟨ds, z, rfl⟩
    · simp
    · rw [List.concat_eq_append] at h hd ⊢
      have hz : z ≤ d := hd z (by simp)
      intro y hy
      rcases List.mem_append.mp hy with hy | hy
      · exact ((List.pairwise_append.mp h).2.2 y hy z (by simp)).le.trans hz
      · rwa [List.mem_singleton.mp hy]
  unfold openDay at hx
  split at hx
  · exact hle x hx
  · rcases List.mem_append.mp hx with hx | hx
    · exact hle x hx
    · exact (List.mem_singleton.mp hx).le

/-! ## One packet -/

variable {limits : Limits} {hash : ClientId → Fin kShardCount}

theorem days_openBucket (d : Int) (bs : List DayBucket) (back : DayBucket)
    (hback : back.dayIndex = (openBucket DayBucket.dayIndex (fun d => { dayIndex := d }) d bs).2.dayIndex) :
    ((openBucket DayBucket.dayIndex (fun d => { dayIndex := d }) d bs).1 ++ [back]).map
      (·.dayIndex) = openDay d (bs.map (·.dayIndex)) := by
  rcases List.eq_nil_or_concat bs with rfl | ⟨bs, b, rfl⟩
  · simpa [openBucket, openDay] using hback
  · rw [List.concat_eq_append, openBucket_concat] at hback ⊢
    by_cases hb : b.dayIndex = d
    · simp only [hb, ↓reduceIte] at hback ⊢
      simp [openDay, hb, hback]
    · simp only [hb, ↓reduceIte] at hback ⊢
      simp [openDay, hb, hback]

/-- A packet that is turned away is counted, and nothing else. -/
theorem addPacket_of_rejects {epochSec : Int} {p : Packet} {o : Orders} {sh : Shard}
    (hr : sh.Rejects limits p) : sh.addPacket limits epochSec p o = some ({ sh with
      clientIfaces := sh.clientIfaces.insert p.clientId (get sh.clientIfaces p.clientId [])
      ifaceRejectCount :=
        sh.ifaceRejectCount.insert p.clientId (get sh.ifaceRejectCount p.clientId 0 + 1) },
      .ifaceCapExceeded) := by
  unfold Shard.addPacket
  exact if_pos hr

theorem accepted_of_not_rejects {epochSec : Int} {p : Packet} {o : Orders} {sh sh' : Shard}
    {res : AddResult} (hr : ¬ sh.Rejects limits p)
    (h : sh.addPacket limits epochSec p o = some (sh', res)) : ∃ ev, res = .accepted ev := by
  have hr' : ¬ (p.iface ∉ get sh.clientIfaces p.clientId [] ∧
    limits.maxIfacesPerClient ≤ (get sh.clientIfaces p.clientId []).length) := hr
  unfold Shard.addPacket at h
  dsimp only at h
  rw [if_neg hr'] at h
  obtain ⟨_, _, h⟩ := Option.map_eq_some_iff.mp h
  cases h
  exact ⟨_, rfl⟩

/-- **The days after a packet.** -/
theorem days_addPacket {epochSec : Int} {p : Packet} {o : Orders} {sh sh' : Shard} {res : AddResult}
    (h : sh.addPacket limits epochSec p o = some (sh', res)) :
    (sh.Rejects limits p → sh'.days = sh.days) ∧ (¬ sh.Rejects limits p →
      sh'.days = prune limits.windowDays (openDay (dayIndex epochSec) sh.days)) := by
  constructor
  · intro hr
    rw [addPacket_of_rejects hr] at h
    cases h
    rfl
  · intro hr
    obtain ⟨ev, rfl⟩ := accepted_of_not_rejects hr h
    obtain ⟨-, ⟨hres, -⟩ | ⟨ev, opened, back, rfl, hadd, -, hb⟩⟩ := addPacket_spec h
    · cases hres
    · obtain ⟨_, _, -, -, hback⟩ := add_spec hadd
      have hday : back.dayIndex = (openBucket DayBucket.dayIndex (fun d => { dayIndex := d })
          (dayIndex epochSec) sh.dayBuckets).2.dayIndex := by rw [hback]
      have hopen := days_openBucket (dayIndex epochSec) sh.dayBuckets back hday
      rw [Shard.days, hb, Shard.days, ← hopen, prune, prune, List.map_drop, List.length_map]

@[simp] theorem days_purge (sh : Shard) (clientId : ClientId) :
    (sh.purgeClient clientId).1.days = sh.days := by
  simp [Shard.days, Shard.purgeClient, resetClientInShard, DayBucket.reset]

/-- One packet that does not come on an earlier day. -/
theorem increasing_addPacket {epochSec : Int} {p : Packet} {o : Orders} {sh sh' : Shard}
    {res : AddResult} (hi : Increasing sh.days)
    (hback : sh.Rejects limits p ∨ ∀ d ∈ sh.days.getLast?, d ≤ dayIndex epochSec)
    (h : sh.addPacket limits epochSec p o = some (sh', res)) :
    Increasing sh'.days ∧ PrunesOldest limits (dayIndex epochSec) sh sh' := by
  obtain ⟨hrej, hacc⟩ := days_addPacket h
  by_cases hr : sh.Rejects limits p
  · rw [PrunesOldest, hrej hr]
    exact ⟨hi, fun d hd hout => absurd hd hout⟩
  · have hle := hback.resolve_left hr
    have hopen := increasing_openDay hi hle
    rw [PrunesOldest, hacc hr]
    refine ⟨hopen.sublist (List.drop_sublist _ _), fun d hd hout => ?_⟩
    exact dropped_of_increasing hopen (fun x hx => le_of_mem_openDay hi hle hx)
      (subset_openDay _ _ hd) hout

/-! ## The window start -/

theorem head_le_of_increasing {ds : List Int} (h : Increasing ds) {d x : Int}
    (hd : ds.head? = some d) (hx : x ∈ ds) : d ≤ x := by
  cases ds with
  | nil => cases hd
  | cons y ds =>
    obtain rfl : y = d := by simpa using hd
    rcases List.mem_cons.mp hx with rfl | hx
    · exact Int.le_refl _
    · exact ((List.pairwise_cons.mp h).1 x hx).le

theorem mem_days {st : TrafficStats} {d : Int} : d ∈ st.days ↔ ∃ i, d ∈ (st.shards i).days := by
  simp only [TrafficStats.days, Shard.days, List.mem_map, TrafficStats.buckets, List.mem_flatMap,
    List.mem_finRange, true_and]
  constructor
  · rintro ⟨b, ⟨i, hb⟩, hd⟩
    exact ⟨i, b, hb, hd⟩
  · rintro ⟨i, b, hb, hd⟩
    exact ⟨b, ⟨i, hb⟩, hd⟩

/-- The least of the front days is the least of all days. -/
theorem minDay_eq {st : TrafficStats} (h : ∀ i, Increasing (st.shards i).days) :
    st.minDay = st.days.min? := by
  have hheads : ∀ d, d ∈ (List.finRange kShardCount).filterMap (fun i =>
      (st.shards i).dayBuckets.head?.map (·.dayIndex)) ↔
        ∃ i, (st.shards i).days.head? = some d := by
    simp [List.mem_filterMap, Shard.days]
  unfold TrafficStats.minDay
  cases hmin : ((List.finRange kShardCount).filterMap fun i =>
      (st.shards i).dayBuckets.head?.map (·.dayIndex)).min? with
  | none =>
    have hnil := List.min?_eq_none_iff.mp hmin
    symm
    rw [List.min?_eq_none_iff, List.eq_nil_iff_forall_not_mem]
    intro d hd
    obtain ⟨i, hd⟩ := mem_days.mp hd
    obtain ⟨x, hx⟩ := Option.ne_none_iff_exists'.mp
      (mt List.head?_eq_none_iff.mp (List.ne_nil_of_mem hd))
    have := (hheads x).mpr ⟨i, hx⟩
    rw [hnil] at this
    cases this
  | some d =>
    obtain ⟨hmem, hle⟩ := List.min?_eq_some_iff.mp hmin
    symm
    rw [List.min?_eq_some_iff]
    obtain ⟨i, hi⟩ := (hheads d).mp hmem
    refine ⟨mem_days.mpr ⟨i, List.mem_of_head? hi⟩, fun x hx => ?_⟩
    obtain ⟨j, hx⟩ := mem_days.mp hx
    obtain ⟨y, hy⟩ := Option.ne_none_iff_exists'.mp
      (mt List.head?_eq_none_iff.mp (List.ne_nil_of_mem hx))
    exact (hle y ((hheads y).mpr ⟨j, hy⟩)).trans (head_le_of_increasing (h j) hy hx)

theorem ordered_of_increasing {st : TrafficStats} (h : ∀ i, Increasing (st.shards i).days) :
    Ordered st := by
  refine ⟨h, fun now => ?_⟩
  rw [TrafficStats.windowStart, minDay_eq h]
  cases st.days.min? <;> rfl

/-! ## Every run -/

theorem increasing_step {s s' : State} {c : Call}
    (hi : ∀ i, Increasing (s.stats.shards i).days) (hc : NotBack limits hash s c)
    (h : step limits hash s c = some s') : ∀ i, Increasing (s'.stats.shards i).days := by
  intro i
  cases c with
  | addPacket epochSec p o =>
    have hsh : ∀ sh res, (s.stats.shards (hash p.clientId)).addPacket limits epochSec p o =
        some (sh, res) → Increasing (Function.update s.stats.shards (hash p.clientId) sh i).days := by
      intro sh res hadd
      by_cases hih : i = hash p.clientId
      · subst hih
        rw [Function.update_self]
        exact (increasing_addPacket (hi _) hc hadd).1
      · rw [Function.update_of_ne hih]
        exact hi i
    simp only [step] at h
    split at h
    · cases h
    · rename_i sh hadd
      cases h
      exact hsh sh _ hadd
    · rename_i sh ev hadd
      cases h
      exact hsh sh _ hadd
  | purgeClient clientId =>
    cases h
    by_cases hih : i = hash clientId
    · subst hih
      simpa using hi _
    · simpa [hih] using hi i

theorem shard_step {s s' : State} {epochSec : Int} {p : Packet} {o : Orders}
    (h : step limits hash s (.addPacket epochSec p o) = some s') : ∃ res,
      (s.stats.shards (hash p.clientId)).addPacket limits epochSec p o =
        some (s'.stats.shards (hash p.clientId), res) := by
  simp only [step] at h
  split at h
  · cases h
  · rename_i sh hadd
    cases h
    exact ⟨_, by simpa using hadd⟩
  · rename_i sh ev hadd
    cases h
    exact ⟨_, by simpa using hadd⟩

/-- The other shards are left alone. -/
theorem shards_of_ne {s s' : State} {epochSec : Int} {p : Packet} {o : Orders}
    (h : step limits hash s (.addPacket epochSec p o) = some s') {i : Fin kShardCount}
    (hi : i ≠ hash p.clientId) : s'.stats.shards i = s.stats.shards i := by
  simp only [step] at h
  split at h <;> cases h <;> simp [hi]

/-- **Order.** In every run in which no packet goes back behind the last bucket of its shard,
the buckets are ordered, and so are the days that the next such packet prunes. -/
theorem ordered_of_run (limits : Limits) (hash : ClientId → Fin kShardCount) (calls : List Call)
    (s : State) (hcond : Meets (step limits hash) (NotBack limits hash) {} calls)
    (hr : run (step limits hash) {} calls = some s) :
    Ordered s.stats ∧ ∀ epochSec p o s', NotBack limits hash s (.addPacket epochSec p o) →
      step limits hash s (.addPacket epochSec p o) = some s' →
      PrunesOldest limits (dayIndex epochSec) (s.stats.shards (hash p.clientId))
        (s'.stats.shards (hash p.clientId)) := by
  have hi : ∀ i, Increasing (s.stats.shards i).days :=
    invariant_of_meets (I := fun s : State => ∀ i, Increasing (s.stats.shards i).days)
      (fun _ _ _ hi hc hs => increasing_step hi hc hs) (fun _ => List.Pairwise.nil) hcond hr
  refine ⟨ordered_of_increasing hi, fun epochSec p o s' hc hs => ?_⟩
  obtain ⟨res, hadd⟩ := shard_step hs
  exact (increasing_addPacket (hi _) hc hadd).2

/-! A window of two days: packets of three days, and a clock that goes back over midnight. -/

private def packetOn (epochSec : Int) : Call :=
  .addPacket epochSec ⟨ascii "a", ascii "eth0", ascii "10.0.0.5", ascii "9.9.9.9", ascii "LAN",
    ascii "DE", ascii "LAN", ascii "e", 60⟩ {}

theorem ordered_of_run_three_days :
    ∃ s, run (step (Limits.of 2 9 9 9) fun _ => 3) {} ([100, 86500, 172900].map packetOn) = some s ∧
      s.stats.days = [1, 2] ∧ Ordered s.stats := by
  have hrun : (run (step (Limits.of 2 9 9 9) fun _ => 3) {}
      ([100, 86500, 172900].map packetOn)).map (fun s => s.stats.days) = some [1, 2] := by
    decide +kernel
  obtain ⟨s, hs, hdays⟩ := Option.map_eq_some_iff.mp hrun
  exact ⟨s, hs, hdays, (ordered_of_run _ _ _ s (by decide +kernel) hs).1⟩

/-- After a packet of day 1 and one of day 0 the buckets are of days 1 and 0, and the window
is said to start on day 1; a packet of day 1 then prunes the bucket of day 1. -/
theorem clock_stepped_back :
    ∃ s s', run (step (Limits.of 2 9 9 9) fun _ => 3) {} ([86500, 86300].map packetOn) = some s ∧
      run (step (Limits.of 2 9 9 9) fun _ => 3) {} ([86500, 86300, 86500].map packetOn) = some s' ∧
      s.stats.days = [1, 0] ∧ s.stats.windowStart 86500 = 86400 ∧ ¬ Ordered s.stats ∧
      s'.stats.days = [0, 1] := by
  have h : (run (step (Limits.of 2 9 9 9) fun _ => 3) {} ([86500, 86300].map packetOn)).map
      (fun s => (s.stats.days, s.stats.windowStart 86500)) = some ([1, 0], 86400) := by
    decide +kernel
  have h' : (run (step (Limits.of 2 9 9 9) fun _ => 3) {}
      ([86500, 86300, 86500].map packetOn)).map (fun s => s.stats.days) = some [0, 1] := by
    decide +kernel
  obtain ⟨s, hs, hv⟩ := Option.map_eq_some_iff.mp h
  obtain ⟨s', hs', hdays'⟩ := Option.map_eq_some_iff.mp h'
  simp only [Prod.mk.injEq] at hv
  refine ⟨s, s', hs, hs', hv.1, hv.2, fun hord => ?_, hdays'⟩
  have hstart := hord.windowStart 86500
  rw [hv.1, hv.2] at hstart
  exact absurd hstart (by decide)

end TrafficMonitor.Stats
