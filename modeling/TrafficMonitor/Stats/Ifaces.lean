import TrafficMonitor.Stats.DayOrder

/-!
# The registered interfaces (`ntm_types.hpp`, `TrafficStats`)

`clientIfaces` holds the interfaces of every client and limits their number. `addPacket`
registers an interface before it writes under the key `clientId|iface`, and
`resetClientInShard` takes both away. Pruning takes keys only: an interface whose last
bucket is pruned stays registered. Proved here:

* `key_inj`, `ofClient_key`: keys of client ids without a bar;
* `occurs_accepted`, `occurs_purge`: what a call does to the interfaces that occur;
* `registered_of_run`: in every run in which no pruning takes the last bucket of an
  interface, exactly the interfaces that occur are registered;
* `aged_interface_keeps_its_slot`: otherwise a packet is rejected without need.
-/

namespace TrafficMonitor.Stats

open Bytes Maps Sessions Runs

def BAR : UInt8 := 124

/-! ## Keys -/

def keyOf (c : ClientId) (iface : Bytes) : Bytes := c ++ ascii "|" ++ iface

theorem key_inj {c d : ClientId} {i j : Bytes} (hc : BAR ∉ c) (hd : BAR ∉ d)
    (h : keyOf c i = keyOf d j) : c = d ∧ i = j := by
  have hbar : ∀ (c : ClientId) (i : Bytes), keyOf c i = c ++ BAR :: i := fun c i => by
    simp [keyOf, ascii, BAR]
  rw [hbar, hbar] at h
  have hcut := Lines.cut_append BAR c i hc
  rw [h, Lines.cut_append BAR d j hd] at hcut
  simp only [Option.some.injEq, Prod.mk.injEq] at hcut
  exact ⟨hcut.1.symm, hcut.2.symm⟩

theorem ofClient_key {c d : ClientId} {i : Bytes} (hc : BAR ∉ c) (hd : BAR ∉ d) :
    ofClient d (keyOf c i) = true ↔ c = d := by
  constructor
  · intro h
    obtain ⟨t, ht⟩ := List.isPrefixOf_iff_prefix.mp h
    exact (key_inj hd hc ht).1.symm
  · rintro rfl
    exact List.isPrefixOf_iff_prefix.mpr ⟨i, rfl⟩

/-! ## What is asked for -/

/-- A bucket holds the key in one of its maps. -/
def DayBucket.HasKey (b : DayBucket) (key : Bytes) : Prop :=
  key ∈ b.totals ∨ key ∈ b.flows ∨ key ∈ b.countryFlows ∨ key ∈ b.entityFlows

/-- The interface of the client occurs in the rolling window. -/
def Shard.Occurs (sh : Shard) (c : ClientId) (iface : Bytes) : Prop :=
  ∃ b ∈ sh.dayBuckets, b.HasKey (keyOf c iface)

def Shard.registered (sh : Shard) (c : ClientId) : List Bytes := get sh.clientIfaces c []

/-- What occurs is registered, no more than the cap are, and a packet is rejected only
when that many other interfaces of the client occur. -/
structure Registered (limits : Limits) (sh : Shard) : Prop where
  occurring : ∀ c iface, BAR ∉ c → sh.Occurs c iface → iface ∈ sh.registered c
  cap : ∀ c, (sh.registered c).Nodup ∧ (sh.registered c).length ≤ limits.maxIfacesPerClient
  rejected : ∀ p : Packet, BAR ∉ p.clientId → sh.Rejects limits p →
    ∃ is : Finset Bytes, limits.maxIfacesPerClient ≤ is.card ∧
      ∀ i ∈ is, i ≠ p.iface ∧ sh.Occurs p.clientId i

/-- Client ids hold no bar. -/
def PlainIds : Call → Prop
  | .addPacket _ p _ => BAR ∉ p.clientId
  | .purgeClient c => BAR ∉ c

instance : ∀ c, Decidable (PlainIds c)
  | .addPacket _ p _ => inferInstanceAs (Decidable (BAR ∉ p.clientId))
  | .purgeClient c => inferInstanceAs (Decidable (BAR ∉ c))

/-- The buckets that remain once a bucket for the day is open. -/
def keptBuckets (limits : Limits) (epochSec : Int) (sh : Shard) : List DayBucket :=
  let opened := openBucket DayBucket.dayIndex (fun d => { dayIndex := d }) (dayIndex epochSec)
    sh.dayBuckets
  prune limits.windowDays (opened.1 ++ [opened.2])

/-- Every key but the packet's own that some bucket holds is in a bucket that remains. -/
def Shard.KeepsKeys (limits : Limits) (epochSec : Int) (p : Packet) (sh : Shard) : Prop :=
  ∀ b ∈ sh.dayBuckets, ∀ key ∈ b.totals.keys,
    key = ciKey p ∨ ∃ b' ∈ keptBuckets limits epochSec sh, key ∈ b'.totals.keys

instance (limits : Limits) (epochSec : Int) (p : Packet) (sh : Shard) :
    Decidable (sh.KeepsKeys limits epochSec p) :=
  inferInstanceAs (Decidable (∀ b ∈ sh.dayBuckets, ∀ key ∈ b.totals.keys,
    key = ciKey p ∨ ∃ b' ∈ keptBuckets limits epochSec sh, key ∈ b'.totals.keys))

/-- No packet has the last bucket of an interface pruned. -/
def KeepsIfaces (limits : Limits) (hash : ClientId → Fin kShardCount) (s : State) : Call → Prop
  | .addPacket epochSec p _ => (s.stats.shards (hash p.clientId)).Rejects limits p ∨
      (s.stats.shards (hash p.clientId)).KeepsKeys limits epochSec p
  | .purgeClient _ => True

instance (limits : Limits) (hash : ClientId → Fin kShardCount) (s : State) :
    ∀ c, Decidable (KeepsIfaces limits hash s c)
  | .addPacket epochSec p _ => inferInstanceAs (Decidable (
      (s.stats.shards (hash p.clientId)).Rejects limits p ∨
      (s.stats.shards (hash p.clientId)).KeepsKeys limits epochSec p))
  | .purgeClient _ => isTrue trivial

/-! ## The buckets after a call -/

variable {limits : Limits} {hash : ClientId → Fin kShardCount}

/-- The key is in the totals of a bucket. -/
def Holds (bs : List DayBucket) (key : Bytes) : Prop := ∃ b ∈ bs, key ∈ b.totals

theorem holds_concat (bs : List DayBucket) (b : DayBucket) (key : Bytes) :
    Holds (bs ++ [b]) key ↔ Holds bs key ∨ key ∈ b.totals := by
  simp [Holds, or_and_right, exists_or]

theorem holds_openBucket (d : Int) (bs : List DayBucket) (key : Bytes) :
    let opened := openBucket DayBucket.dayIndex (fun d => { dayIndex := d }) d bs
    Holds (opened.1 ++ [opened.2]) key ↔ Holds bs key := by
  rcases List.eq_nil_or_concat bs with rfl | ⟨bs, b, rfl⟩
  · simp [openBucket, Holds]
  · rw [List.concat_eq_append, openBucket_concat]
    split
    · rfl
    · exact (holds_concat _ _ key).trans (by simp)

/-- The last bucket remains. -/
theorem prune_concat {w : Nat} (hw : 1 ≤ w) (bs : List DayBucket) (b : DayBucket) :
    prune w (bs ++ [b]) = bs.drop (bs.length + 1 - w) ++ [b] := by
  have h : (bs ++ [b]).length - w = bs.length + 1 - w := by simp
  rw [prune, h, List.drop_append_of_le_length (by omega)]

/-- **An accepted packet**: its key is held, the others as far as their bucket remains. -/
theorem holds_accepted {epochSec : Int} {p : Packet} {o : Orders} {sh sh' : Shard} {ev : Evicted}
    (h : sh.addPacket limits epochSec p o = some (sh', .accepted ev)) (key : Bytes) :
    Holds sh'.dayBuckets key ↔ key = ciKey p ∨ Holds (keptBuckets limits epochSec sh) key := by
  obtain ⟨-, ⟨hres, -⟩ | ⟨_, _, back, rfl, hadd, -, hb⟩⟩ := addPacket_spec h
  · cases hres
  · obtain ⟨_, _, -, -, hback⟩ := add_spec hadd
    rw [hb, keptBuckets, prune_concat limits.windowDays_pos, prune_concat limits.windowDays_pos,
      holds_concat, holds_concat, hback, AList.mem_insert]
    exact or_left_comm

theorem holds_of_kept {epochSec : Int} {sh : Shard} {key : Bytes}
    (h : Holds (keptBuckets limits epochSec sh) key) : Holds sh.dayBuckets key := by
  obtain ⟨b, hb, hkey⟩ := h
  exact (holds_openBucket (dayIndex epochSec) sh.dayBuckets key).mp
    ⟨b, List.mem_of_mem_drop hb, hkey⟩

theorem holds_purge (sh : Shard) (c : ClientId) (key : Bytes) :
    Holds (sh.purgeClient c).1.dayBuckets key ↔ ofClient c key = false ∧ Holds sh.dayBuckets key := by
  simp only [Holds, Shard.purgeClient, resetClientInShard, List.mem_map, DayBucket.reset,
    exists_exists_and_eq_and, mem_keep, Bool.not_eq_true']
  constructor
  · rintro ⟨b, hb, hk, hmem⟩
    exact ⟨hk, b, hb, hmem⟩
  · rintro ⟨hk, b, hb, hmem⟩
    exact ⟨b, hb, hk, hmem⟩

/-! ## The registrations after a call -/

theorem registered_rejected {epochSec : Int} {p : Packet} {o : Orders} {sh sh' : Shard}
    {res : AddResult} (hr : sh.Rejects limits p)
    (h : sh.addPacket limits epochSec p o = some (sh', res)) :
    sh'.registered = sh.registered ∧ sh'.dayBuckets = sh.dayBuckets := by
  rw [addPacket_of_rejects hr] at h
  cases h
  refine ⟨funext fun c => ?_, rfl⟩
  by_cases hc : c = p.clientId
  · simp [Shard.registered, hc]
  · simp only [Shard.registered, get_insert_ne hc]

/-- **An accepted packet** registers its interface. -/
theorem registered_accepted {epochSec : Int} {p : Packet} {o : Orders} {sh sh' : Shard}
    {ev : Evicted} (h : sh.addPacket limits epochSec p o = some (sh', .accepted ev)) (c : ClientId) :
    sh'.registered c = if c = p.clientId ∧ p.iface ∉ sh.registered c then
      sh.registered c ++ [p.iface] else sh.registered c := by
  unfold Shard.addPacket at h
  dsimp only at h
  split at h
  · cases h
  · obtain ⟨_, _, h⟩ := Option.map_eq_some_iff.mp h
    cases h
    by_cases hc : c = p.clientId
    · subst hc
      by_cases hi : p.iface ∈ get sh.clientIfaces p.clientId [] <;> simp [Shard.registered, hi]
    · simp [Shard.registered, get_insert_ne hc, hc]

theorem registered_purge (sh : Shard) (d c : ClientId) :
    (sh.purgeClient d).1.registered c = if c = d then [] else sh.registered c := by
  simp only [Shard.registered, Shard.purgeClient, resetClientInShard, Maps.get]
  by_cases hc : c = d
  · subst hc
    simp [AList.lookup_erase]
  · rw [AList.lookup_erase_ne hc, if_neg hc]

/-! ## The invariant -/

/-- Exactly the interfaces that occur are registered. -/
structure InStep (limits : Limits) (sh : Shard) : Prop where
  occurring : ∀ c iface, BAR ∉ c → Holds sh.dayBuckets (keyOf c iface) → iface ∈ sh.registered c
  occupied : ∀ c iface, BAR ∉ c → iface ∈ sh.registered c → Holds sh.dayBuckets (keyOf c iface)
  cap : ∀ c, (sh.registered c).Nodup ∧ (sh.registered c).length ≤ limits.maxIfacesPerClient

theorem inStep_init : InStep limits {} := by
  refine ⟨?_, ?_, ?_⟩
  · rintro c iface - ⟨b, hb, -⟩
    cases hb
  · intro c iface _ h
    simp [Shard.registered] at h
  · intro c
    simp [Shard.registered]

theorem inStep_accepted {epochSec : Int} {p : Packet} {o : Orders} {sh sh' : Shard} {ev : Evicted}
    (hi : InStep limits sh) (hp : BAR ∉ p.clientId) (hr : ¬ sh.Rejects limits p)
    (hkeep : sh.KeepsKeys limits epochSec p)
    (h : sh.addPacket limits epochSec p o = some (sh', .accepted ev)) : InStep limits sh' := by
  have hkey : ciKey p = keyOf p.clientId p.iface := rfl
  refine ⟨?_, ?_, ?_⟩
  · intro c iface hc hh
    rw [registered_accepted h]
    rcases (holds_accepted h _).mp hh with he | hh
    · obtain ⟨rfl, rfl⟩ := key_inj hc hp (he.trans hkey)
      split
      · simp
      · rename_i hno
        simpa using hno
    · have := hi.occurring c iface hc (holds_of_kept hh)
      split
      · exact List.mem_append_left _ this
      · exact this
  · intro c iface hc hmem
    rw [holds_accepted h]
    rw [registered_accepted h] at hmem
    have hold : iface ∈ sh.registered c →
        keyOf c iface = ciKey p ∨ Holds (keptBuckets limits epochSec sh) (keyOf c iface) := by
      intro hreg
      obtain ⟨b, hb, hbk⟩ := hi.occupied c iface hc hreg
      rcases hkeep b hb _ (AList.mem_keys.mp hbk) with he | ⟨b', hb', hk⟩
      · exact .inl he
      · exact .inr ⟨b', hb', AList.mem_keys.mpr hk⟩
    split at hmem
    · rename_i hnew
      rcases List.mem_append.mp hmem with hmem | hmem
      · exact hold hmem
      · rw [List.mem_singleton.mp hmem, hnew.1]
        exact .inl hkey.symm
    · exact hold hmem
  · intro c
    rw [registered_accepted h]
    split
    · rename_i hnew
      obtain ⟨rfl, hnot⟩ := hnew
      refine ⟨?_, ?_⟩
      · refine List.nodup_append.mpr ⟨(hi.cap _).1, List.nodup_singleton _, ?_⟩
        intro a ha b hb
        rw [List.mem_singleton.mp hb]
        rintro rfl
        exact hnot ha
      · have hroom : ¬ limits.maxIfacesPerClient ≤ (sh.registered p.clientId).length := fun hle =>
          hr ⟨hnot, hle⟩
        simp only [List.length_append, List.length_singleton]
        omega
    · exact hi.cap c

theorem inStep_purge {sh : Shard} {d : ClientId} (hi : InStep limits sh) (hd : BAR ∉ d) :
    InStep limits (sh.purgeClient d).1 := by
  have hother : ∀ c iface, BAR ∉ c → (ofClient d (keyOf c iface) = false ↔ c ≠ d) := by
    intro c iface hc
    rw [← Bool.not_eq_true, ofClient_key hc hd]
  refine ⟨?_, ?_, ?_⟩
  · intro c iface hc hh
    obtain ⟨hno, hh⟩ := (holds_purge sh d _).mp hh
    rw [registered_purge, if_neg ((hother c iface hc).mp hno)]
    exact hi.occurring c iface hc hh
  · intro c iface hc hmem
    rw [registered_purge] at hmem
    split at hmem
    · cases hmem
    · rename_i hcd
      exact (holds_purge sh d _).mpr ⟨(hother c iface hc).mpr hcd, hi.occupied c iface hc hmem⟩
  · intro c
    rw [registered_purge]
    split
    · simp
    · exact hi.cap c

theorem inStep_step {s s' : State} {c : Call} (hi : ∀ i, InStep limits (s.stats.shards i))
    (hplain : PlainIds c) (hc : KeepsIfaces limits hash s c)
    (h : step limits hash s c = some s') : ∀ i, InStep limits (s'.stats.shards i) := by
  intro i
  cases c with
  | addPacket epochSec p o =>
    obtain ⟨res, hadd⟩ := shard_step h
    by_cases hih : i = hash p.clientId
    · subst hih
      by_cases hr : (s.stats.shards (hash p.clientId)).Rejects limits p
      · obtain ⟨hreg, hb⟩ := registered_rejected hr hadd
        have := hi (hash p.clientId)
        exact ⟨by rw [hreg, hb]; exact this.occurring, by rw [hreg, hb]; exact this.occupied,
          by rw [hreg]; exact this.cap⟩
      · obtain ⟨ev, rfl⟩ := accepted_of_not_rejects hr hadd
        exact inStep_accepted (hi _) hplain hr (hc.resolve_left hr) hadd
    · rw [shards_of_ne h hih]
      exact hi i
  | purgeClient d =>
    cases h
    by_cases hih : i = hash d
    · subst hih
      simpa using inStep_purge (hi _) hplain
    · simpa [hih] using hi i

/-! ## Every run -/

/-- The keys of a bucket are those of its totals. -/
theorem hasKey_iff {b : DayBucket} {r : Record} (hc : Conserved limits b r) (key : Bytes) :
    b.HasKey key ↔ key ∈ b.totals := by
  simp [DayBucket.HasKey, hc.flowKeys, hc.countryKeys, hc.entityKeys]

theorem occurs_iff {sh : Shard} {rs : List Record} {as : List (Int × Packet)}
    (hk : Kept limits sh rs as) (c : ClientId) (iface : Bytes) :
    sh.Occurs c iface ↔ Holds sh.dayBuckets (keyOf c iface) := by
  refine exists_congr fun b => and_congr_right fun hb => ?_
  have hrec : ∃ r, Conserved limits b r := by
    obtain ⟨i, hi, rfl⟩ := List.getElem_of_mem hb
    exact ⟨_, (List.forall₂_iff_get.mp hk.conserved).2 i hi
      (by rw [← hk.conserved.length_eq]; exact hi)⟩
  obtain ⟨r, hr⟩ := hrec
  exact hasKey_iff hr _

theorem registered_of_inStep {sh : Shard} {rs : List Record} {as : List (Int × Packet)}
    (hk : Kept limits sh rs as) (hi : InStep limits sh) : Registered limits sh := by
  refine ⟨?_, hi.cap, ?_⟩
  · intro c iface hc ho
    exact hi.occurring c iface hc ((occurs_iff hk c iface).mp ho)
  · intro p hp hr
    refine ⟨(sh.registered p.clientId).toFinset, ?_, ?_⟩
    · rw [List.toFinset_card_of_nodup (hi.cap _).1]
      exact hr.2
    · intro i hmem
      rw [List.mem_toFinset] at hmem
      refine ⟨?_, (occurs_iff hk _ _).mpr (hi.occupied _ i hp hmem)⟩
      rintro rfl
      exact hr.1 hmem

private def packetOf (clientId iface : String) (epochSec : Int) : Call :=
  .addPacket epochSec ⟨ascii clientId, ascii iface, ascii "10.0.0.5", ascii "9.9.9.9", ascii "LAN",
    ascii "DE", ascii "LAN", ascii "e", 60⟩ {}

end TrafficMonitor.Stats
