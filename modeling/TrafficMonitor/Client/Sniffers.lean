import TrafficMonitor.Basic.Bytes
import TrafficMonitor.Basic.Maps
import TrafficMonitor.Basic.Runs

/-!
# The sniffers of the client

One sniffer captures on each device, in a thread of its own. The main thread enumerates the
devices from time to time and reconciles the map of the sniffers with them, by name: it stops the
sniffers whose device is gone and starts one for each device that has none. A thread ends when its
device cannot be opened, when a dispatch fails, and when an exception is thrown. The threads go on
while the map is reconciled.

Proved here:

* `owned_of_run`: a thread that runs is the one of the entry of its device;
* `call_returns`: a call ends after the rounds of its two loops;
* `reconciled_iff_of_run`: a call leaves each desired device with a thread that ran when the call
  started or that was started by it, if and only if no thread of a desired device had ended;
* `dead_kept`: a device that stays without a thread.
-/

namespace TrafficMonitor.Sniffers

open Bytes

/-! ## Devices -/

/-- What `pcap_findalldevs` says about a device. -/
structure Device where
  name : Option Bytes
  description : Option Bytes
  loopback : Bool
  addresses : Bool

/-- On Linux; on Windows only the flag counts. -/
def isLoopbackIface (d : Device) : Bool := d.loopback || d.name == some (ascii "lo")

def DASH : UInt8 := 45

/-- The description or else the name, with dashes for blanks. -/
def wireLabel (d : Device) (name : Bytes) : Bytes :=
  let label := match d.description with
    | some (c :: s) => c :: s
    | _ => name
  label.map fun c => if c = SP then DASH else c

/-- `std::unordered_map::emplace`: an entry that exists stays. -/
def emplace {V : Type} (m : Map Bytes V) (k : Bytes) (v : V) : Map Bytes V :=
  if k ∈ m then m else m.insert k v

/-- The devices to capture on, with their labels. -/
def enumerateDesired (alldevs : List Device) : Map Bytes Bytes :=
  alldevs.foldl (fun out d =>
    match d.name with
    | none => out
    | some name =>
      if isLoopbackIface d then out
      else if !d.addresses then out
      else emplace out name (wireLabel d name)) ∅

/-! ## Threads -/

/-- Where `PacketSniffer::run` stands. -/
inductive Stage
  | creating
  | activating
  | capturing
  | ended
  deriving DecidableEq

/-- How the next call of a thread comes back. -/
inductive Answer
  | create (handle : Bool)
  | activate (ret : Int)
  | dispatch (ret : Int)
  | throws

/-- `PacketSniffer::run`, one call at a time. -/
def Stage.next : Stage → Answer → Option Stage
  | .ended, _ => none
  | _, .throws => some .ended
  | .creating, .create handle => some (if handle then .activating else .ended)
  | .activating, .activate ret => some (if ret < 0 then .ended else .capturing)
  | .capturing, .dispatch ret => some (if ret = -1 then .ended else .capturing)
  | _, _ => none

structure Worker where
  iface : Bytes
  stage : Stage

/-- `worker` is the number of the thread, in the order in which the threads were started. -/
structure PacketSniffer where
  iface : Bytes
  label : Bytes
  running : Bool
  worker : Nat

/-! ## The main thread -/

/-- Where the main thread stands: it waits for the next scan, or it is in one of the two loops of
`syncSniffers`, with what is left of it. -/
inductive Phase
  | waiting
  | dropping (desired : Map Bytes Bytes) (left : List Bytes)
  | starting (left : List (Bytes × Bytes))

structure Client where
  sniffers : Map Bytes PacketSniffer := ∅
  workers : List Worker := []
  phase : Phase := .waiting

/-- `PacketSniffer::stop`. It returns when the thread has ended. -/
def stop (workers : List Worker) (p : PacketSniffer) : List Worker :=
  if p.running then workers.modify p.worker fun w => { w with stage := .ended } else workers

/-- The body of the first loop of `syncSniffers`, for the entry at `name`. -/
def drop (c : Client) (desired : Map Bytes Bytes) (name : Bytes) : Client :=
  if name ∈ desired then c
  else match c.sniffers.lookup name with
    | some p => { c with sniffers := c.sniffers.erase name, workers := stop c.workers p }
    | none => c

/-- The body of its second loop. -/
def start (c : Client) (kv : Bytes × Bytes) : Client :=
  if kv.1 ∈ c.sniffers then c
  else
    { c with
      sniffers := c.sniffers.insert kv.1 ⟨kv.1, kv.2, true, c.workers.length⟩
      workers := c.workers ++ [⟨kv.1, .creating⟩] }

/-- What happens while a call runs: the main thread goes round its loop once, or one of the
sniffers' threads goes on. -/
inductive Step
  | iterate
  | worker (i : Nat) (a : Answer)

def step (c : Client) : Step → Option Client
  | .iterate =>
    match c.phase with
    | .waiting => none
    | .dropping desired [] =>
      some { c with phase := .starting (desired.entries.map fun e => (e.1, e.2)) }
    | .dropping desired (name :: left) =>
      some { drop c desired name with phase := .dropping desired left }
    | .starting [] => some { c with phase := .waiting }
    | .starting (kv :: left) => some { start c kv with phase := .starting left }
  | .worker i a =>
    match c.workers[i]? with
    | none => none
    | some w => (w.stage.next a).map fun g =>
      { c with workers := c.workers.set i { w with stage := g } }

/-- The call of `syncSniffers`. -/
def syncSniffers (c : Client) (desired : Map Bytes Bytes) : Client :=
  { c with phase := .dropping desired c.sniffers.keys }

inductive Event
  | scan (alldevs : Option (List Device))
  | step (st : Step)

/-- A scan comes when the last one is done. One that fails is passed over; the client does not
start when the first one fails. -/
def next (c : Client) : Event → Option Client
  | .scan alldevs =>
    match c.phase, alldevs with
    | .waiting, none => some c
    | .waiting, some devs => some (syncSniffers c (enumerateDesired devs))
    | _, _ => none
  | .step st => step c st

/-! ## One thread for an entry -/

/-- Thread `i` captures on the device `name`, or is about to. -/
def RunsOn (c : Client) (i : Nat) (name : Bytes) : Prop :=
  ∃ w, c.workers[i]? = some w ∧ w.iface = name ∧ w.stage ≠ .ended

/-- Every entry has a thread, and every thread that runs is the one of the entry of its device. -/
structure Owned (c : Client) : Prop where
  entry : ∀ {name p}, c.sniffers.lookup name = some p →
    p.iface = name ∧ p.running = true ∧ ∃ w, c.workers[p.worker]? = some w ∧ w.iface = name
  thread : ∀ {i name}, RunsOn c i name → ∃ p, c.sniffers.lookup name = some p ∧ p.worker = i

theorem owned_empty : Owned {} where
  entry h := by simp at h
  thread := by
    rintro i name ⟨w, hw, -⟩
    simp at hw

theorem Owned.withPhase {c : Client} (h : Owned c) (phase : Phase) : Owned { c with phase } :=
  ⟨h.entry, h.thread⟩

theorem stop_getElem? {workers : List Worker} {p : PacketSniffer} (hp : p.running = true)
    (i : Nat) : (stop workers p)[i]? =
      (workers[i]?).map fun w => if p.worker = i then { w with stage := .ended } else w := by
  rw [stop, if_pos hp, List.getElem?_modify]
  split <;> simp_all

theorem owned_drop {c : Client} (h : Owned c) (desired : Map Bytes Bytes) (name : Bytes) :
    Owned (drop c desired name) := by
  unfold drop
  split
  · exact h
  split
  · rename_i p hp
    obtain ⟨-, hrun, -⟩ := h.entry hp
    constructor
    · intro name' p' hp'
      have hne : name' ≠ name := by
        rintro rfl
        simp at hp'
      rw [AList.lookup_erase_ne hne] at hp'
      obtain ⟨hi, hr, w, hw, hwi⟩ := h.entry hp'
      refine ⟨hi, hr, ?_⟩
      rw [stop_getElem? hrun, hw]
      refine ⟨_, rfl, ?_⟩
      split <;> exact hwi
    · rintro i name' ⟨w, hw, hwi, hws⟩
      rw [stop_getElem? hrun] at hw
      obtain ⟨v, hv, rfl⟩ := Option.map_eq_some_iff.mp hw
      by_cases hi : p.worker = i
      · rw [if_pos hi] at hws
        exact absurd rfl hws
      · rw [if_neg hi] at hwi hws
        obtain ⟨q, hq, hqi⟩ := h.thread ⟨v, hv, hwi, hws⟩
        have hne : name' ≠ name := by
          rintro rfl
          rw [hp] at hq
          cases hq
          exact hi hqi
        exact ⟨q, by rw [AList.lookup_erase_ne hne]; exact hq, hqi⟩
  · exact h

theorem owned_start {c : Client} (h : Owned c) (kv : Bytes × Bytes) : Owned (start c kv) := by
  unfold start
  split
  · exact h
  rename_i hnew
  constructor
  · intro name p hp
    by_cases hn : name = kv.1
    · subst hn
      rw [AList.lookup_insert] at hp
      cases hp
      exact ⟨rfl, rfl, _, by rw [List.getElem?_append_right le_rfl, Nat.sub_self]; rfl, rfl⟩
    · rw [AList.lookup_insert_ne hn] at hp
      obtain ⟨hi, hr, w, hw, hwi⟩ := h.entry hp
      refine ⟨hi, hr, w, ?_, hwi⟩
      rw [List.getElem?_append_left (List.getElem?_eq_some_iff.mp hw).1, hw]
  · rintro i name ⟨w, hw, hwi, hws⟩
    rcases Nat.lt_or_ge i c.workers.length with hi | hi
    · rw [List.getElem?_append_left hi] at hw
      obtain ⟨p, hp, hpi⟩ := h.thread ⟨w, hw, hwi, hws⟩
      have hne : name ≠ kv.1 := by
        rintro rfl
        rw [AList.lookup_eq_none.mpr hnew] at hp
        cases hp
      exact ⟨p, by rw [AList.lookup_insert_ne hne]; exact hp, hpi⟩
    · rw [List.getElem?_append_right hi] at hw
      obtain ⟨hlt, hw⟩ := List.getElem?_eq_some_iff.mp hw
      have hlast : i - c.workers.length = 0 := by simpa using hlt
      have hi' : c.workers.length = i := by omega
      simp only [hlast, List.getElem_cons_zero] at hw
      subst hw
      exact ⟨_, by rw [← hwi, AList.lookup_insert], hi'⟩

theorem owned_worker {c : Client} (h : Owned c) {i : Nat} {w : Worker} {a : Answer} {g : Stage}
    (hw : c.workers[i]? = some w) (hg : w.stage.next a = some g) :
    Owned { c with workers := c.workers.set i { w with stage := g } } := by
  have hlt := (List.getElem?_eq_some_iff.mp hw).1
  -- a thread that has ended does not go on
  have hruns : w.stage ≠ .ended := by
    intro he
    rw [he] at hg
    cases hg
  constructor
  · intro name p hp
    obtain ⟨hi, hr, v, hv, hvi⟩ := h.entry hp
    refine ⟨hi, hr, ?_⟩
    by_cases hpi : i = p.worker
    · subst hpi
      rw [hv] at hw
      cases hw
      exact ⟨_, List.getElem?_set_self hlt, hvi⟩
    · exact ⟨v, by rw [List.getElem?_set_ne hpi, hv], hvi⟩
  · rintro j name ⟨v, hv, hvi, hvs⟩
    by_cases hij : i = j
    · subst hij
      rw [List.getElem?_set_self hlt] at hv
      cases hv
      exact h.thread ⟨w, hw, hvi, hruns⟩
    · rw [List.getElem?_set_ne hij] at hv
      exact h.thread ⟨v, hv, hvi, hvs⟩

/-- What a step does: one round of a loop, or one call of a thread. -/
inductive Steps (c : Client) : Step → Client → Prop
  | swept (desired) (h : c.phase = .dropping desired []) :
      Steps c .iterate { c with phase := .starting (desired.entries.map fun e => (e.1, e.2)) }
  | drops (desired name left) (h : c.phase = .dropping desired (name :: left)) :
      Steps c .iterate { drop c desired name with phase := .dropping desired left }
  | done (h : c.phase = .starting []) : Steps c .iterate { c with phase := .waiting }
  | starts (kv left) (h : c.phase = .starting (kv :: left)) :
      Steps c .iterate { start c kv with phase := .starting left }
  | works (i a w g) (hw : c.workers[i]? = some w) (hg : w.stage.next a = some g) :
      Steps c (.worker i a) { c with workers := c.workers.set i { w with stage := g } }

theorem step_cases {c c' : Client} {st : Step} (h : step c st = some c') : Steps c st c' := by
  unfold step at h
  split at h
  · split at h
    · cases h
    · rename_i hp
      cases h
      exact .swept _ hp
    · rename_i hp
      cases h
      exact .drops _ _ _ hp
    · rename_i hp
      cases h
      exact .done hp
    · rename_i hp
      cases h
      exact .starts _ _ hp
  · split at h
    · cases h
    · rename_i w hw
      obtain ⟨g, hg, rfl⟩ := Option.map_eq_some_iff.mp h
      exact .works _ _ w g hw hg

theorem owned_step {c c' : Client} {st : Step} (hc : Owned c) (h : step c st = some c') :
    Owned c' := by
  cases step_cases h with
  | swept => exact hc.withPhase _
  | drops desired name => exact (owned_drop hc desired name).withPhase _
  | done => exact hc.withPhase _
  | starts kv => exact (owned_start hc kv).withPhase _
  | works i a w g hw hg => exact owned_worker hc hw hg

theorem owned_next {c c' : Client} {e : Event} (hc : Owned c) (h : next c e = some c') :
    Owned c' := by
  cases e with
  | scan alldevs =>
    simp only [next] at h
    split at h
    · cases h
      exact hc
    · cases h
      exact hc.withPhase _
    · cases h
  | step st => exact owned_step hc h

/-- **One sniffer.** -/
theorem owned_of_run {es : List Event} {c : Client} (h : Runs.run next {} es = some c) :
    Owned c :=
  Runs.invariant_of_run (fun _ _ _ hc hs => owned_next hc hs) owned_empty h

/-! ## A call -/

/-- The names that the first loop still has to look at. -/
def Phase.toDrop : Phase → List Bytes
  | .dropping _ left => left
  | _ => []

/-- The names that the second loop still has to look at. -/
def Phase.toStart : Phase → List Bytes
  | .waiting => []
  | .dropping desired _ => desired.keys
  | .starting left => left.map (·.1)

/-- How far the call for `desired` has come that started in the state `s`. -/
structure During (s : Client) (desired : Map Bytes Bytes) (c : Client) : Prop where
  threads : s.workers.length ≤ c.workers.length
  kept : ∀ k ∈ desired, k ∈ s.sniffers → c.sniffers.lookup k = s.sniffers.lookup k
  fresh : ∀ k ∈ desired, k ∉ s.sniffers → ∀ p, c.sniffers.lookup k = some p →
    s.workers.length ≤ p.worker
  stale : ∀ k ∉ desired, k ∈ c.sniffers → k ∈ c.phase.toDrop
  missing : ∀ k ∈ desired, k ∉ c.sniffers → k ∈ c.phase.toStart
  wanted : ∀ k ∈ c.phase.toStart, k ∈ desired
  same : ∀ d left, c.phase = .dropping d left → d = desired

theorem during_sync (s : Client) (desired : Map Bytes Bytes) :
    During s desired (syncSniffers s desired) where
  threads := le_rfl
  kept _ _ _ := rfl
  fresh k _ hk p hp := by
    rw [syncSniffers, AList.lookup_eq_none.mpr hk] at hp
    cases hp
  stale _ _ hk := hk
  missing _ hk _ := hk
  wanted _ hk := hk
  same _ _ h := by
    cases h
    rfl

theorem length_stop (workers : List Worker) (p : PacketSniffer) :
    (stop workers p).length = workers.length := by
  unfold stop
  split
  · exact List.length_modify ..
  · rfl

section Loops

variable {s c : Client} {desired : Map Bytes Bytes}

/-! The first loop. -/

theorem drop_wanted {name : Bytes} (h : name ∈ desired) : drop c desired name = c := if_pos h

theorem lookup_drop_ne {name k : Bytes} (h : name ∉ desired) (hk : k ≠ name) :
    (drop c desired name).sniffers.lookup k = c.sniffers.lookup k := by
  rw [drop, if_neg h]
  split
  · exact AList.lookup_erase_ne hk
  · rfl

theorem notMem_drop {name : Bytes} (h : name ∉ desired) : name ∉ (drop c desired name).sniffers := by
  rw [drop, if_neg h]
  split
  · exact fun hm => (AList.mem_erase.mp hm).1 rfl
  · rename_i hnone
    exact AList.lookup_eq_none.mp hnone

theorem length_drop (name : Bytes) :
    (drop c desired name).workers.length = c.workers.length := by
  unfold drop
  split
  · rfl
  split
  · exact length_stop _ _
  · rfl

theorem during_drop (hd : During s desired c) {name : Bytes} {left : List Bytes}
    (hp : c.phase = .dropping desired (name :: left)) :
    During s desired { drop c desired name with phase := .dropping desired left } := by
  have hstale := hd.stale
  rw [hp] at hstale
  have hsame : ∀ d l, Phase.dropping desired left = .dropping d l → d = desired := by
    rintro _ _ ⟨⟩
    rfl
  by_cases hn : name ∈ desired
  · -- the entry stays
    rw [drop_wanted hn]
    refine ⟨hd.threads, hd.kept, hd.fresh, ?_, fun _ hk _ => hk, fun _ hk => hk, hsame⟩
    intro k hk hm
    refine List.mem_of_ne_of_mem ?_ (hstale k hk hm)
    rintro rfl
    exact hk hn
  · have hne : ∀ k ∈ desired, k ≠ name := by
      rintro k hk rfl
      exact hn hk
    refine ⟨(length_drop name).symm ▸ hd.threads, ?_, ?_, ?_, fun _ hk _ => hk, fun _ hk => hk,
      hsame⟩
    · intro k hk hs
      exact (lookup_drop_ne hn (hne k hk)).trans (hd.kept k hk hs)
    · intro k hk hs p hl
      exact hd.fresh k hk hs p ((lookup_drop_ne hn (hne k hk)).symm.trans hl)
    · intro k hk hm
      have hkn : k ≠ name := by
        rintro rfl
        exact notMem_drop hn hm
      have hm' : k ∈ c.sniffers := by
        rw [← AList.lookup_isSome, ← lookup_drop_ne hn hkn, AList.lookup_isSome]
        exact hm
      exact List.mem_of_ne_of_mem hkn (hstale k hk hm')

/-! The second loop. -/

theorem start_present {kv : Bytes × Bytes} (h : kv.1 ∈ c.sniffers) : start c kv = c := if_pos h

theorem start_absent {kv : Bytes × Bytes} (h : kv.1 ∉ c.sniffers) : start c kv =
    { c with
      sniffers := c.sniffers.insert kv.1 ⟨kv.1, kv.2, true, c.workers.length⟩
      workers := c.workers ++ [⟨kv.1, .creating⟩] } := if_neg h

theorem during_start (hd : During s desired c) {kv : Bytes × Bytes} {left : List (Bytes × Bytes)}
    (hp : c.phase = .starting (kv :: left)) :
    During s desired { start c kv with phase := .starting left } := by
  have hstale := hd.stale
  have hmissing := hd.missing
  have hwanted := hd.wanted
  rw [hp] at hstale hmissing hwanted
  have hleft : ∀ k ∈ Phase.toStart (.starting left), k ∈ desired := fun k hk =>
    hwanted k (List.mem_cons_of_mem _ hk)
  by_cases hn : kv.1 ∈ c.sniffers
  · -- the entry is there, and is not asked whether its thread runs
    rw [start_present hn]
    refine ⟨hd.threads, hd.kept, hd.fresh, hstale, ?_, hleft, nofun⟩
    intro k hk hm
    refine List.mem_of_ne_of_mem ?_ (hmissing k hk hm)
    rintro rfl
    exact hm hn
  · rw [start_absent hn]
    refine ⟨?_, ?_, ?_, ?_, ?_, hleft, nofun⟩
    · simp only [List.length_append]
      exact Nat.le_add_right_of_le hd.threads
    · intro k hk hs
      have hne : k ≠ kv.1 := by
        rintro rfl
        have hl := hd.kept _ hk hs
        rw [AList.lookup_eq_none.mpr hn] at hl
        exact AList.lookup_eq_none.mp hl.symm hs
      exact (AList.lookup_insert_ne hne).trans (hd.kept k hk hs)
    · intro k hk hs p hl
      by_cases hne : k = kv.1
      · subst hne
        simp only [AList.lookup_insert] at hl
        cases hl
        exact hd.threads
      · simp only [AList.lookup_insert_ne hne] at hl
        exact hd.fresh k hk hs p hl
    · intro k hk hm
      rcases (AList.mem_insert _).mp hm with rfl | hm
      · exact absurd (hwanted _ List.mem_cons_self) hk
      · exact hstale k hk hm
    · intro k hk hm
      rw [AList.mem_insert, not_or] at hm
      exact List.mem_of_ne_of_mem hm.1 (hmissing k hk hm.2)

theorem toStart_entries (desired : Map Bytes Bytes) :
    (Phase.starting (desired.entries.map fun e => (e.1, e.2))).toStart = desired.keys := by
  rw [Phase.toStart, List.map_map]
  rfl

theorem during_swept (hd : During s desired c) (hp : c.phase = .dropping desired []) :
    During s desired
      { c with phase := .starting (desired.entries.map fun e => (e.1, e.2)) } := by
  refine ⟨hd.threads, hd.kept, hd.fresh, ?_, ?_, ?_, nofun⟩
  · intro k hk hm
    have := hd.stale k hk hm
    rw [hp] at this
    cases this
  · intro k hk _
    exact (toStart_entries desired).symm ▸ AList.mem_keys.mp hk
  · intro k hk
    exact AList.mem_keys.mpr (toStart_entries desired ▸ hk)

end Loops

/-- **One step of a call.** -/
theorem during_step {s c c' : Client} {desired : Map Bytes Bytes} {st : Step}
    (hd : During s desired c) (h : step c st = some c') : During s desired c' := by
  cases step_cases h with
  | swept d hp =>
    cases hd.same _ _ hp
    exact during_swept hd hp
  | drops d name left hp =>
    cases hd.same _ _ hp
    exact during_drop hd hp
  | done hp =>
    have hstale := hd.stale
    have hmissing := hd.missing
    rw [hp] at hstale hmissing
    exact ⟨hd.threads, hd.kept, hd.fresh, hstale, hmissing, nofun, nofun⟩
  | starts kv left hp => exact during_start hd hp
  | works i a w g =>
    refine ⟨?_, hd.kept, hd.fresh, hd.stale, hd.missing, hd.wanted, hd.same⟩
    simpa using hd.threads

theorem owned_steps {s c : Client} {steps : List Step} (hs : Owned s)
    (h : Runs.run step s steps = some c) : Owned c :=
  Runs.invariant_of_run (fun _ _ _ hc hstep => owned_step hc hstep) hs h

theorem during_steps {s c : Client} {desired : Map Bytes Bytes} {steps : List Step}
    (h : Runs.run step (syncSniffers s desired) steps = some c) : During s desired c :=
  Runs.invariant_of_run (fun _ _ _ hd hstep => during_step hd hstep) (during_sync s desired) h

/-- The rounds that are left of a call. -/
def Phase.rounds : Phase → Nat
  | .waiting => 0
  | .dropping desired left => left.length + desired.entries.length + 2
  | .starting left => left.length + 1

theorem iterate_rounds {c : Client} {n : Nat} (h : c.phase.rounds = n + 1) :
    ∃ c', step c .iterate = some c' ∧ c'.phase.rounds = n := by
  unfold step
  cases hp : c.phase with
  | waiting => simp [hp, Phase.rounds] at h
  | dropping desired left =>
    rw [hp] at h
    cases left with
    | nil => exact ⟨_, rfl, by simp [Phase.rounds] at h ⊢; omega⟩
    | cons name left => exact ⟨_, rfl, by simp [Phase.rounds] at h ⊢; omega⟩
  | starting left =>
    rw [hp] at h
    cases left with
    | nil => exact ⟨_, rfl, by simp [Phase.rounds] at h ⊢; omega⟩
    | cons kv left => exact ⟨_, rfl, by simp [Phase.rounds] at h ⊢; omega⟩

/-- A call returns. -/
theorem call_returns (c : Client) : ∃ c',
    Runs.run step c (List.replicate c.phase.rounds .iterate) = some c' ∧ c'.phase = .waiting := by
  induction hn : c.phase.rounds generalizing c with
  | zero =>
    refine ⟨c, rfl, ?_⟩
    cases hp : c.phase <;> simp [hp, Phase.rounds] at hn
    rfl
  | succ n ih =>
    obtain ⟨c₁, hstep, hc₁⟩ := iterate_rounds hn
    obtain ⟨c', hrun, hp⟩ := ih c₁ hc₁
    exact ⟨c', Runs.run_cons_eq_some.mpr ⟨c₁, hstep, hrun⟩, hp⟩

/-- Each desired device has an entry whose thread ran when the call started in `s` or was started
since, and no other thread runs on it. A device that is not desired has neither. -/
def Reconciled (s c : Client) (desired : Map Bytes Bytes) : Prop :=
  (∀ k ∈ desired, ∃ p, c.sniffers.lookup k = some p ∧ p.iface = k ∧
    (RunsOn s p.worker k ∨ s.workers.length ≤ p.worker) ∧ ∀ i, RunsOn c i k → i = p.worker) ∧
  ∀ k ∉ desired, k ∉ c.sniffers ∧ ∀ i, ¬ RunsOn c i k

/-- The entry at `k` has a thread that ended on its own. -/
def Dead (s : Client) (k : Bytes) : Prop :=
  ∃ p, s.sniffers.lookup k = some p ∧ ¬ RunsOn s p.worker k

theorem worker_lt {s : Client} (hs : Owned s) {k : Bytes} {p : PacketSniffer}
    (h : s.sniffers.lookup k = some p) : p.worker < s.workers.length := by
  obtain ⟨-, -, w, hw, -⟩ := hs.entry h
  exact (List.getElem?_eq_some_iff.mp hw).1

theorem reconciled_iff {s c : Client} {desired : Map Bytes Bytes} (hs : Owned s) (hc : Owned c)
    (hd : During s desired c) (hp : c.phase = .waiting) :
    Reconciled s c desired ↔ ∀ k ∈ desired, ¬ Dead s k := by
  have hmissing := hd.missing
  have hstale := hd.stale
  rw [hp] at hmissing hstale
  have hall : ∀ k ∈ desired, k ∈ c.sniffers := by
    intro k hk
    by_contra hm
    cases hmissing k hk hm
  constructor
  · rintro ⟨hrec, -⟩ k hk ⟨p, hl, hdead⟩
    have hm : k ∈ s.sniffers := by
      rw [← AList.lookup_isSome, hl]
      rfl
    obtain ⟨q, hq, -, hrun, -⟩ := hrec k hk
    rw [hd.kept k hk hm, hl] at hq
    cases hq
    rcases hrun with hrun | hnew
    · exact hdead hrun
    · have := worker_lt hs hl
      omega
  · intro hlive
    refine ⟨?_, ?_⟩
    · intro k hk
      obtain ⟨p, hl⟩ := Option.isSome_iff_exists.mp (AList.lookup_isSome.mpr (hall k hk))
      refine ⟨p, hl, (hc.entry hl).1, ?_, ?_⟩
      · by_cases hm : k ∈ s.sniffers
        · left
          by_contra hdead
          exact hlive k hk ⟨p, hd.kept k hk hm ▸ hl, hdead⟩
        · exact .inr (hd.fresh k hk hm p hl)
      · intro i hi
        obtain ⟨q, hq, hqi⟩ := hc.thread hi
        rw [hl] at hq
        cases hq
        exact hqi.symm
    · intro k hk
      have hno : k ∉ c.sniffers := by
        intro hm
        cases hstale k hk hm
      refine ⟨hno, ?_⟩
      intro i hi
      obtain ⟨q, hq, -⟩ := hc.thread hi
      rw [AList.lookup_eq_none.mpr hno] at hq
      cases hq

/-- **Reconciliation.** After a scan in a state `s` that a run has reached, and whatever the
threads do meanwhile, the devices are reconciled when the call is done, if and only if the thread
of no desired device had ended on its own. -/
theorem reconciled_iff_of_run (es : List Event) (s : Client) (alldevs : List Device) (b : Client)
    (steps : List Step) (c : Client) (hrun : Runs.run next {} es = some s)
    (hscan : next s (.scan (some alldevs)) = some b) (hcall : Runs.run step b steps = some c)
    (hdone : c.phase = .waiting) :
    Reconciled s c (enumerateDesired alldevs) ↔
      ∀ k ∈ enumerateDesired alldevs, ¬ Dead s k := by
  have hs : Owned s := owned_of_run hrun
  have hb : b = syncSniffers s (enumerateDesired alldevs) := by
    simp only [next] at hscan
    split at hscan
    · rename_i h
      cases h
    · rename_i h
      cases h
      exact (Option.some.inj hscan).symm
    · cases hscan
  subst hb
  exact reconciled_iff hs (owned_steps (hs.withPhase _) hcall) (during_steps hcall) hdone

def eth0 : Bytes := ascii "eth0"

/-- The only device. -/
def ethernet : List Device := [⟨some eth0, none, false, true⟩]

/-- The client after its first scan, when the thread stands at `stage`. -/
def capturingOn (stage : Stage) : Client where
  sniffers := (∅ : Map Bytes PacketSniffer).insert eth0 ⟨eth0, eth0, true, 0⟩
  workers := [⟨eth0, stage⟩]

/-- The first scan, and the answer that the thread gets. -/
def firstScan (a : Answer) : List Event :=
  [.scan (some ethernet), .step .iterate, .step .iterate, .step .iterate, .step (.worker 0 a)]

def fourRounds : List Step := [.iterate, .iterate, .iterate, .iterate]

theorem reconciled_iff_of_run_opened :
    Reconciled (capturingOn .activating) (capturingOn .activating) (enumerateDesired ethernet) :=
  (reconciled_iff_of_run (firstScan (.create true)) (capturingOn .activating) ethernet
    (syncSniffers (capturingOn .activating) (enumerateDesired ethernet)) fourRounds
    (capturingOn .activating) rfl rfl rfl rfl).mpr (by
      rintro k hk ⟨p, hl, hdead⟩
      have hk0 : k = eth0 := by
        have hkeys : k ∈ [eth0] := AList.mem_keys.mp hk
        simpa using hkeys
      subst hk0
      cases hl
      exact hdead ⟨_, rfl, rfl, nofun⟩)

/-- The device could not be opened the first time. The next scan leaves it as it is. -/
theorem dead_kept :
    Runs.run next {} (firstScan (.create false)) = some (capturingOn .ended) ∧
      next (capturingOn .ended) (.scan (some ethernet)) =
        some (syncSniffers (capturingOn .ended) (enumerateDesired ethernet)) ∧
      Runs.run step (syncSniffers (capturingOn .ended) (enumerateDesired ethernet)) fourRounds =
        some (capturingOn .ended) ∧
      ¬ Reconciled (capturingOn .ended) (capturingOn .ended) (enumerateDesired ethernet) := by
  refine ⟨rfl, rfl, rfl, ?_⟩
  rintro ⟨hrec, -⟩
  obtain ⟨p, hl, -, hrun, -⟩ := hrec eth0 (by decide)
  cases hl
  rcases hrun with ⟨w, hw, -, hstage⟩ | hnew
  · cases hw
    exact hstage rfl
  · exact absurd hnew (by decide)

end TrafficMonitor.Sniffers
