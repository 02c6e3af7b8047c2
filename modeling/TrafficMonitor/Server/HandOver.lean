import TrafficMonitor.Server.Sessions

/-!
# Hand-over between sessions of one client

A client that reconnects authenticates again before the thread of its old connection has
ended, so sessions of one client overlap. Channel and addresses are kept under the
client's id alone: the newest session that is still running should find its own there.

Proved here, for every interleaving of any number of sessions of one client:

* `handed_over_of_run`: it does, in every state of a run in which no step damages what a
  running session has registered (`Orderly`);
* `old_cleanup_removes_channel`: the cleanup of an older session does damage it.

The invariant is about every running session, not only the newest: an older one may come
to be the newest again.
-/

namespace TrafficMonitor.Sessions

open Bytes Runs

variable {config : ServerConfig}

/-! ## Running sessions -/

/-- Authenticated, and not yet on the way out. -/
def Phase.running : Phase → Bool
  | .authenticated | .half | .ready | .data | .announced _ => true
  | _ => false

/-- The session has announced an external address. -/
def Session.announced (se : Session) : Bool := 0 ≤ se.lastXLineSec

/-- Some running session, of a number `j`, satisfies `q`. -/
def State.anyRunning (s : State) (q : SessionId → Session → Bool) : Bool :=
  s.sessions.zipIdx.any fun p => p.1.phase.running && q p.2 p.1

def Running (s : State) (j : SessionId) (se : Session) : Prop :=
  s.sessions[j]? = some se ∧ se.phase.running = true

/-- The session is running and none that authenticated after it is. -/
def Newest (s : State) (j : SessionId) (se : Session) : Prop :=
  Running s j se ∧ ∀ l sl, j < l → ¬ Running s l sl

/-- What a session has registered when it comes to its phase: the channel and the address of
the connection, in the order of its transport. -/
def Session.Equipped (se : Session) : Prop :=
  match se.phase, se.transport with
  | .half, .tcp => se.channelAdded = true
  | .half, .websocket => ∀ ip ∈ se.connAddrs, ip ∈ se.addrs
  | .ready, _ | .data, _ | .announced _, _ =>
    se.channelAdded = true ∧ ∀ ip ∈ se.connAddrs, ip ∈ se.addrs
  | _, _ => True

/-- The newest running session has its channel in the table, once it has added it, and the
addresses that it has registered lead to its client. -/
def HandedOver (s : State) : Prop :=
  ∀ j se, Newest s j se → se.Equipped ∧
    (se.channelAdded = true → s.shared.channels se.clientId = some j) ∧
    ∀ ip ∈ se.addrs, s.shared.registry.ipToClientId ip = some se.clientId

/-- What a step of session `i` may not do to the other running sessions of its client:

* add its channel or replace the addresses after a newer session has registered;
* leave while an older session, whose registration it replaced, is still running;
* remove the channel or the addresses while a running session has them. -/
def orderly (config : ServerConfig) (s : State) (i : SessionId) (se : Session) :
    SessionAction → Bool
  | .addChannel => !s.anyRunning fun j sj => i < j && sj.channelAdded
  | .line ev => match se.readLine config ev with
    | .external _ => !s.anyRunning fun j sj => i < j && sj.addrs.any (· ∉ se.connAddrs)
    | _ => true
  | .leave =>
    (!s.anyRunning (fun j sj => j < i && sj.channelAdded) ||
      s.anyRunning fun j sj => i < j && sj.channelAdded) &&
    (!se.announced || !s.anyRunning (fun j sj => j < i && sj.addrs ≠ []) ||
      s.anyRunning fun j sj => i < j && sj.announced)
  | .removeChannel => !s.anyRunning fun _ sj => sj.channelAdded
  | .removeClient => !s.anyRunning fun _ sj => sj.addrs ≠ []
  | _ => true

def Orderly (config : ServerConfig) (s : State) : Action → Prop
  | .session i a => (s.sessions[i]?).all (orderly config s i · a) = true
  | _ => True

instance (s : State) : ∀ a, Decidable (Orderly config s a)
  | .session i a => inferInstanceAs (Decidable ((s.sessions[i]?).all (orderly config s i · a) = true))
  | .authenticate .. | .lookup _ | .write _ => isTrue trivial

theorem anyRunning_iff {s : State} {q : SessionId → Session → Bool} :
    s.anyRunning q = true ↔ ∃ j se, Running s j se ∧ q j se = true := by
  simp only [State.anyRunning, List.any_eq_true, Bool.and_eq_true, Prod.exists,
    List.mem_zipIdx_iff_getElem?, Running]
  constructor
  · rintro ⟨se, j, hse, hr, hq⟩
    exact ⟨j, se, ⟨hse, hr⟩, hq⟩
  · rintro ⟨j, se, ⟨hse, hr⟩, hq⟩
    exact ⟨se, j, hse, hr, hq⟩

theorem anyRunning_eq_false {s : State} {q : SessionId → Session → Bool} :
    (!s.anyRunning q) = true ↔ ∀ j se, Running s j se → q j se = false := by
  rw [Bool.not_eq_true', ← Bool.not_eq_true, anyRunning_iff]
  simp

variable {sh : Shared} {se : Session} {i : SessionId} {a : SessionAction} {p : Phase}

/-- A session stops running when it leaves, and at no other step. -/
theorem running_enters (he : se.enters config a = some p) :
    p.running = match a with
      | .abort | .leave => false
      | _ => se.phase.running := by
  cases a <;> simp only [Session.enters] at he <;> grind [Phase.running]

theorem running_addChannel (he : se.enters config .addChannel = some p) : p.running = true := by
  simp only [Session.enters] at he
  split at he <;> cases he <;> rfl

theorem phase_of_abort (he : se.enters config .abort = some p) : se.phase = .authenticated := by
  simp only [Session.enters] at he
  split at he
  · assumption
  · cases he

/-! ## What a running session has registered -/

/-- The locals of a session agree with its phase. -/
structure Session.Ok (se : Session) : Prop where
  clock : -1 ≤ se.lastXLineSec
  fresh : se.phase = .authenticated → se.channelAdded = false ∧ se.announced = false
  equipped : se.Equipped

theorem equipped_moved (heq : se.Equipped) (he : se.enters config a = some p) :
    (se.moved config i sh a p).Equipped := by
  unfold Session.Equipped at heq ⊢
  simp only [phase_moved, transport_moved, connAddrs_moved, channelAdded_moved, addrs_moved]
  cases a <;> simp only [Session.enters] at he <;> grind

theorem ok_moved (hok : se.Ok) (he : se.enters config a = some p) :
    (se.moved config i sh a p).Ok := by
  refine ⟨?_, ?_, equipped_moved hok.equipped he⟩
  · rw [lastXLineSec_moved]
    split
    · split
      · rename_i h
        have := nowSec_of_external h
        have := hok.clock
        omega
      · exact hok.clock
    · exact hok.clock
  · intro hp
    rw [phase_moved] at hp
    subst hp
    cases a <;> simp only [Session.enters] at he <;> grind

/-- An accepted X-line counts as an announcement; nothing else changes that. -/
theorem announced_moved (hok : se.Ok) : (se.moved config i sh a p).announced = true ↔
    se.announced = true ∨ ∃ ev extIp, a = .line ev ∧ se.readLine config ev = .external extIp := by
  have hlast := hok.clock
  simp only [Session.announced, lastXLineSec_moved, decide_eq_true_eq]
  cases a with
  | line ev =>
    cases hr : se.readLine config ev with
    | external extIp =>
      have := nowSec_of_external hr
      have hlimit : (kAnnounceRateLimitSec : Int) = 30 := rfl
      simp [hr]
      omega
    | _ => simp [hr]
  | _ => simp

/-- The invariant: among the running sessions of the client `k`, one whose channel no newer
one has replaced has it in the table, and one whose addresses no newer one has announced
away has them in the registry. -/
structure Registered (k : ClientId) (s : State) : Prop where
  key : ∀ (j : SessionId) (se : Session), s.sessions[j]? = some se → se.clientId = k
  ok : ∀ (j : SessionId) (se : Session), s.sessions[j]? = some se → se.Ok
  channel : ∀ j se, Running s j se → se.channelAdded = true →
    (∀ l sl, j < l → Running s l sl → sl.channelAdded = false) → s.shared.channels k = some j
  addrs : ∀ j se, Running s j se →
    (∀ l sl, j < l → Running s l sl → sl.announced = false) →
    ∀ ip ∈ se.addrs, s.shared.registry.ipToClientId ip = some k

theorem handedOver_of_registered {k : ClientId} {s : State} (hi : Registered k s) :
    HandedOver s := by
  intro j se hn
  rw [hi.key j se hn.1.1]
  exact ⟨(hi.ok j se hn.1.1).equipped,
    fun hc => hi.channel j se hn.1 hc fun l sl hl hr => absurd hr (hn.2 l sl hl),
    hi.addrs j se hn.1 fun l sl hl hr => absurd hr (hn.2 l sl hl)⟩

/-! ## A step of one session -/

section

variable {s : State} {k : ClientId} {j : SessionId} {sj : Session}

/-- The state after session `i` has taken the action `a`. -/
def State.moved (config : ServerConfig) (s : State) (i : SessionId) (se : Session)
    (a : SessionAction) (p : Phase) : State :=
  { s with
    shared := (se.effect config i s.shared a).1
    sessions := s.sessions.set i (se.moved config i s.shared a p) }

private theorem running_before (hse : s.sessions[i]? = some se) (he : se.enters config a = some p)
    (hr : Running (s.moved config i se a p) j sj) :
    (j = i ∧ sj = se.moved config i s.shared a p ∧ p.running = true ∧ Running s i se) ∨
      (j ≠ i ∧ Running s j sj) := by
  rcases getElem?_set_cases hse hr.1 with ⟨rfl, rfl⟩ | ⟨hji, hsj⟩
  · have hp : p.running = true := hr.2
    refine .inl ⟨rfl, rfl, hp, hse, ?_⟩
    rw [running_enters he] at hp
    cases a <;> simp_all
  · exact .inr ⟨hji, hsj, hr.2⟩

private theorem running_after_ne (hji : j ≠ i) (hr : Running s j sj) :
    Running (s.moved config i se a p) j sj :=
  ⟨(List.getElem?_set_ne (Ne.symm hji)).trans hr.1, hr.2⟩

private theorem running_after (hse : s.sessions[i]? = some se) (hp : p.running = true) :
    Running (s.moved config i se a p) i (se.moved config i s.shared a p) :=
  ⟨getElem?_set_self hse, hp⟩

/-- A session that leaves over an older one with a channel has itself been replaced. -/
private theorem channel_replaced (hg : orderly config s i se .leave = true) (hji : j < i)
    (hrj : Running s j sj) (hc : sj.channelAdded = true) :
    ∃ l sl, i < l ∧ Running s l sl ∧ sl.channelAdded = true := by
  simp only [orderly, Bool.and_eq_true, Bool.or_eq_true] at hg
  rcases hg.1 with hg | hg
  · have := anyRunning_eq_false.mp hg j sj hrj
    simp [hji, hc] at this
  · obtain ⟨l, sl, hrl, hl⟩ := anyRunning_iff.mp hg
    simp only [Bool.and_eq_true, decide_eq_true_eq] at hl
    exact ⟨l, sl, hl.1, hrl, hl.2⟩

/-- The same for a session that has announced, over an older one with addresses. -/
private theorem addrs_replaced (hg : orderly config s i se .leave = true)
    (ha : se.announced = true) (hji : j < i) (hrj : Running s j sj) (hne : sj.addrs ≠ []) :
    ∃ l sl, i < l ∧ Running s l sl ∧ sl.announced = true := by
  simp only [orderly, Bool.and_eq_true, Bool.or_eq_true] at hg
  rcases hg.2 with (hg | hg) | hg
  · simp [ha] at hg
  · have := anyRunning_eq_false.mp hg j sj hrj
    simp [hji, hne] at this
  · obtain ⟨l, sl, hrl, hl⟩ := anyRunning_iff.mp hg
    simp only [Bool.and_eq_true, decide_eq_true_eq] at hl
    exact ⟨l, sl, hl.1, hrl, hl.2⟩

/-- A step does not bring an older session to the fore: if no session that is newer than
`j` has `q` after the step, none had it before. -/
private theorem quiet_before (q : Session → Bool) (hi : Registered k s)
    (hse : s.sessions[i]? = some se) (he : se.enters config a = some p)
    (hq : q (se.moved config i s.shared a p) = false → q se = false)
    (hfresh : se.phase = .authenticated → se.Ok → q se = false)
    (hleave : j < i → a = .leave → q se = true → ∃ l sl, i < l ∧ Running s l sl ∧ q sl = true)
    (hnew : ∀ l sl, j < l → Running (s.moved config i se a p) l sl → q sl = false) :
    ∀ l sl, j < l → Running s l sl → q sl = false := by
  intro l sl hl hrl
  by_cases hli : l = i
  · subst hli
    obtain rfl : se = sl := Option.some.inj (hse.symm.trans hrl.1)
    have hrun := running_enters he
    cases a with
    | abort => exact hfresh (phase_of_abort he) (hi.ok l se hse)
    | leave =>
      by_contra hqs
      obtain ⟨m, sm, hm, hrm, hqm⟩ := hleave hl rfl (by simpa using hqs)
      have := hnew m sm (Nat.lt_trans hl hm) (running_after_ne (Nat.ne_of_gt hm) hrm)
      rw [hqm] at this
      cases this
    | _ => exact hq (hnew l _ hl (running_after hse (hrun.trans hrl.2)))
  · exact hnew l sl hl (running_after_ne hli hrl)

/-- The channel of a session that is the newest with one after the step was in the table
before it, unless the step adds a channel. -/
private theorem channel_before (hi : Registered k s) (hse : s.sessions[i]? = some se)
    (he : se.enters config a = some p) (hg : orderly config s i se a = true)
    (hr : Running (s.moved config i se a p) j sj) (hc : sj.channelAdded = true)
    (hnew : ∀ l sl, j < l → Running (s.moved config i se a p) l sl → sl.channelAdded = false)
    (hadd : a ≠ .addChannel) : s.shared.channels k = some j := by
  have hbefore := running_before hse he hr
  have hquiet : ∀ l sl, j < l → Running s l sl → sl.channelAdded = false := by
    refine quiet_before (·.channelAdded) hi hse he ?_ (fun hp hok => (hok.fresh hp).1) ?_ hnew
    · simp only [channelAdded_moved]
      cases a <;> simp
    · rintro hji rfl -
      rcases hbefore with ⟨rfl, -⟩ | ⟨-, hrj⟩
      · exact absurd hji (Nat.lt_irrefl _)
      · exact channel_replaced hg hji hrj hc
  rcases hbefore with ⟨rfl, rfl, -, hri⟩ | ⟨-, hrj⟩
  · refine hi.channel j se hri ?_ hquiet
    rw [channelAdded_moved] at hc
    cases a <;> simp_all
  · exact hi.channel j sj hrj hc hquiet

private theorem channel_moved (hi : Registered k s) (hse : s.sessions[i]? = some se)
    (he : se.enters config a = some p) (hg : orderly config s i se a = true)
    (hr : Running (s.moved config i se a p) j sj) (hc : sj.channelAdded = true)
    (hnew : ∀ l sl, j < l → Running (s.moved config i se a p) l sl → sl.channelAdded = false) :
    (s.moved config i se a p).shared.channels k = some j := by
  have hbefore := running_before hse he hr
  have hkeep := channel_before hi hse he hg hr hc hnew
  simp only [State.moved, channels_effect]
  cases a with
  | addChannel =>
    have hfree := anyRunning_eq_false.mp hg
    rw [if_pos (hi.key i se hse).symm]
    rcases hbefore with ⟨rfl, -⟩ | ⟨hji, hrj⟩
    · rfl
    · exfalso
      rcases Nat.lt_or_gt_of_ne hji with hlt | hlt
      · have := hnew i _ hlt (running_after hse (running_addChannel he))
        rw [channelAdded_moved] at this
        cases this
      · have := hfree j sj hrj
        simp [hlt, hc] at this
  | removeChannel =>
    exfalso
    have hnone := anyRunning_eq_false.mp hg
    rcases hbefore with ⟨rfl, rfl, -, hri⟩ | ⟨-, hrj⟩
    · have := hnone j se hri
      rw [channelAdded_moved] at hc
      simp [hc] at this
    · have := hnone j sj hrj
      simp [hc] at this
  | _ => exact hkeep (by simp)

private theorem setIp_keeps {reg : ClientRegistry} {ip b : Bytes}
    (h : reg.ipToClientId b = some k) : (reg.setIp ip k).ipToClientId b = some k := by
  rw [ClientRegistry.ipToClientId_setIp]
  split
  · rfl
  · exact h

private theorem setIp_connAddrs {reg : ClientRegistry} {b : Bytes} (h : b ∈ se.connAddrs) :
    (reg.setIp se.clientIp k).ipToClientId b = some k := by
  rw [ClientRegistry.ipToClientId_setIp, if_pos (mem_connAddrs.mp h)]

/-- The addresses that a session had before the step led to the client before it. -/
private theorem addrs_before (hi : Registered k s) (hse : s.sessions[i]? = some se)
    (he : se.enters config a = some p) (hg : orderly config s i se a = true)
    (hr : Running (s.moved config i se a p) j sj)
    (hnew : ∀ l sl, j < l → Running (s.moved config i se a p) l sl → sl.announced = false) :
    (j = i ∧ sj = se.moved config i s.shared a p ∧ Running s i se ∧
        ∀ ip ∈ se.addrs, s.shared.registry.ipToClientId ip = some k) ∨
      (j ≠ i ∧ Running s j sj ∧ ∀ ip ∈ sj.addrs, s.shared.registry.ipToClientId ip = some k) := by
  have hbefore := running_before hse he hr
  have hquiet (hne : sj.addrs ≠ [] ∨ j = i) :
      ∀ l sl, j < l → Running s l sl → sl.announced = false := by
    refine quiet_before (·.announced) hi hse he ?_ (fun hp hok => (hok.fresh hp).2) ?_ hnew
    · intro hq
      by_contra hs
      rw [(announced_moved (hi.ok i se hse)).mpr (.inl (by simpa using hs))] at hq
      cases hq
    · rintro hji rfl ha
      rcases hbefore with ⟨rfl, -⟩ | ⟨-, hrj⟩
      · exact absurd hji (Nat.lt_irrefl _)
      · exact addrs_replaced hg ha hji hrj (hne.resolve_right (Nat.ne_of_lt hji))
  rcases hbefore with ⟨rfl, rfl, -, hri⟩ | ⟨hji, hrj⟩
  · exact .inl ⟨rfl, rfl, hri, hi.addrs j se hri (hquiet (.inr rfl))⟩
  · exact .inr ⟨hji, hrj, fun ip hip =>
      hi.addrs j sj hrj (hquiet (.inl (List.ne_nil_of_mem hip))) ip hip⟩

private theorem addrs_of_line {ev : LineEvent} (hi : Registered k s)
    (hse : s.sessions[i]? = some se) (he : se.enters config (.line ev) = some p)
    (hg : orderly config s i se (.line ev) = true)
    (hr : Running (s.moved config i se (.line ev) p) j sj)
    (hnew : ∀ l sl, j < l → Running (s.moved config i se (.line ev) p) l sl → sl.announced = false) :
    ∀ ip ∈ sj.addrs,
      (s.moved config i se (.line ev) p).shared.registry.ipToClientId ip = some k := by
  intro ip hip
  have hk := hi.key i se hse
  have hold := addrs_before hi hse he hg hr hnew
  simp only [State.moved, registry_effect]
  cases hline : se.readLine config ev with
  | external extIp =>
    simp only [ClientRegistry.announceExternal, hk]
    apply setIp_connAddrs
    rcases hold with ⟨rfl, rfl, -, -⟩ | ⟨hji, hrj, -⟩
    · rw [addrs_moved] at hip
      simpa [hline] using hip
    · rcases Nat.lt_or_gt_of_ne hji with hlt | hlt
      · -- an older session: this one has now announced its addresses away
        exfalso
        have hrun : p.running = true := by
          rw [running_enters he]
          simp only [Session.enters] at he
          split at he
          · rename_i hp
            rw [hp]
            rfl
          · cases he
        have := hnew i _ hlt (running_after hse hrun)
        rw [(announced_moved (hi.ok i se hse)).mpr (.inr ⟨ev, extIp, rfl, hline⟩)] at this
        cases this
      · simp only [orderly, hline] at hg
        have := anyRunning_eq_false.mp hg j sj hrj
        simp only [hlt, decide_true, Bool.true_and, List.any_eq_false, decide_eq_true_eq,
          Decidable.not_not] at this
        exact this ip hip
  | address ip₀ =>
    rcases hold with ⟨rfl, rfl, -, hs⟩ | ⟨-, -, hs⟩
    · rw [addrs_moved] at hip
      simp only [hline, List.mem_cons] at hip
      rcases hip with rfl | hip
      · rw [ClientRegistry.ipToClientId_setIp, if_pos ⟨(isLanIP_of_address hline).1, rfl⟩, hk]
      · rw [hk]
        exact setIp_keeps (hs ip hip)
    · rw [hk]
      exact setIp_keeps (hs ip hip)
  | _ =>
    rcases hold with ⟨rfl, rfl, -, hs⟩ | ⟨-, -, hs⟩
    · rw [addrs_moved] at hip
      simp only [hline] at hip
      exact hs ip hip
    · exact hs ip hip

private theorem addrs_of_moved (hi : Registered k s) (hse : s.sessions[i]? = some se)
    (he : se.enters config a = some p) (hg : orderly config s i se a = true)
    (hr : Running (s.moved config i se a p) j sj)
    (hnew : ∀ l sl, j < l → Running (s.moved config i se a p) l sl → sl.announced = false) :
    ∀ ip ∈ sj.addrs, (s.moved config i se a p).shared.registry.ipToClientId ip = some k := by
  intro ip hip
  have hk := hi.key i se hse
  have hold := addrs_before hi hse he hg hr hnew
  -- what a step that leaves the registry and the session's addresses as they are has to show
  have hkeep : (se.moved config i s.shared a p).addrs = se.addrs →
      s.shared.registry.ipToClientId ip = some k := by
    intro haddrs
    rcases hold with ⟨rfl, rfl, -, hs⟩ | ⟨-, -, hs⟩
    · exact hs ip (haddrs ▸ hip)
    · exact hs ip hip
  cases a with
  | line ev => exact addrs_of_line hi hse he hg hr hnew ip hip
  | registerIp =>
    simp only [State.moved, registry_effect, hk]
    rcases hold with ⟨rfl, rfl, -, -⟩ | ⟨-, -, hs⟩
    · rw [addrs_moved] at hip
      exact setIp_connAddrs hip
    · exact setIp_keeps (hs ip hip)
  | removeClient =>
    exfalso
    have hnone := anyRunning_eq_false.mp hg
    rcases hold with ⟨rfl, rfl, hri, -⟩ | ⟨-, hrj, -⟩
    · have := hnone j se hri
      rw [addrs_moved] at hip
      simp [List.ne_nil_of_mem hip] at this
    · have := hnone j sj hrj
      simp [List.ne_nil_of_mem hip] at this
  | _ =>
    simp only [State.moved, registry_effect]
    exact hkeep addrs_moved

theorem registered_moved (hi : Registered k s) (hse : s.sessions[i]? = some se)
    (he : se.enters config a = some p) (hg : orderly config s i se a = true) :
    Registered k (s.moved config i se a p) where
  key j sj hsj := by
    rcases getElem?_set_cases hse hsj with ⟨rfl, rfl⟩ | ⟨-, hsj⟩
    · rw [clientId_moved]
      exact hi.key j se hse
    · exact hi.key j sj hsj
  ok j sj hsj := by
    rcases getElem?_set_cases hse hsj with ⟨rfl, rfl⟩ | ⟨-, hsj⟩
    · exact ok_moved (hi.ok j se hse) he
    · exact hi.ok j sj hsj
  channel _ _ hr hc hnew := channel_moved hi hse he hg hr hc hnew
  addrs _ _ hr hnew := addrs_of_moved hi hse he hg hr hnew

end

/-! ## All runs -/

/-- The sessions of the run authenticate as the client `k`. -/
def OnlyClient (k : ClientId) : Action → Prop
  | .authenticate c _ _ => c = k
  | _ => True

instance (k : ClientId) : DecidablePred (OnlyClient k)
  | .authenticate c _ _ => inferInstanceAs (Decidable (c = k))
  | .session .. | .lookup _ | .write _ => isTrue trivial

theorem registered_init (k : ClientId) : Registered k {} := by
  constructor <;> simp [Running]

private theorem registered_authenticate {k : ClientId} {s : State} {new : Session}
    (hi : Registered k s) (hkey : new.clientId = k) (hok : new.Ok)
    (hnone : new.channelAdded = false ∧ new.addrs = []) :
    Registered k { s with sessions := s.sessions ++ [new] } := by
  -- a session that was there before is compared with the same newer ones, and the new one
  have hsess : ∀ {j sj}, Running { s with sessions := s.sessions ++ [new] } j sj →
      Running s j sj ∨ sj = new := by
    rintro j sj ⟨hsj, hr⟩
    rcases getElem?_snoc_eq_some.mp hsj with h | ⟨-, rfl⟩
    · exact .inl ⟨h, hr⟩
    · exact .inr rfl
  have hkeep : ∀ {j sj}, Running s j sj → Running { s with sessions := s.sessions ++ [new] } j sj :=
    fun h => ⟨getElem?_snoc_eq_some.mpr (.inl h.1), h.2⟩
  constructor
  · intro j sj hsj
    rcases getElem?_snoc_eq_some.mp hsj with h | ⟨-, rfl⟩
    · exact hi.key j sj h
    · exact hkey
  · intro j sj hsj
    rcases getElem?_snoc_eq_some.mp hsj with h | ⟨-, rfl⟩
    · exact hi.ok j sj h
    · exact hok
  · intro j sj hr hc hnew
    rcases hsess hr with h | rfl
    · exact hi.channel j sj h hc fun l sl hl hrl => hnew l sl hl (hkeep hrl)
    · rw [hnone.1] at hc
      cases hc
  · intro j sj hr hnew ip hip
    rcases hsess hr with h | rfl
    · exact hi.addrs j sj h (fun l sl hl hrl => hnew l sl hl (hkeep hrl)) ip hip
    · rw [hnone.2] at hip
      cases hip

theorem registered_step {k : ClientId} {s s' : State} {a : Action} (hi : Registered k s)
    (ha : OnlyClient k a) (hg : Orderly config s a) (hs : step config s a = some s') :
    Registered k s' := by
  cases a with
  | authenticate c ip t =>
    obtain ⟨hc, rfl⟩ := step_authenticate_eq_some.mp hs
    exact registered_authenticate hi ha ⟨Int.le_refl _, fun _ => ⟨rfl, rfl⟩, trivial⟩ ⟨rfl, rfl⟩
  | session i a =>
    obtain ⟨se, p, hse, hp, rfl⟩ := step_session_eq_some.mp hs
    refine registered_moved hi hse hp ?_
    simpa [Orderly, hse] using hg
  | lookup c =>
    cases step_lookup_eq_some.mp hs
    exact ⟨hi.key, hi.ok, hi.channel, hi.addrs⟩
  | write i =>
    obtain ⟨_, rfl⟩ := step_write_eq_some.mp hs
    exact ⟨hi.key, hi.ok, hi.channel, hi.addrs⟩

/-- **Hand-over.** In every run of sessions of one client whose steps are orderly, the newest
running session has its own channel and addresses. -/
theorem handed_over_of_run {k : ClientId} {as : List Action} {s : State}
    (hk : ∀ a ∈ as, OnlyClient k a) (hm : Meets (step config) (Orderly config) {} as)
    (hr : run (step config) {} as = some s) : HandedOver s :=
  handedOver_of_registered <| invariant_of_meets
    (fun _ _ _ hi hc hs => registered_step hi hc.1 hc.2 hs) (registered_init k)
    (meets_and_of_forall hk hm) hr

/-- A reconnect in order: the old session has ended before the new one comes up. -/
def reconnected : List Action :=
  comesUp 0 clientA (ascii "192.0.2.7") ++ goesDown 0 ++ comesUp 1 clientA (ascii "192.0.2.8")

/-- A reconnect before the old session has ended. -/
def overlapped : List Action :=
  comesUp 0 clientA (ascii "192.0.2.7") ++ comesUp 1 clientA (ascii "192.0.2.8") ++ goesDown 0

theorem handed_over_of_run_reconnected :
    ∃ s, run (step {}) {} reconnected = some s ∧ s.shared.channels clientA = some 1 ∧
      s.shared.registry.ipToClientId (ascii "192.0.2.8") = some clientA ∧ HandedOver s := by
  have hrun : (run (step {}) {} reconnected).map (fun s => (s.shared.channels clientA,
      s.shared.registry.ipToClientId (ascii "192.0.2.8"))) = some (some 1, some clientA) := by
    decide +kernel
  obtain ⟨s, hs, hv⟩ := Option.map_eq_some_iff.mp hrun
  simp only [Prod.mk.injEq] at hv
  have hk : ∀ a ∈ reconnected, OnlyClient clientA a := by decide +kernel
  exact ⟨s, hs, hv.1, hv.2, handed_over_of_run hk (by decide +kernel) hs⟩

/-- The cleanup of the old session removes the channel and the address of the new one, which
is running. -/
theorem old_cleanup_removes_channel :
    ∃ s se, run (step {}) {} overlapped = some s ∧ Newest s 1 se ∧ se.clientId = clientA ∧
      se.phase = .data ∧ se.channelAdded = true ∧ s.shared.channels clientA = none ∧
      s.shared.registry.ipToClientId (ascii "192.0.2.8") = none ∧ ¬ HandedOver s := by
  have hrun : (run (step {}) {} overlapped).map (fun s => decide (s.sessions.length = 2 ∧
      (∃ se ∈ s.sessions[1]?, se.clientId = clientA ∧ se.phase = .data ∧ se.channelAdded = true) ∧
      s.shared.channels clientA = none ∧
      s.shared.registry.ipToClientId (ascii "192.0.2.8") = none)) = some true := by decide +kernel
  obtain ⟨s, hs, hv⟩ := Option.map_eq_some_iff.mp hrun
  obtain ⟨hlen, ⟨se, hse, hid, hphase, hadded⟩, hchan, hreg⟩ := of_decide_eq_true hv
  have hnewest : Newest s 1 se := by
    refine ⟨⟨hse, by rw [hphase]; rfl⟩, fun l sl hl hrl => ?_⟩
    have hlt := (List.getElem?_eq_some_iff.mp hrl.1).1
    rw [hlen] at hlt
    exact absurd hlt (Nat.not_lt.mpr hl)
  refine ⟨s, se, hs, hnewest, hid, hphase, hadded, hchan, hreg, fun h => ?_⟩
  have := (h 1 se hnewest).2.1 hadded
  rw [hid, hchan] at this
  cases this

end TrafficMonitor.Sessions
