import Mathlib.Data.Set.Card
import TrafficMonitor.Server.Sessions

/-!
# The registry when every client has one session

`ClientRegistry` is shared by all sessions; each changes it for its own client, by the
X-, A- and H-lines it reads and by `RegistryCleanup` at its end. Here the health records
are added to the server, and a client authenticates only when no session of it is live.
Proved here, for every interleaving of the sessions:

* `frame_of_step`: what one step changes, and what it leaves alone;
* `invariant_step`: an entry of a client is one that its live session has counted;
* `registry_of_run`: at most 65 addresses lead to a client, none to a client without a
  live session, and every step keeps to its frame.

A health record is kept as the body that `parseHealthLine` reads, with the time of its
arrival.
-/

namespace TrafficMonitor.OneSession

open Bytes Runs Sessions

/-! ## Health records -/

structure HealthReport where
  body : Bytes
  reportedAtSec : Int
  deriving DecidableEq, Repr

structure State where
  base : Sessions.State := {}
  clientHealth : ClientId → Option HealthReport := fun _ => none

/-- A step of the server, and the system clock at it. -/
structure Action where
  act : Sessions.Action
  wallSec : Int := 0

/-- An H-line replaces the client's record, the end of the session removes it. -/
def healthEffect (se : Session) (wallSec : Int) (health : ClientId → Option HealthReport) :
    SessionAction → ClientId → Option HealthReport
  | .line ev => match stripPrefix kHealthLinePrefix ev.text with
    | some body => Function.update health se.clientId (some ⟨body, wallSec⟩)
    | none => health
  | .removeClient => Function.update health se.clientId none
  | _ => health

def State.healthAfter (s : State) (a : Action) : ClientId → Option HealthReport :=
  match a.act with
  | .session i b => match s.base.sessions[i]? with
    | some se => healthEffect se a.wallSec s.clientHealth b
    | none => s.clientHealth
  | _ => s.clientHealth

def step (config : ServerConfig) (s : State) (a : Action) : Option State :=
  match Sessions.step config s.base a.act with
  | none => none
  | some base => some { base := base, clientHealth := s.healthAfter a }

/-! ## What is asked for -/

/-- `RegistryCleanup` has run, or was never set up. -/
def ended : Phase → Bool
  | .cleaned | .streamGone | .freed => true
  | _ => false

/-- A live session of the client. -/
structure Live (l : List Session) (c : ClientId) (j : SessionId) (se : Session) : Prop where
  session : l[j]? = some se
  client : se.clientId = c
  live : ended se.phase = false

/-- A client authenticates when no session of it is live. -/
def Sole (s : State) : Action → Prop
  | ⟨.authenticate c _ _, _⟩ => ∀ se ∈ s.base.sessions, se.clientId = c → ended se.phase = true
  | _ => True

instance (s : State) : ∀ a, Decidable (Sole s a)
  | ⟨.authenticate c _ _, _⟩ =>
    inferInstanceAs (Decidable (∀ se ∈ s.base.sessions, se.clientId = c → ended se.phase = true))
  | ⟨.session .., _⟩ | ⟨.lookup _, _⟩ | ⟨.write _, _⟩ => isTrue trivial

def State.mapped (s : State) : Bytes → Option ClientId := s.base.shared.registry.ipToClientId

def State.externalIp (s : State) : ClientId → Option Bytes :=
  s.base.shared.registry.clientToExternalIp

/-- The addresses that lead to the client. -/
def State.addresses (s : State) (c : ClientId) : Set Bytes := {ip | s.mapped ip = some c}

/-- The addresses that a step of the session takes for its client: the connection's when
it is registered and with an accepted X-line, and the one of an accepted A-line. -/
def takes (config : ServerConfig) (se : Session) : SessionAction → List Bytes
  | .registerIp => se.connAddrs
  | .line ev => match se.readLine config ev with
    | .external _ => se.connAddrs
    | .address ip => [ip]
    | _ => []
  | _ => []

/-- What a step of a session may do. -/
structure SessionFrame (config : ServerConfig) (s s' : State) (se : Session)
    (b : SessionAction) : Prop where
  /-- An accepted X-line removes the client's addresses and adds that of the connection. -/
  accepted : ∀ ev extIp, b = .line ev → se.readLine config ev = .external extIp →
    (∀ ip, s'.mapped ip = if ip ∈ se.connAddrs then some se.clientId
      else if s.mapped ip = some se.clientId then none else s.mapped ip) ∧
    s'.externalIp = Function.update s.externalIp se.clientId (some extIp) ∧
    s'.clientHealth = s.clientHealth
  /-- Any other X-line changes nothing. -/
  refused : ∀ ev, b = .line ev → (stripPrefix kExtIPLinePrefix ev.text).isSome = true →
    (∀ extIp, se.readLine config ev ≠ .external extIp) → s' = s
  /-- Another client loses the addresses that this one takes, and no others. -/
  others : ∀ ip d, d ≠ se.clientId →
    (s'.mapped ip = some d ↔ s.mapped ip = some d ∧ ip ∉ takes config se b)
  /-- The end of the session removes what belongs to the client. -/
  ends : b = .removeClient →
    (∀ ip, s'.mapped ip = if s.mapped ip = some se.clientId then none else s.mapped ip) ∧
    s'.externalIp = Function.update s.externalIp se.clientId none ∧
    s'.clientHealth = Function.update s.clientHealth se.clientId none

/-- What a step may do: the steps that are not of a session leave the registry alone. -/
def Framed (config : ServerConfig) (s : State) (a : Action) (s' : State) : Prop :=
  match a.act with
  | .session i b => ∀ se, s.base.sessions[i]? = some se → SessionFrame config s s' se b
  | _ => s'.base.shared.registry = s.base.shared.registry ∧ s'.clientHealth = s.clientHealth

/-! ## One step -/

variable {config : ServerConfig} {s s' : State} {se : Session} {i : SessionId} {w : Int}
  {b : SessionAction} {p : Phase} {sh : Shared}

theorem step_eq_some {a : Action} : step config s a = some s' ↔
    ∃ base, Sessions.step config s.base a.act = some base ∧
      s' = { base := base, clientHealth := s.healthAfter a } := by
  unfold step
  cases Sessions.step config s.base a.act <;> simp [eq_comm]

/-- The step removes the client's addresses. -/
def clears (config : ServerConfig) (se : Session) : SessionAction → Bool
  | .line ev => match se.readLine config ev with
    | .external _ => true
    | _ => false
  | .removeClient => true
  | _ => false

/-- **The registry after a step of a session**, address by address. -/
theorem mapped_effect (ip : Bytes) : (se.effect config i sh b).1.registry.ipToClientId ip =
    if ip ∈ takes config se b then some se.clientId
    else if clears config se b = true ∧ sh.registry.ipToClientId ip = some se.clientId then none
    else sh.registry.ipToClientId ip := by
  rw [registry_effect]
  cases b with
  | registerIp =>
    simp [takes, clears, ClientRegistry.ipToClientId_setIp, mem_connAddrs]
  | line ev =>
    cases hr : se.readLine config ev with
    | external extIp =>
      simp [hr, takes, clears, ClientRegistry.announceExternal, ClientRegistry.ipToClientId_setIp,
        ClientRegistry.ipToClientId_eraseIps, mem_connAddrs]
    | address a =>
      simp [hr, takes, clears, ClientRegistry.ipToClientId_setIp, (isLanIP_of_address hr).1]
    | data m => simp [hr, takes, clears]
    | ignored => simp [hr, takes, clears]
  | removeClient =>
    have h : (sh.registry.eraseIps se.clientId).ipToClientId ip = _ :=
      ClientRegistry.ipToClientId_eraseIps ip
    simpa [takes, clears, ClientRegistry.removeClient_of_ne se.clientId_ne] using h
  | _ => simp [takes, clears]

/-- X-, A- and D-lines are no H-lines. -/
theorem healthEffect_line {ev : LineEvent} (wallSec : Int) (health : ClientId → Option HealthReport)
    (h : (stripPrefix kExtIPLinePrefix ev.text).isSome = true) :
    healthEffect se wallSec health (.line ev) = health := by
  obtain ⟨body, hb⟩ := Option.isSome_iff_exists.mp h
  have htext := stripPrefix_eq_some.mp hb
  have hnone : stripPrefix kHealthLinePrefix ev.text = none := by
    rw [htext]
    exact stripPrefix_head (by decide) _ _
  simp only [healthEffect, hnone]

theorem isXLine_of_external {ev : LineEvent} {extIp : Bytes}
    (hr : se.readLine config ev = .external extIp) :
    (stripPrefix kExtIPLinePrefix ev.text).isSome = true := by
  cases hx : stripPrefix kExtIPLinePrefix ev.text with
  | some body => rfl
  | none =>
    simp only [Session.readLine, hx] at hr
    split at hr
    · split at hr <;> cases hr
    · split at hr
      · rename_i body _
        cases hm : parseDataLine body config.max_iface_len config.max_ip_len <;>
          simp [hm] at hr
      · cases hr

/-- A refused line leaves session and tables as they were. -/
theorem handle_of_ignored {ev : LineEvent} (hr : se.readLine config ev = .ignored) :
    se.handle config sh ev = (sh, se) := by
  simp only [Session.handle, hr]

theorem ignored_of_xline {ev : LineEvent}
    (hx : (stripPrefix kExtIPLinePrefix ev.text).isSome = true)
    (hr : ∀ extIp, se.readLine config ev ≠ .external extIp) :
    se.readLine config ev = .ignored := by
  obtain ⟨body, hb⟩ := Option.isSome_iff_exists.mp hx
  simp only [Session.readLine, hb] at hr ⊢
  split
  · rename_i hc
    rw [if_pos hc] at hr
    exact absurd rfl (hr _)
  · rfl

theorem externalIp_effect : (se.effect config i sh b).1.registry.clientToExternalIp =
    match b with
    | .line ev => match se.readLine config ev with
      | .external extIp => Function.update sh.registry.clientToExternalIp se.clientId (some extIp)
      | _ => sh.registry.clientToExternalIp
    | .removeClient => Function.update sh.registry.clientToExternalIp se.clientId none
    | _ => sh.registry.clientToExternalIp := by
  have hset : ∀ (reg : ClientRegistry) ip id,
      (reg.setIp ip id).clientToExternalIp = reg.clientToExternalIp := by
    intro reg ip id
    unfold ClientRegistry.setIp
    split <;> rfl
  rw [registry_effect]
  cases b with
  | registerIp => exact hset ..
  | line ev =>
    cases hr : se.readLine config ev with
    | external extIp => simp only [hr]; rfl
    | address a => simp only [hr, hset]
    | _ => simp only [hr]
  | removeClient => simp only [ClientRegistry.removeClient_of_ne se.clientId_ne]
  | _ => rfl

/-- A session that reads a line is in the loop, and a refused line leaves it there. -/
private theorem session_of_ignored {ev : LineEvent} (hse : s.base.sessions[i]? = some se)
    (hp : se.enters config (.line ev) = some p) (hr : se.readLine config ev = .ignored) :
    s.base.sessions.set i (se.moved config i s.base.shared (.line ev) p) = s.base.sessions := by
  have hmoved : se.moved config i s.base.shared (.line ev) p = se := by
    simp only [Session.enters, hr] at hp
    split at hp
    · rename_i hphase
      cases hp
      simp only [Session.moved, Session.effect, handle_of_ignored hr]
      cases se
      cases hphase
      rfl
    · cases hp
  rw [hmoved]
  obtain ⟨hlt, rfl⟩ := List.getElem?_eq_some_iff.mp hse
  exact List.set_getElem_self hlt

/-- **The frame of a step.** -/
theorem frame_of_step {a : Action} (hs : step config s a = some s') : Framed config s a s' := by
  obtain ⟨base, hbase, rfl⟩ := step_eq_some.mp hs
  obtain ⟨act, w⟩ := a
  cases act with
  | authenticate c ip t =>
    obtain ⟨_, rfl⟩ := step_authenticate_eq_some.mp hbase
    exact ⟨rfl, rfl⟩
  | lookup c =>
    cases step_lookup_eq_some.mp hbase
    exact ⟨rfl, rfl⟩
  | write j =>
    obtain ⟨_, rfl⟩ := step_write_eq_some.mp hbase
    exact ⟨rfl, rfl⟩
  | session i b =>
    obtain ⟨se, p, hse, hp, rfl⟩ := step_session_eq_some.mp hbase
    intro se' hse'
    obtain rfl : se = se' := Option.some.inj (hse.symm.trans hse')
    refine ⟨?_, ?_, ?_, ?_⟩
    · rintro ev extIp rfl hr
      refine ⟨fun ip => ?_, ?_, ?_⟩
      · simp only [State.mapped, mapped_effect, takes, clears, hr, true_and]
        rfl
      · simp only [State.externalIp, externalIp_effect, hr]
      · simp only [State.healthAfter, hse]
        exact healthEffect_line _ _ (isXLine_of_external hr)
    · rintro ev rfl hx hno
      have hr := ignored_of_xline hx hno
      obtain ⟨base, health⟩ := s
      simp only [State.healthAfter, hse, healthEffect_line _ _ hx,
        session_of_ignored (s := ⟨base, health⟩) hse hp hr, Session.effect, handle_of_ignored hr]
    · intro ip d hd
      simp only [State.mapped, mapped_effect]
      by_cases ht : ip ∈ takes config se b
      · simp [ht, Ne.symm hd]
      · simp only [ht, ↓reduceIte, not_false_eq_true, and_true]
        split
        · rename_i hc
          simp [hc.2, Ne.symm hd]
        · rfl
    · rintro rfl
      refine ⟨fun ip => ?_, ?_, ?_⟩
      · simp only [State.mapped, mapped_effect, takes, clears, List.not_mem_nil, ↓reduceIte,
          true_and]
        rfl
      · simp only [State.externalIp, externalIp_effect]
      · simp only [State.healthAfter, hse, healthEffect]

/-! ## What a session has counted -/

/-- The connection address, or the first X-line's, may be in the registry. -/
def registered (se : Session) : Bool :=
  match se.phase, se.transport with
  | .authenticated, _ => false
  | .half, .tcp => false
  | _, _ => true

/-- The A-lines counted since the last X-line. -/
def counted (se : Session) : Nat :=
  match se.phase with
  | .announced _ => 0
  | _ => se.announcedCount

/-- The addresses that a session has taken are counted. -/
structure Counted (se : Session) : Prop where
  limit : se.announcedCount ≤ kMaxAnnounceAddressesPerSession
  length : se.addrs.length ≤ counted se + 1
  unregistered : registered se = false → se.addrs = []

theorem announcedCount_of_address {ev : LineEvent} {ip : Bytes}
    (h : se.readLine config ev = .address ip) :
    se.announcedCount < kMaxAnnounceAddressesPerSession := by
  simp only [Session.readLine] at h
  split at h
  · split at h <;> cases h
  · split at h
    · split at h
      · rename_i hc
        exact hc.1
      · cases h
    · split at h
      · rename_i body _
        cases hm : parseDataLine body config.max_iface_len config.max_ip_len <;>
          rw [hm] at h <;> cases h
      · cases h

theorem length_connAddrs (se : Session) : se.connAddrs.length ≤ 1 := by
  unfold Session.connAddrs
  split <;> simp

/-- A line is read in the loop, and leads into the loop or to an announcement. -/
theorem enters_line {ev : LineEvent} (he : se.enters config (.line ev) = some p) :
    se.phase = .data ∧ p = match se.readLine config ev with
      | .external extIp => .announced extIp
      | _ => .data := by
  simp only [Session.enters] at he
  split at he
  · rename_i hd
    refine ⟨hd, ?_⟩
    cases hr : se.readLine config ev <;> rw [hr] at he <;> exact (Option.some.inj he).symm
  · cases he

theorem counted_moved (hc : Counted se) (he : se.enters config b = some p) :
    Counted (se.moved config i sh b p) := by
  have hconn := length_connAddrs se
  cases b with
  | line ev =>
    obtain ⟨hd, rfl⟩ := enters_line he
    have hlen := hc.length
    simp only [counted, hd] at hlen
    refine ⟨?_, ?_, ?_⟩
    · rw [announcedCount_moved]
      cases hr : se.readLine config ev with
      | address ip =>
        have := announcedCount_of_address hr
        simp only [hr]
        omega
      | _ => simpa only [hr] using hc.limit
    · simp only [addrs_moved, counted, phase_moved, announcedCount_moved]
      cases hr : se.readLine config ev with
      | external extIp => simpa only [hr] using hconn
      | address ip =>
        simp only [List.length_cons]
        omega
      | _ => simpa only [hr] using hlen
    · intro hno
      simp only [registered, phase_moved] at hno
      cases hr : se.readLine config ev <;> simp [hr] at hno
  | registerIp =>
    refine ⟨by simpa only [announcedCount_moved] using hc.limit, ?_, ?_⟩
    · simp only [addrs_moved]
      omega
    · intro hno
      simp only [Session.enters] at he
      simp only [registered, phase_moved, transport_moved] at hno
      split at he <;> cases he <;> simp_all
  | takeSnapshot =>
    simp only [Session.enters] at he
    cases hph : se.phase with
    | announced extIp =>
      rw [hph] at he
      cases he
      have hlen := hc.length
      simp only [counted, hph] at hlen
      refine ⟨by simp [announcedCount_moved, hph], ?_, ?_⟩
      · simpa [addrs_moved, counted, announcedCount_moved, hph] using hlen
      · simp [registered]
    | _ =>
      rw [hph] at he
      cases he
  | _ =>
    have hlen := hc.length
    have hle : counted se ≤ se.announcedCount := by
      unfold counted
      split
      · exact Nat.zero_le _
      · exact Nat.le_refl _
    refine ⟨by simpa only [announcedCount_moved] using hc.limit, ?_, ?_⟩
    · simp only [addrs_moved, counted, phase_moved, announcedCount_moved]
      simp only [Session.enters] at he
      grind
    · intro hno
      simp only [addrs_moved]
      apply hc.unregistered
      simp only [Session.enters] at he
      simp only [registered, phase_moved, transport_moved] at hno ⊢
      grind

/-! ## Who holds what -/

/-- A step ends the session, or it is as live as before. -/
theorem ended_enters (he : se.enters config b = some p) :
    ended p = match b with
      | .abort | .removeClient => true
      | _ => ended se.phase := by
  cases b <;> simp only [Session.enters] at he <;> grind [ended]

theorem registered_moved (he : se.enters config b = some p) (hr : registered se = true) :
    b ≠ .abort ∧ registered (se.moved config i sh b p) = true := by
  simp only [registered, phase_moved, transport_moved] at hr ⊢
  cases b <;> simp only [Session.enters] at he <;> grind

/-- A live session of the client that has registered the client. -/
structure Holder (l : List Session) (c : ClientId) (j : SessionId) (se : Session) : Prop
    extends Live l c j se where
  registered : registered se = true

/-- Everything in the registry belongs to the one live session of its client. -/
structure Invariant (s : State) : Prop where
  counted : ∀ (j : SessionId) (se : Session), s.base.sessions[j]? = some se → Counted se
  unique : ∀ c j k sj sk, Live s.base.sessions c j sj → Live s.base.sessions c k sk → j = k
  owned : ∀ c ip, s.mapped ip = some c → ∃ j se, Holder s.base.sessions c j se ∧ ip ∈ se.addrs
  external : ∀ c, s.externalIp c ≠ none → ∃ j se, Holder s.base.sessions c j se
  health : ∀ c, s.clientHealth c ≠ none → ∃ j se, Holder s.base.sessions c j se

theorem invariant_init : Invariant {} := by
  refine ⟨?_, ?_, ?_, ?_, ?_⟩
  · intro j se h
    cases h
  · intro c j k sj sk h
    cases h.session
  · intro c ip h
    cases h
  · intro c h
    exact absurd rfl h
  · intro c h
    exact absurd rfl h

/-- A session that has just authenticated holds nothing yet. -/
private theorem counted_fresh {c : ClientId} {h : c ≠ []} {ip : Bytes} {t : Transport} :
    Counted { clientId := c, clientId_ne := h, clientIp := ip, transport := t } :=
  ⟨Nat.zero_le _, Nat.zero_le _, fun _ => rfl⟩

theorem invariant_authenticate {c : ClientId} {ip : Bytes} {t : Transport} (hi : Invariant s)
    (hsole : Sole s ⟨.authenticate c ip t, w⟩)
    (hs : step config s ⟨.authenticate c ip t, w⟩ = some s') : Invariant s' := by
  obtain ⟨base, hbase, rfl⟩ := step_eq_some.mp hs
  obtain ⟨hne, rfl⟩ := step_authenticate_eq_some.mp hbase
  have hkeep : ∀ d j se, Holder s.base.sessions d j se → Holder
      (s.base.sessions ++ [{ clientId := c, clientId_ne := hne, clientIp := ip, transport := t }])
      d j se := fun d j se h =>
    ⟨⟨getElem?_snoc_eq_some.mpr (.inl h.session), h.client, h.live⟩, h.registered⟩
  refine ⟨?_, ?_, ?_, ?_, ?_⟩
  · intro j se hse
    rcases getElem?_snoc_eq_some.mp hse with hse | ⟨_, rfl⟩
    · exact hi.counted j se hse
    · exact counted_fresh
  · intro d j k sj sk hj hk
    -- the new session is the only live one of its client
    have hold : ∀ (l : SessionId) (sl : Session), s.base.sessions[l]? = some sl →
        sl.clientId = c → ended sl.phase = false → False := by
      intro l sl hsl hc hlive
      rw [hsole sl (List.mem_of_getElem? hsl) hc] at hlive
      cases hlive
    rcases getElem?_snoc_eq_some.mp hj.session with hsj | ⟨rfl, rfl⟩ <;>
      rcases getElem?_snoc_eq_some.mp hk.session with hsk | ⟨rfl, rfl⟩
    · exact hi.unique d j k sj sk ⟨hsj, hj.client, hj.live⟩ ⟨hsk, hk.client, hk.live⟩
    · exact (hold j sj hsj (hj.client.trans hk.client.symm) hj.live).elim
    · exact (hold k sk hsk (hk.client.trans hj.client.symm) hk.live).elim
    · rfl
  · intro d ip hip
    obtain ⟨j, se, hh, hmem⟩ := hi.owned d ip hip
    exact ⟨j, se, hkeep d j se hh, hmem⟩
  · intro d hd
    obtain ⟨j, se, hh⟩ := hi.external d hd
    exact ⟨j, se, hkeep d j se hh⟩
  · intro d hd
    obtain ⟨j, se, hh⟩ := hi.health d hd
    exact ⟨j, se, hkeep d j se hh⟩

/-- A holder stays one, unless this step is its session's end. -/
private theorem holder_moved {c : ClientId} {j : SessionId} {sj : Session}
    (hse : s.base.sessions[i]? = some se) (he : se.enters config b = some p)
    (hh : Holder s.base.sessions c j sj) (hend : j = i → b ≠ .removeClient) :
    ∃ sj', Holder (s.base.sessions.set i (se.moved config i s.base.shared b p)) c j sj' ∧
      ((j = i ∧ sj = se ∧ sj' = se.moved config i s.base.shared b p) ∨ (j ≠ i ∧ sj' = sj)) := by
  by_cases hji : j = i
  · subst hji
    obtain rfl : se = sj := Option.some.inj (hse.symm.trans hh.session)
    have hmoved : b ≠ .abort ∧ registered (se.moved config j s.base.shared b p) = true :=
      registered_moved he hh.registered
    obtain ⟨hab, hreg⟩ := hmoved
    refine ⟨_, ⟨⟨getElem?_set_self hse, by simpa using hh.client, ?_⟩, hreg⟩,
      .inl ⟨rfl, rfl, rfl⟩⟩
    have hlive := hh.live
    rw [phase_moved, ended_enters he]
    cases b <;> first | exact hlive | exact absurd rfl hab | exact absurd rfl (hend rfl)
  · exact ⟨sj, ⟨⟨by rw [List.getElem?_set_ne (Ne.symm hji)]; exact hh.session, hh.client, hh.live⟩,
      hh.registered⟩, .inr ⟨hji, rfl⟩⟩

/-- A step that writes an entry of its client leaves a holder behind. -/
private theorem holder_of_entry (hse : s.base.sessions[i]? = some se)
    (he : se.enters config b = some p) (hb : b = .registerIp ∨ ∃ ev, b = .line ev) :
    Holder (s.base.sessions.set i (se.moved config i s.base.shared b p)) se.clientId i
      (se.moved config i s.base.shared b p) := by
  refine ⟨⟨getElem?_set_self hse, by simp, ?_⟩, ?_⟩
  · rw [phase_moved]
    rcases hb with rfl | ⟨ev, rfl⟩
    · simp only [Session.enters] at he
      grind [ended]
    · obtain ⟨_, rfl⟩ := enters_line he
      cases se.readLine config ev <;> rfl
  · simp only [registered, phase_moved, transport_moved]
    rcases hb with rfl | ⟨ev, rfl⟩
    · simp only [Session.enters] at he
      grind
    · obtain ⟨_, rfl⟩ := enters_line he
      cases se.readLine config ev <;> rfl

/-- The addresses that a step takes, and those it does not clear, are in its session's list. -/
theorem mem_addrs_moved {ip : Bytes} (hmem : ip ∈ takes config se b ∨
    (ip ∈ se.addrs ∧ clears config se b = false ∧ b ≠ .registerIp)) :
    ip ∈ (se.moved config i sh b p).addrs := by
  rw [addrs_moved]
  cases b with
  | line ev => cases hr : se.readLine config ev <;> simp_all [takes, clears]
  | _ => simp_all [takes, clears]

/-- A client that a line of its own gives an entry to, or that keeps one, has a holder. -/
private theorem exists_holder_moved {c : ClientId} (hse : s.base.sessions[i]? = some se)
    (he : se.enters config b = some p)
    (hc : (∃ ev, b = .line ev ∧ c = se.clientId) ∨
      ((b = .removeClient → c ≠ se.clientId) ∧ ∃ j sj, Holder s.base.sessions c j sj)) :
    ∃ j sj, Holder (s.base.sessions.set i (se.moved config i s.base.shared b p)) c j sj := by
  rcases hc with ⟨ev, rfl, rfl⟩ | ⟨hother, j, sj, hh⟩
  · exact ⟨i, _, holder_of_entry hse he (.inr ⟨ev, rfl⟩)⟩
  · obtain ⟨sj', hh', _⟩ := holder_moved hse he hh fun hji hb => hother hb (by
      subst hji
      rw [← hh.client, Option.some.inj (hse.symm.trans hh.session)])
    exact ⟨j, sj', hh'⟩

/-- A session that is live after a step was live before. -/
private theorem live_before {c : ClientId} {j : SessionId} {sj : Session}
    (hse : s.base.sessions[i]? = some se) (he : se.enters config b = some p)
    (hl : Live (s.base.sessions.set i (se.moved config i s.base.shared b p)) c j sj) :
    ∃ sj', Live s.base.sessions c j sj' := by
  rcases getElem?_set_cases hse hl.session with ⟨rfl, rfl⟩ | ⟨_, hsl⟩
  · refine ⟨se, hse, by simpa using hl.client, ?_⟩
    have hlive := hl.live
    rw [phase_moved, ended_enters he] at hlive
    split at hlive <;> simp_all
  · exact ⟨sj, hsl, hl.client, hl.live⟩

/-- Every entry is in the list of its client's session. -/
private theorem owned_session (hi : Invariant s) (hse : s.base.sessions[i]? = some se)
    (he : se.enters config b = some p) {c : ClientId} {ip : Bytes}
    (hip : (if ip ∈ takes config se b then some se.clientId
      else if clears config se b = true ∧ s.mapped ip = some se.clientId then none
      else s.mapped ip) = some c) :
    ∃ j sj, Holder (s.base.sessions.set i (se.moved config i s.base.shared b p)) c j sj ∧
      ip ∈ sj.addrs := by
  by_cases ht : ip ∈ takes config se b
  · rw [if_pos ht] at hip
    cases hip
    have hb : b = .registerIp ∨ ∃ ev, b = .line ev := by
      cases b <;> simp_all [takes]
    exact ⟨i, _, holder_of_entry hse he hb, mem_addrs_moved (.inl ht)⟩
  · rw [if_neg ht] at hip
    split at hip
    · cases hip
    · rename_i hclear
      obtain ⟨j, sj, hh, hmem⟩ := hi.owned c ip hip
      have hsame : j = i → sj = se ∧ clears config se b = false := by
        rintro rfl
        obtain rfl : se = sj := Option.some.inj (hse.symm.trans hh.session)
        have hc := hh.client
        refine ⟨rfl, ?_⟩
        by_contra hcl
        exact hclear ⟨by simpa using hcl, by rw [hip, hc]⟩
      obtain ⟨sj', hh', hcase⟩ := holder_moved hse he hh
        fun hji hb => by
          have := (hsame hji).2
          simp [hb, clears] at this
      refine ⟨j, sj', hh', ?_⟩
      rcases hcase with ⟨rfl, rfl, rfl⟩ | ⟨_, rfl⟩
      · refine mem_addrs_moved (.inr ⟨hmem, (hsame rfl).2, ?_⟩)
        -- a session registers its address once
        rintro rfl
        have hreg := hh.registered
        simp only [Session.enters] at he
        simp only [registered] at hreg
        grind
      · exact hmem

theorem invariant_session (hi : Invariant s) (hs : step config s ⟨.session i b, w⟩ = some s') :
    Invariant s' := by
  obtain ⟨base, hbase, rfl⟩ := step_eq_some.mp hs
  obtain ⟨se, p, hse, he, rfl⟩ := step_session_eq_some.mp hbase
  refine ⟨?_, ?_, ?_, ?_, ?_⟩
  · intro j sj hsj
    rcases getElem?_set_cases hse hsj with ⟨_, rfl⟩ | ⟨_, hsj⟩
    · exact counted_moved (hi.counted i se hse) he
    · exact hi.counted j sj hsj
  · intro c j k sj sk hj hk
    obtain ⟨sj', hj'⟩ := live_before hse he hj
    obtain ⟨sk', hk'⟩ := live_before hse he hk
    exact hi.unique c j k sj' sk' hj' hk'
  · intro c ip hip
    simp only [State.mapped, mapped_effect] at hip
    exact owned_session hi hse he hip
  · intro c hc
    simp only [State.externalIp, externalIp_effect] at hc
    refine exists_holder_moved hse he ?_
    by_cases hline : ∃ ev, b = .line ev ∧ c = se.clientId
    · exact .inl hline
    · have hold : s.externalIp c ≠ none ∧ (b = .removeClient → c ≠ se.clientId) := by
        cases b with
        | line ev =>
          have hne : c ≠ se.clientId := fun e => hline ⟨ev, rfl, e⟩
          cases hr : se.readLine config ev <;> simp_all [State.externalIp]
        | removeClient =>
          by_cases hne : c = se.clientId <;> simp_all [State.externalIp]
        | _ => simpa [State.externalIp] using hc
      exact .inr ⟨hold.2, hi.external c hold.1⟩
  · intro c hc
    simp only [State.healthAfter, hse] at hc
    refine exists_holder_moved hse he ?_
    by_cases hline : ∃ ev, b = .line ev ∧ c = se.clientId
    · exact .inl hline
    · have hold : s.clientHealth c ≠ none ∧ (b = .removeClient → c ≠ se.clientId) := by
        cases b with
        | line ev =>
          have hne : c ≠ se.clientId := fun e => hline ⟨ev, rfl, e⟩
          cases hh : stripPrefix kHealthLinePrefix ev.text <;> simp_all [healthEffect]
        | removeClient =>
          by_cases hne : c = se.clientId <;> simp_all [healthEffect]
        | _ => simpa [healthEffect] using hc
      exact .inr ⟨hold.2, hi.health c hold.1⟩

theorem invariant_step {a : Action} (hi : Invariant s) (hsole : Sole s a)
    (hs : step config s a = some s') : Invariant s' := by
  obtain ⟨act, w⟩ := a
  cases act with
  | authenticate c ip t => exact invariant_authenticate hi hsole hs
  | session i b => exact invariant_session hi hs
  | lookup c =>
    obtain ⟨base, hbase, rfl⟩ := step_eq_some.mp hs
    cases step_lookup_eq_some.mp hbase
    exact ⟨hi.counted, hi.unique, hi.owned, hi.external, hi.health⟩
  | write j =>
    obtain ⟨base, hbase, rfl⟩ := step_eq_some.mp hs
    obtain ⟨_, rfl⟩ := step_write_eq_some.mp hbase
    exact ⟨hi.counted, hi.unique, hi.owned, hi.external, hi.health⟩

/-! ## Runs -/

theorem invariant_run {as : List Action} (hone : Meets (step config) Sole {} as)
    (hr : run (step config) {} as = some s) : Invariant s :=
  invariant_of_meets (I := Invariant) (fun _ _ _ hi hc hs => invariant_step hi hc hs)
    invariant_init hone hr

/-- The addresses of a client are among those its session has taken. -/
theorem encard_addresses (hi : Invariant s) (c : ClientId) :
    (s.addresses c).encard ≤ (kMaxAnnounceAddressesPerSession + 1 : Nat) := by
  by_cases hsome : ∃ ip, s.mapped ip = some c
  · obtain ⟨ip, hip⟩ := hsome
    obtain ⟨j, se, hh, _⟩ := hi.owned c ip hip
    have hsub : s.addresses c ⊆ ↑se.addrs.toFinset := by
      intro a ha
      obtain ⟨k, sk, hk, hmem⟩ := hi.owned c a ha
      obtain rfl := hi.unique c j k se sk hh.toLive hk.toLive
      obtain rfl : se = sk := Option.some.inj (hh.session.symm.trans hk.session)
      simpa using hmem
    have hcounted := hi.counted j se hh.session
    have hlen : se.addrs.length ≤ kMaxAnnounceAddressesPerSession + 1 := by
      have := hcounted.length
      have := hcounted.limit
      have : counted se ≤ se.announcedCount := by
        unfold counted
        split <;> omega
      omega
    calc (s.addresses c).encard ≤ (se.addrs.toFinset : Set Bytes).encard := Set.encard_le_encard hsub
      _ = se.addrs.toFinset.card := Set.encard_coe_eq_coe_finsetCard _
      _ ≤ (kMaxAnnounceAddressesPerSession + 1 : Nat) := by
        exact_mod_cast (List.toFinset_card_le _).trans hlen
  · have hempty : s.addresses c = ∅ := Set.eq_empty_of_forall_notMem fun ip hip => hsome ⟨ip, hip⟩
    rw [hempty, Set.encard_empty]
    exact zero_le

/-- A client without a live session has nothing in the registry. -/
theorem nothing_left (hi : Invariant s) {c : ClientId}
    (hc : ∀ se ∈ s.base.sessions, se.clientId = c → ended se.phase = true) :
    s.addresses c = ∅ ∧ s.externalIp c = none ∧ s.clientHealth c = none := by
  have hno : ∀ j se, ¬ Holder s.base.sessions c j se := by
    intro j se hh
    have := hc se (List.mem_of_getElem? hh.session) hh.client
    rw [hh.live] at this
    cases this
  refine ⟨Set.eq_empty_of_forall_notMem fun ip hip => ?_, ?_, ?_⟩
  · obtain ⟨j, se, hh, _⟩ := hi.owned c ip hip
    exact hno j se hh
  · by_contra h
    obtain ⟨j, se, hh⟩ := hi.external c h
    exact hno j se hh
  · by_contra h
    obtain ⟨j, se, hh⟩ := hi.health c h
    exact hno j se hh

/-- **The registry under one session per client.** In every state of every run at most 65
addresses lead to a client, nothing is kept for a client without a live session, and every
step from there keeps to its frame. -/
theorem registry_of_run {as : List Action} (hone : Meets (step config) Sole {} as)
    (hr : run (step config) {} as = some s) :
    (∀ c, (s.addresses c).encard ≤ (kMaxAnnounceAddressesPerSession + 1 : Nat)) ∧
      (∀ c, (∀ se ∈ s.base.sessions, se.clientId = c → ended se.phase = true) →
        s.addresses c = ∅ ∧ s.externalIp c = none ∧ s.clientHealth c = none) ∧
      ∀ a s', step config s a = some s' → Framed config s a s' := by
  have hi := invariant_run hone hr
  exact ⟨encard_addresses hi, fun _ hc => nothing_left hi hc, fun _ _ hs => frame_of_step hs⟩

/-- Two clients behind one router: the second connects from an address that the first has
announced; the first ends and comes back. -/
def twoClients : List Action :=
  let x (i : SessionId) (sec : Int) (t : Bytes) : Sessions.Action :=
    .session i (.line { nowSec := sec, text := t })
  ((comesUp 0 clientA (ascii "192.168.1.2") ++
    [x 0 100 (ascii "X 203.0.113.9"), .session 0 .takeSnapshot, x 0 100 (ascii "A 10.0.0.5"),
      x 0 101 (ascii "A 10.0.0.6"), x 0 101 (ascii "X null"), x 0 102 (ascii "H ver=1.2.3")] ++
    comesUp 1 clientB (ascii "10.0.0.6") ++ goesDown 0 ++
    comesUp 2 clientA (ascii "192.168.1.3")).map fun a => ⟨a, 0⟩)

theorem registry_of_run_two_clients :
    ∃ s, run (step {}) {} twoClients = some s ∧
      s.mapped (ascii "10.0.0.6") = some clientB ∧ s.mapped (ascii "10.0.0.5") = none ∧
      (s.addresses clientA).encard ≤ 65 := by
  have hrun : (run (step {}) {} twoClients).map (fun s =>
      (s.mapped (ascii "10.0.0.6"), s.mapped (ascii "10.0.0.5"))) = some (some clientB, none) := by
    decide +kernel
  obtain ⟨s, hs, hv⟩ := Option.map_eq_some_iff.mp hrun
  simp only [Prod.mk.injEq] at hv
  exact ⟨s, hs, hv.1, hv.2, (registry_of_run (by decide +kernel) hs).1 clientA⟩

end TrafficMonitor.OneSession
