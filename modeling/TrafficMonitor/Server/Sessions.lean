import TrafficMonitor.Basic.Runs
import TrafficMonitor.Server.Registry

/-!
# Sessions of the server

One server, any number of sessions: `connectionThread` (TLS) and `wsConnectionThread`
(WebSocket) as step machines over the tables they share, `ClientRegistry` and
`ClientControlChannels`, together with the admin handlers that write through a channel
(`sendAndWait`). One action is one critical section of a thread, or one event local to it,
and threads interleave freely.

`Session.enters` is the control flow of a thread, `Session.effect` what an action does;
`step_session_eq_some` is the inversion lemma that the invariants start from. Proved here:

* `reflects_of_run`: the registry is the flat table of the announcements made;
* `channelOwned_step`: a channel in the table is that of a session of its client that has
  not removed it yet.

`recvFn`, the inflater and the cutting into lines are left out: a session receives lines.
H- and L-lines are received too, and touch neither table.
-/

namespace TrafficMonitor.Sessions

open Bytes Runs

abbrev SessionId := Nat

/-! ## One session -/

inductive Transport
  | tcp
  | websocket
  deriving DecidableEq, Repr

/-- How far a session's thread has come. -/
inductive Phase
  /-- `verifyClientAuth` has returned the client's id. -/
  | authenticated
  /-- The first of the channel and the connection address is registered. -/
  | half
  | ready
  /-- In `runWireDataLoop`. -/
  | data
  /-- Between the two critical sections of an X-line. -/
  | announced (extIp : Bytes)
  /-- The loop has ended. -/
  | leaving
  /-- `CtrlChannelCleanup` has run. -/
  | unhooked
  /-- `RegistryCleanup` has run. -/
  | cleaned
  /-- The `WsServerStream` is destroyed. -/
  | streamGone
  /-- `ConnCloser` has run: the TLS object is freed and the descriptor closed. -/
  | freed
  deriving DecidableEq, Repr

/-- The locals of a session's thread. `channelAdded` and `addrs` say what the session has
registered and not itself replaced. -/
structure Session where
  clientId : ClientId
  clientId_ne : clientId ≠ []
  clientIp : Bytes
  transport : Transport
  phase : Phase := .authenticated
  announcedCount : Nat := 0
  localExternalIp : Bytes := kExtIPNull
  lastXLineSec : Int := -1
  localRegSnap : Bytes → Option ClientId := fun _ => none
  lastDLineSecond : Int := -1
  dLineCountThisSecond : Nat := 0
  channelAdded : Bool := false
  addrs : List Bytes := []

/-- The resolver of the moment, if one is loaded. -/
structure Resolver where
  countryFor : Bytes → Bytes
  entityFor : Bytes → Bytes

def kUnknownCountry : Bytes := ascii "??"
def kUnknownEntity : Bytes := ascii "AS??"

/-- A line as the loop reads it: the monotonic clock, the resolver and the text. -/
structure LineEvent where
  nowSec : Int
  resolver : Option Resolver := none
  text : Bytes

/-- The arguments of `TrafficStats::addPacket`. -/
structure Packet where
  clientId : ClientId
  iface : Bytes
  srcIp : Bytes
  dstIp : Bytes
  srcCountry : Bytes
  dstCountry : Bytes
  srcEntity : Bytes
  dstEntity : Bytes
  bytes : Nat
  deriving DecidableEq, Repr

/-- What the sessions share. `announcements` is the history of the registry. -/
structure Shared where
  registry : ClientRegistry := {}
  channels : ClientId → Option SessionId := fun _ => none
  packets : List Packet := []
  announcements : ClientRegistry.History := []

/-! ## Lines -/

/-- The client that the session's copy of the registry names for a LAN address. -/
def Session.attributed (se : Session) (ip : Bytes) : Option ClientId :=
  if isLanIP ip then se.localRegSnap ip else none

def Session.entityForIp (se : Session) (resolver : Option Resolver) (ip : Bytes) : Bytes :=
  if isLanIP ip then
    (se.attributed ip).getD (ascii "@[" ++ se.localExternalIp ++ ascii "]:" ++ ip)
  else match resolver with
    | some r => r.entityFor ip
    | none => kUnknownEntity ++ SP :: ip

/-- What a line asks for once it has passed its checks. -/
inductive Request
  | external (extIp : Bytes)
  | address (ip : Bytes)
  | data (m : PacketMeta)
  | ignored
  deriving DecidableEq, Repr

def Session.readLine (config : ServerConfig) (se : Session) (ev : LineEvent) : Request :=
  match stripPrefix kExtIPLinePrefix ev.text with
  | some body =>
    let extIp := trimAddress body
    if ev.nowSec - se.lastXLineSec ≥ kAnnounceRateLimitSec ∧ validExtIp extIp then .external extIp
    else .ignored
  | none => match stripPrefix kAddrLinePrefix ev.text with
    | some body =>
      let ip := trimAddress body
      if se.announcedCount < kMaxAnnounceAddressesPerSession ∧ ip ≠ [] ∧
          ip.length ≤ config.max_ip_len ∧ isLanIP ip then .address ip
      else .ignored
    | none => match stripPrefix kDataLinePrefix ev.text with
      | some body =>
        ((parseDataLine body config.max_iface_len config.max_ip_len).map Request.data).getD .ignored
      | none => .ignored

/-- The address of the connection, where it is known. -/
def Session.connAddrs (se : Session) : List Bytes :=
  if se.clientIp = [] then [] else [se.clientIp]

/-- The D-lines of this second, the present one included. -/
def Session.dLineCount (se : Session) (nowSec : Int) : Nat :=
  (if nowSec ≠ se.lastDLineSecond then 0 else se.dLineCountThisSecond) + 1

def Session.packet (se : Session) (resolver : Option Resolver) (m : PacketMeta) : Packet where
  clientId := se.clientId
  iface := m.iface
  srcIp := m.srcIp
  dstIp := m.dstIp
  srcCountry := resolver.elim kUnknownCountry (·.countryFor m.srcIp)
  dstCountry := resolver.elim kUnknownCountry (·.countryFor m.dstIp)
  srcEntity := se.entityForIp resolver m.srcIp
  dstEntity := se.entityForIp resolver m.dstIp
  bytes := m.bytes

/-! ## The thread of a session -/

inductive SessionAction
  /-- Writing the result of the authentication fails. -/
  | abort
  | addChannel
  | registerIp
  /-- The first copy of the registry. -/
  | startLoop
  | line (ev : LineEvent)
  /-- The second critical section of an X-line. -/
  | takeSnapshot
  /-- The copy of the registry that is taken every five seconds. -/
  | refresh
  /-- The loop ends, or is not begun because the socket timeout cannot be set. -/
  | leave
  | removeChannel
  | removeClient
  | destroyStream
  | freeConn

/-- The phase that an action leads to; `none` where the thread does not take it. -/
def Session.enters (config : ServerConfig) (se : Session) : SessionAction → Option Phase
  | .abort => if se.phase = .authenticated then some .cleaned else none
  | .addChannel => match se.transport, se.phase with
    | .tcp, .authenticated => some .half
    | .websocket, .half => some .ready
    | _, _ => none
  | .registerIp => match se.transport, se.phase with
    | .tcp, .half => some .ready
    | .websocket, .authenticated => some .half
    | _, _ => none
  | .startLoop => if se.phase = .ready then some .data else none
  | .line ev =>
    if se.phase = .data then
      match se.readLine config ev with
      | .external extIp => some (.announced extIp)
      | _ => some .data
    else none
  | .takeSnapshot => match se.phase with
    | .announced _ => some .data
    | _ => none
  | .refresh => if se.phase = .data then some .data else none
  | .leave => if se.phase = .ready ∨ se.phase = .data then some .leaving else none
  | .removeChannel => if se.phase = .leaving then some .unhooked else none
  | .removeClient => if se.phase = .unhooked then some .cleaned else none
  | .destroyStream =>
    if se.transport = .websocket ∧ se.phase = .cleaned then some .streamGone else none
  | .freeConn => match se.transport, se.phase with
    | .tcp, .cleaned => some .freed
    | .websocket, .streamGone => some .freed
    | _, _ => none

/-- What a line does, `i` being the session. -/
def Session.handle (config : ServerConfig) (sh : Shared) (se : Session) (ev : LineEvent) :
    Shared × Session :=
  match se.readLine config ev with
  | .external extIp =>
    ({ sh with
        registry := sh.registry.announceExternal se.clientId se.clientIp extIp
        announcements := sh.announcements ++ [.joins se.clientId (ClientRegistry.siteOfExt (some extIp))]
          ++ ClientRegistry.holds se.clientId se.clientIp },
      { se with
        lastXLineSec := ev.nowSec
        addrs := se.connAddrs })
  | .address ip =>
    ({ sh with
        registry := sh.registry.setIp ip se.clientId
        announcements := sh.announcements ++ ClientRegistry.holds se.clientId ip },
      { se with
        localRegSnap := Function.update se.localRegSnap ip (some se.clientId)
        announcedCount := se.announcedCount + 1
        addrs := ip :: se.addrs })
  | .data m =>
    let se' := { se with
      lastDLineSecond := ev.nowSec
      dLineCountThisSecond := se.dLineCount ev.nowSec }
    if se.dLineCount ev.nowSec > config.max_d_lines_per_second_per_connection then (sh, se')
    else ({ sh with packets := sh.packets ++ [se.packet ev.resolver m] }, se')
  | .ignored => (sh, se)

/-- What an action does to the shared tables and the locals; the phase is set by `enters`. -/
def Session.effect (config : ServerConfig) (i : SessionId) (sh : Shared) (se : Session) :
    SessionAction → Shared × Session
  | .addChannel =>
    ({ sh with channels := Function.update sh.channels se.clientId (some i) },
      { se with channelAdded := true })
  | .registerIp =>
    ({ sh with
        registry := sh.registry.setIp se.clientIp se.clientId
        announcements := sh.announcements ++ ClientRegistry.holds se.clientId se.clientIp },
      { se with addrs := se.connAddrs })
  | .startLoop => (sh, { se with localRegSnap := sh.registry.ipToClientId })
  | .line ev => se.handle config sh ev
  | .takeSnapshot => match se.phase with
    | .announced extIp =>
      (sh, { se with
        announcedCount := 0
        localRegSnap := sh.registry.ipToClientId
        localExternalIp := extIp })
    | _ => (sh, se)
  | .refresh =>
    (sh, { se with
      localRegSnap := sh.registry.ipToClientId
      localExternalIp :=
        (sh.registry.clientToExternalIp se.clientId).getD se.localExternalIp })
  | .removeChannel => ({ sh with channels := Function.update sh.channels se.clientId none }, se)
  | .removeClient =>
    ({ sh with
        registry := sh.registry.removeClient se.clientId
        announcements := sh.announcements ++ [.joins se.clientId none] }, se)
  | .abort | .leave | .destroyStream | .freeConn => (sh, se)

/-- The session once the action has led it to phase `p`. -/
def Session.moved (config : ServerConfig) (i : SessionId) (sh : Shared) (se : Session)
    (a : SessionAction) (p : Phase) : Session :=
  { (se.effect config i sh a).2 with phase := p }

/-! ## The server -/

/-- What a channel's `writeCtrlLine` has captured still exists: for TLS the `SSL` object and
the descriptor, for WebSocket also the stream. -/
def Session.open (se : Session) : Bool :=
  se.phase ≠ .freed && se.phase ≠ .streamGone

/-- A control line written through the channel of a session. -/
structure CtrlWrite where
  session : SessionId
  wasOpen : Bool
  deriving DecidableEq, Repr

/-- The sessions in the order of their authentication, and the admin handlers that have
looked up a channel and not yet written through it, by the session of the channel. -/
structure State where
  shared : Shared := {}
  sessions : List Session := []
  handlers : List SessionId := []
  writes : List CtrlWrite := []

inductive Action
  | authenticate (clientId : ClientId) (clientIp : Bytes) (transport : Transport)
  | session (i : SessionId) (a : SessionAction)
  /-- `ctrl_channels->get(clientId)` -/
  | lookup (clientId : ClientId)
  /-- `ch->writeCtrlLine(…)` -/
  | write (i : SessionId)

def step (config : ServerConfig) (s : State) : Action → Option State
  | .authenticate clientId clientIp transport =>
    if h : clientId = [] then none
    else some { s with sessions := s.sessions ++
      [{ clientId := clientId, clientId_ne := h, clientIp := clientIp, transport := transport }] }
  | .session i a => match s.sessions[i]? with
    | none => none
    | some se => match se.enters config a with
      | none => none
      | some p =>
        some { s with
          shared := (se.effect config i s.shared a).1
          sessions := s.sessions.set i (se.moved config i s.shared a p) }
  | .lookup clientId => match s.shared.channels clientId with
    | none => some s
    | some i => some { s with handlers := i :: s.handlers }
  | .write i =>
    if i ∈ s.handlers then
      some { s with
        handlers := s.handlers.erase i
        writes := s.writes ++ [⟨i, (s.sessions[i]?).any (·.open)⟩] }
    else none

/-- A TLS session comes up. -/
def comesUp (i : SessionId) (clientId : ClientId) (clientIp : Bytes) : List Action :=
  [.authenticate clientId clientIp .tcp, .session i .addChannel, .session i .registerIp,
    .session i .startLoop]

/-- A TLS session ends. -/
def goesDown (i : SessionId) : List Action :=
  [.session i .leave, .session i .removeChannel, .session i .removeClient, .session i .freeConn]

/-- Two ids of 64 hexadecimal digits. -/
def clientA : ClientId := List.replicate 64 97
def clientB : ClientId := List.replicate 64 98

/-! ## What a step changes -/

variable {config : ServerConfig}

theorem step_authenticate_eq_some {s s' : State} {c : ClientId} {ip : Bytes} {t : Transport} :
    step config s (.authenticate c ip t) = some s' ↔
      ∃ h : c ≠ [], s' = { s with sessions := s.sessions ++
        [{ clientId := c, clientId_ne := h, clientIp := ip, transport := t }] } := by
  simp only [step]
  split
  · rename_i h
    simp [h]
  · rename_i h
    simp [h, eq_comm]

theorem step_session_eq_some {s s' : State} {i : SessionId} {a : SessionAction} :
    step config s (.session i a) = some s' ↔
      ∃ se p, s.sessions[i]? = some se ∧ se.enters config a = some p ∧
        s' = { s with
          shared := (se.effect config i s.shared a).1
          sessions := s.sessions.set i (se.moved config i s.shared a p) } := by
  simp only [step]
  cases s.sessions[i]? with
  | none => simp
  | some se =>
    cases hp : se.enters config a with
    | none => simp [hp]
    | some p => simp [hp, eq_comm]

theorem step_lookup_eq_some {s s' : State} {c : ClientId} :
    step config s (.lookup c) = some s' ↔
      s' = { s with handlers := (s.shared.channels c).toList ++ s.handlers } := by
  simp only [step]
  cases s.shared.channels c with
  | none => exact eq_comm.trans (by simp)
  | some i => simp [eq_comm]

theorem step_write_eq_some {s s' : State} {i : SessionId} :
    step config s (.write i) = some s' ↔ i ∈ s.handlers ∧
      s' = { s with
        handlers := s.handlers.erase i
        writes := s.writes ++ [⟨i, (s.sessions[i]?).any (·.open)⟩] } := by
  simp only [step]
  split <;> simp [*, eq_comm]

theorem getElem?_set_self {l : List Session} {i : Nat} {a b : Session} (ha : l[i]? = some a) :
    (l.set i b)[i]? = some b :=
  List.getElem?_set_self (List.getElem?_eq_some_iff.mp ha).1

theorem getElem?_set_cases {l : List Session} {i j : Nat} {a b c : Session} (ha : l[i]? = some a)
    (h : (l.set i b)[j]? = some c) : (j = i ∧ c = b) ∨ (j ≠ i ∧ l[j]? = some c) := by
  by_cases hji : j = i
  · subst hji
    rw [getElem?_set_self ha, Option.some.injEq] at h
    exact .inl ⟨rfl, h.symm⟩
  · rw [List.getElem?_set_ne (Ne.symm hji)] at h
    exact .inr ⟨hji, h⟩

/-- The sessions after one more has authenticated. -/
theorem getElem?_snoc_eq_some {l : List Session} {j : Nat} {b c : Session} :
    (l ++ [b])[j]? = some c ↔ l[j]? = some c ∨ (j = l.length ∧ c = b) := by
  by_cases h : j < l.length
  · rw [List.getElem?_append_left h]
    simp [Nat.ne_of_lt h]
  · rw [List.getElem?_append_right (by omega), List.getElem?_eq_none (by omega : l.length ≤ j)]
    by_cases he : j = l.length
    · subst he
      simp [eq_comm]
    · rw [List.getElem?_eq_none (by simp only [List.length_singleton]; omega)]
      simp [he]

variable {sh : Shared} {se : Session} {i : SessionId} {a : SessionAction} {p : Phase}

@[simp] theorem phase_moved : (se.moved config i sh a p).phase = p := rfl

/-- The identity of a session does not change. -/
private theorem effect_ident : (se.effect config i sh a).2.clientId = se.clientId ∧
    (se.effect config i sh a).2.clientIp = se.clientIp ∧
    (se.effect config i sh a).2.transport = se.transport := by
  cases a with
  | line ev =>
    simp only [Session.effect, Session.handle]
    split
    · exact ⟨rfl, rfl, rfl⟩
    · exact ⟨rfl, rfl, rfl⟩
    · split <;> exact ⟨rfl, rfl, rfl⟩
    · exact ⟨rfl, rfl, rfl⟩
  | takeSnapshot =>
    simp only [Session.effect]
    split <;> exact ⟨rfl, rfl, rfl⟩
  | _ => exact ⟨rfl, rfl, rfl⟩

@[simp] theorem clientId_moved : (se.moved config i sh a p).clientId = se.clientId :=
  effect_ident.1

@[simp] theorem transport_moved : (se.moved config i sh a p).transport = se.transport :=
  effect_ident.2.2

@[simp] theorem connAddrs_moved : (se.moved config i sh a p).connAddrs = se.connAddrs := by
  have h : (se.moved config i sh a p).clientIp = se.clientIp := effect_ident.2.1
  simp [Session.connAddrs, h]

theorem mem_connAddrs {ip : Bytes} :
    ip ∈ se.connAddrs ↔ se.clientIp ≠ [] ∧ ip = se.clientIp := by
  by_cases h : se.clientIp = [] <;> simp [Session.connAddrs, h]

/-- A channel entry is written by `addChannel` and erased by `removeChannel`. -/
theorem channels_effect (c : ClientId) : (se.effect config i sh a).1.channels c =
    match a with
    | .addChannel => if c = se.clientId then some i else sh.channels c
    | .removeChannel => if c = se.clientId then none else sh.channels c
    | _ => sh.channels c := by
  cases a with
  | line ev =>
    simp only [Session.effect, Session.handle]
    split
    · rfl
    · rfl
    · split <;> rfl
    · rfl
  | takeSnapshot =>
    simp only [Session.effect]
    split <;> rfl
  | addChannel => simp [Session.effect, Function.update_apply]
  | removeChannel => simp [Session.effect, Function.update_apply]
  | _ => rfl

theorem channelAdded_moved : (se.moved config i sh a p).channelAdded =
    match a with
    | .addChannel => true
    | _ => se.channelAdded := by
  cases a with
  | line ev =>
    simp only [Session.moved, Session.effect, Session.handle]
    split
    · rfl
    · rfl
    · split <;> rfl
    · rfl
  | takeSnapshot =>
    simp only [Session.moved, Session.effect]
    split <;> rfl
  | _ => rfl

theorem lastXLineSec_moved : (se.moved config i sh a p).lastXLineSec =
    match a with
    | .line ev => match se.readLine config ev with
      | .external _ => ev.nowSec
      | _ => se.lastXLineSec
    | _ => se.lastXLineSec := by
  cases a with
  | line ev =>
    simp only [Session.moved, Session.effect, Session.handle]
    cases se.readLine config ev with
    | data m => simp only; split <;> rfl
    | _ => rfl
  | takeSnapshot =>
    simp only [Session.moved, Session.effect]
    split <;> rfl
  | _ => rfl

theorem addrs_moved : (se.moved config i sh a p).addrs =
    match a with
    | .registerIp => se.connAddrs
    | .line ev => match se.readLine config ev with
      | .external _ => se.connAddrs
      | .address ip => ip :: se.addrs
      | _ => se.addrs
    | _ => se.addrs := by
  cases a with
  | line ev =>
    simp only [Session.moved, Session.effect, Session.handle]
    cases se.readLine config ev with
    | data m => simp only; split <;> rfl
    | _ => rfl
  | takeSnapshot =>
    simp only [Session.moved, Session.effect]
    split <;> rfl
  | _ => rfl

theorem announcedCount_moved :
    (se.moved config i sh a p).announcedCount =
      match a with
      | .line ev => match se.readLine config ev with
        | .address _ => se.announcedCount + 1
        | _ => se.announcedCount
      | .takeSnapshot => match se.phase with
        | .announced _ => 0
        | _ => se.announcedCount
      | _ => se.announcedCount := by
  cases a with
  | line ev =>
    simp only [Session.moved, Session.effect, Session.handle]
    cases se.readLine config ev with
    | data m => simp only; split <;> rfl
    | _ => rfl
  | takeSnapshot =>
    simp only [Session.moved, Session.effect]
    cases hp : se.phase <;> simp only
  | _ => rfl

theorem registry_effect : (se.effect config i sh a).1.registry =
    match a with
    | .registerIp => sh.registry.setIp se.clientIp se.clientId
    | .line ev => match se.readLine config ev with
      | .external extIp => sh.registry.announceExternal se.clientId se.clientIp extIp
      | .address ip => sh.registry.setIp ip se.clientId
      | _ => sh.registry
    | .removeClient => sh.registry.removeClient se.clientId
    | _ => sh.registry := by
  cases a with
  | line ev =>
    simp only [Session.effect, Session.handle]
    cases se.readLine config ev with
    | data m => simp only; split <;> rfl
    | _ => rfl
  | takeSnapshot =>
    simp only [Session.effect]
    split <;> rfl
  | _ => rfl

/-- An X-line is accepted at most every thirty seconds. -/
theorem nowSec_of_external {ev : LineEvent} {extIp : Bytes}
    (h : se.readLine config ev = .external extIp) :
    se.lastXLineSec + kAnnounceRateLimitSec ≤ ev.nowSec := by
  simp only [Session.readLine] at h
  split at h
  · split at h
    · rename_i hc
      omega
    · cases h
  · split at h
    · split at h <;> cases h
    · split at h
      · rename_i body _
        cases hm : parseDataLine body config.max_iface_len config.max_ip_len <;>
          rw [hm] at h <;> cases h
      · cases h

/-- An A-line is accepted with a LAN address, which is not empty. -/
theorem isLanIP_of_address {ev : LineEvent} {ip : Bytes}
    (h : se.readLine config ev = .address ip) : ip ≠ [] ∧ isLanIP ip = true := by
  simp only [Session.readLine] at h
  split at h
  · split at h <;> cases h
  · split at h
    · split at h
      · rename_i hc
        cases h
        exact ⟨hc.2.1, hc.2.2.2⟩
      · cases h
    · split at h
      · rename_i body _
        cases hm : parseDataLine body config.max_iface_len config.max_ip_len <;>
          rw [hm] at h <;> cases h
      · cases h

/-! ## The registry and its history -/

theorem reflects_effect (hr : sh.registry.Reflects sh.announcements) :
    (se.effect config i sh a).1.registry.Reflects (se.effect config i sh a).1.announcements := by
  cases a with
  | registerIp => exact hr.setIp
  | removeClient => exact hr.removeClient se.clientId_ne
  | line ev =>
    simp only [Session.effect, Session.handle]
    split
    · exact hr.announceExternal _ _
    · exact hr.setIp
    · split <;> exact hr
    · exact hr
  | takeSnapshot =>
    simp only [Session.effect]
    split <;> exact hr
  | _ => exact hr

/-- **The registry is the flat table of what was announced.** -/
theorem reflects_of_run {as : List Action} {s : State} (hr : run (step config) {} as = some s) :
    s.shared.registry.Reflects s.shared.announcements := by
  refine invariant_of_run (I := fun s => s.shared.registry.Reflects s.shared.announcements)
    ?_ ClientRegistry.Reflects.init hr
  intro s a s' hi hs
  cases a with
  | authenticate c ip t =>
    obtain ⟨_, rfl⟩ := step_authenticate_eq_some.mp hs
    exact hi
  | session i a =>
    obtain ⟨se, p, _, _, rfl⟩ := step_session_eq_some.mp hs
    exact reflects_effect hi
  | lookup c =>
    cases step_lookup_eq_some.mp hs
    exact hi
  | write i =>
    obtain ⟨_, rfl⟩ := step_write_eq_some.mp hs
    exact hi

/-! ## The channels and their sessions -/

/-- From the first registration on, until the channel is removed. -/
def Phase.hooked : Phase → Bool
  | .half | .ready | .data | .announced _ | .leaving => true
  | _ => false

theorem hooked_enters (he : se.enters config a = some p) (hh : se.phase.hooked = true)
    (ha : a ≠ .removeChannel) : p.hooked = true := by
  cases a <;> simp only [Session.enters] at he <;> grind [Phase.hooked]

theorem hooked_addChannel (he : se.enters config .addChannel = some p) : p.hooked = true := by
  simp only [Session.enters] at he
  split at he <;> cases he <;> rfl

/-- A channel in the table is that of a session of its client that has not yet removed it. -/
def ChannelOwned (s : State) : Prop :=
  ∀ c i, s.shared.channels c = some i →
    ∃ se, s.sessions[i]? = some se ∧ se.clientId = c ∧ se.phase.hooked = true

private theorem channelOwned_session {s s' : State} {i : SessionId} {a : SessionAction}
    (hi : ChannelOwned s) (hs : step config s (.session i a) = some s') : ChannelOwned s' := by
  obtain ⟨se, p, hse, hp, rfl⟩ := step_session_eq_some.mp hs
  intro c j hc
  simp only [channels_effect] at hc
  by_cases hadd : a = .addChannel ∧ c = se.clientId
  · obtain ⟨rfl, rfl⟩ := hadd
    simp only [↓reduceIte, Option.some.injEq] at hc
    subst hc
    exact ⟨_, getElem?_set_self hse, by simp, hooked_addChannel hp⟩
  · -- an entry that was there before, of another client if this step removes one
    have hold : s.shared.channels c = some j ∧ (a = .removeChannel → c ≠ se.clientId) := by
      cases a <;> simp_all
    obtain ⟨sj, hsj, hid, hh⟩ := hi c j hold.1
    by_cases hji : j = i
    · subst hji
      rw [hse, Option.some.injEq] at hsj
      subst hsj
      exact ⟨_, getElem?_set_self hse, by simpa using hid,
        hooked_enters hp hh fun e => hold.2 e hid.symm⟩
    · exact ⟨sj, by rw [List.getElem?_set_ne (Ne.symm hji)]; exact hsj, hid, hh⟩

theorem channelOwned_step {s s' : State} {a : Action} (hi : ChannelOwned s)
    (hs : step config s a = some s') : ChannelOwned s' := by
  cases a with
  | authenticate c ip t =>
    obtain ⟨_, rfl⟩ := step_authenticate_eq_some.mp hs
    intro c j hc
    obtain ⟨se, hse, h⟩ := hi c j hc
    exact ⟨se, getElem?_snoc_eq_some.mpr (.inl hse), h⟩
  | session i a => exact channelOwned_session hi hs
  | lookup c =>
    cases step_lookup_eq_some.mp hs
    exact hi
  | write i =>
    obtain ⟨_, rfl⟩ := step_write_eq_some.mp hs
    exact hi

theorem channelOwned_init : ChannelOwned {} := by
  intro c i h
  cases h

end TrafficMonitor.Sessions
