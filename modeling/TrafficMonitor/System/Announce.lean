import TrafficMonitor.Server.Sessions

/-!
# Announce rounds

Client and server of one session, with the lines in flight between them. The client
collects its LAN addresses, asks an HTTP service for its external address and writes one
X-line and one A-line per address; the server reads the lines later, one at a time. Both
sides allow a round every thirty seconds, each on its own steady clock in whole seconds.

Proved here, for all phases of the two clocks and all delays:

* `announced_of_run`: after a round that the client counts as sent, the server maps to the
  client exactly the round's addresses and the connection's own, in every run in which
  every X-line is read thirty seconds after the last accepted one and every round fits the
  server's limits;
* `round_half_applied`: without that condition the server drops the X-line of a round and
  adds its A-lines to the addresses of the round before.
-/

namespace TrafficMonitor.Announce

open Bytes Inet Runs Sessions

/-! ## The external address -/

/-- The text after the first empty line. -/
def afterHeader : Bytes → Option Bytes
  | [] => none
  | s@(_ :: t) => match stripPrefix [CR, LF, CR, LF] s with
    | some body => some body
    | none => afterHeader t

def isBlank (c : UInt8) : Bool := c = CR || c = LF || c = SP || c = TAB

/-- `extractHttpBody`; a short first line is taken for a chunk size and dropped. -/
def extractHttpBody (response : Bytes) : Bytes :=
  match afterHeader response with
  | none => []
  | some body =>
    let trimmed := (trimRight isBlank body).dropWhile isBlank
    let unchunked := match Lines.cut LF trimmed with
      | some (size, rest) => if size.length ≤ 7 then rest else trimmed
      | none => trimmed
    trimRight isBlank unchunked

/-- `queryExternalIP`, from the service's response; `none` where there is no response. -/
def queryExternalIP (response : Option Bytes) : Bytes :=
  match response.map extractHttpBody with
  | none => []
  | some body =>
    if (inet_pton4 (cStr body)).isSome || (inet_pton6 (cStr body)).isSome then body else []

/-! ## A round -/

/-- An element of `collectLanAddresses()`: `inet_ntop` of an address in the LAN ranges. -/
structure LanAddress where
  text : Bytes
  isLan : isLanIP text = true
  plain : ∀ c ∈ text, isHexDigit c || c = DOT || c = COLON

/-- The external address as an X-line has it. -/
def extOf (extIp : Bytes) : Bytes := if extIp = [] then kExtIPNull else extIp

/-- The lines of `sendAnnounce`, without their line feeds. -/
def announceLines (lanAddrs : List LanAddress) (extIp : Bytes) : List Bytes :=
  (kExtIPLinePrefix ++ extOf extIp) :: lanAddrs.map fun ip => kAddrLinePrefix ++ ip.text

/-- A line in flight, as the server cuts it. The last line of a round that was written to
its end carries the addresses of the round. -/
structure Flight where
  text : Bytes
  round : Option (List Bytes) := none

/-- The lines that the server cuts from what the client has written. -/
def cutLines (written : List Bytes) : List Bytes := (Lines.split LF (Lines.join LF written)).1

def flightsOfRound (lanAddrs : List LanAddress) (extIp : Bytes) : List Flight :=
  let ls := cutLines (announceLines lanAddrs extIp)
  ls.dropLast.map (fun t => ⟨t, none⟩) ++
    ls.getLast?.toList.map fun t => ⟨t, some (lanAddrs.map (·.text))⟩

/-- A write fails after `k` lines. -/
def flightsOfPart (lanAddrs : List LanAddress) (extIp : Bytes) (k : Nat) : List Flight :=
  (cutLines ((announceLines lanAddrs extIp).take k)).map fun t => ⟨t, none⟩

/-! ## The system -/

/-- Where the sender thread stands. -/
inductive ClientPhase
  /-- The handshake is done, the first announce is not. -/
  | fresh
  | idle
  /-- The loop has read the clock and sees a network change. -/
  | awake (nowEpochSec : Int)
  /-- In `sendAnnounce`, waiting for the external address. -/
  | querying (lanAddrs : List LanAddress)
  | closed

/-- How far the two steady clocks are ahead of the common time, in nanoseconds. -/
structure Phases where
  client : Nat
  server : Nat

structure State where
  now : Nat
  client : ClientPhase := .fresh
  lastReannounceTime_ : Int := 0
  flight : List Flight := []
  shared : Shared
  session : Session
  /-- The addresses of the round that the server has processed last, until the next
  X-line. -/
  processed : Option (List Bytes) := none

inductive Action
  | tick (d : Nat)
  /-- The first announce of the connection. -/
  | connected (lanAddrs : List LanAddress)
  | wake
  | sleep
  | reannounce (lanAddrs : List LanAddress)
  /-- The service answers, and all lines are written. -/
  | send (response : Option Bytes)
  /-- The service answers, and a write fails after `k` lines. -/
  | sendFails (response : Option Bytes) (k : Nat)
  /-- A D-, H- or L-line. -/
  | sendOther (text : Bytes)
  /-- The server reads the next line. -/
  | deliver (resolver : Option Resolver)
  | takeSnapshot
  | refresh

def nsPerSec : Nat := 1000000000

def State.clientSec (ph : Phases) (s : State) : Int := ((s.now + ph.client) / nsPerSec : Nat)
def State.serverSec (ph : Phases) (s : State) : Int := ((s.now + ph.server) / nsPerSec : Nat)

/-- A line of the data phase that is no announce. -/
def IsOther (text : Bytes) : Prop :=
  LF ∉ text ∧ (stripPrefix kDataLinePrefix text).isSome ∨
  LF ∉ text ∧ (stripPrefix kHealthLinePrefix text).isSome ∨
  LF ∉ text ∧ (stripPrefix kLogRespLinePrefix text).isSome

instance (text : Bytes) : Decidable (IsOther text) := by unfold IsOther; infer_instance

/-- `sendAnnounce` begins: without a LAN address there is no round. -/
def State.collect (s : State) (lanAddrs : List LanAddress) : State :=
  { s with client := if lanAddrs.isEmpty then .idle else .querying lanAddrs }

/-- An action of the session's thread. -/
def State.sessionStep (config : ServerConfig) (s : State) (a : SessionAction) : Option State :=
  (s.session.enters config a).map fun p =>
    { s with
      shared := (s.session.effect config 0 s.shared a).1
      session := s.session.moved config 0 s.shared a p }

def isXLine (text : Bytes) : Bool := (stripPrefix kExtIPLinePrefix text).isSome

def step (config : ServerConfig) (ph : Phases) (s : State) : Action → Option State
  | .tick d => some { s with now := s.now + d }
  | .connected lanAddrs => match s.client with
    | .fresh => some (s.collect lanAddrs)
    | _ => none
  | .wake => match s.client with
    | .idle => some { s with client := .awake (s.clientSec ph) }
    | _ => none
  | .sleep => match s.client with
    | .awake _ => some { s with client := .idle }
    | _ => none
  | .reannounce lanAddrs => match s.client with
    | .awake nowEpochSec =>
      if nowEpochSec - s.lastReannounceTime_ ≥ kAnnounceRateLimitSec then
        some ({ s with lastReannounceTime_ := nowEpochSec }.collect lanAddrs)
      else none
    | _ => none
  | .send response => match s.client with
    | .querying lanAddrs =>
      some { s with
        client := .idle
        lastReannounceTime_ := s.clientSec ph
        flight := s.flight ++ flightsOfRound lanAddrs (queryExternalIP response) }
    | _ => none
  | .sendFails response k => match s.client with
    | .querying lanAddrs =>
      some { s with
        client := .closed
        flight := s.flight ++ flightsOfPart lanAddrs (queryExternalIP response) k }
    | _ => none
  | .sendOther text => match s.client with
    | .idle | .awake _ =>
      if IsOther text then some { s with flight := s.flight ++ [⟨text, none⟩] } else none
    | _ => none
  | .deliver resolver => match s.flight with
    | [] => none
    | f :: rest =>
      { s with
        flight := rest
        processed := if isXLine f.text then none else f.round.or s.processed }.sessionStep config
          (.line ⟨s.serverSec ph, resolver, f.text⟩)
  | .takeSnapshot => s.sessionStep config .takeSnapshot
  | .refresh => s.sessionStep config .refresh

/-- A connection of the client that has just authenticated and registered. -/
def start (now : Nat) (shared : Shared) (clientId : ClientId) (h : clientId ≠ [])
    (clientIp : Bytes) : State where
  now := now
  shared := { shared with registry := shared.registry.setIp clientIp clientId }
  session := { clientId := clientId, clientId_ne := h, clientIp := clientIp, transport := .tcp,
               phase := .data, channelAdded := true,
               localRegSnap := (shared.registry.setIp clientIp clientId).ipToClientId }

/-- The server maps to the client the given addresses and that of the connection. -/
def State.Maps (s : State) (addrs : List Bytes) : Prop :=
  ∀ ip, s.shared.registry.ipToClientId ip = some s.session.clientId ↔
    ip ∈ addrs ∨ ip ∈ s.session.connAddrs

/-- After a round, the server maps exactly the round's addresses to the client. -/
def Agrees (s : State) : Prop := ∀ addrs, s.processed = some addrs → s.Maps addrs

/-- The limits that the server puts on a round. -/
def RoundFits (config : ServerConfig) (lanAddrs : List LanAddress) (extIp : Bytes) : Prop :=
  lanAddrs.length ≤ kMaxAnnounceAddressesPerSession ∧
    (∀ ip ∈ lanAddrs, ip.text.length ≤ config.max_ip_len) ∧ LF ∉ extIp

instance (config : ServerConfig) (lanAddrs : List LanAddress) (extIp : Bytes) :
    Decidable (RoundFits config lanAddrs extIp) := by
  unfold RoundFits; infer_instance

/-- Every round that is sent fits, and every X-line is read at least thirty seconds, on the
server's clock, after the last one that was accepted. -/
def InTime (config : ServerConfig) (ph : Phases) (s : State) : Action → Prop
  | .send response | .sendFails response _ => match s.client with
    | .querying lanAddrs => RoundFits config lanAddrs (queryExternalIP response)
    | _ => True
  | .deliver _ => match s.flight with
    | [] => True
    | f :: _ => isXLine f.text → s.serverSec ph - s.session.lastXLineSec ≥ kAnnounceRateLimitSec
  | _ => True

/-! ## What the client writes -/

/-- `extractHttpBody` leaves no blank at the end. -/
theorem trimAddress_trimRight (s : Bytes) :
    trimAddress (trimRight isBlank s) = trimRight isBlank s := by
  refine trimRight_of_last fun hl => ?_
  have h := List.rdropWhile_last_not isBlank s hl
  simp only [isBlank, Bool.or_eq_true, decide_eq_true_eq, not_or] at h
  obtain ⟨⟨⟨hcr, _⟩, hsp⟩, _⟩ := h
  have : (trimRight isBlank s).getLast hl ≠ CR ∧ (trimRight isBlank s).getLast hl ≠ SP := ⟨hcr, hsp⟩
  simp [this.1, this.2]

theorem trimAddress_extractHttpBody (response : Bytes) :
    trimAddress (extractHttpBody response) = extractHttpBody response := by
  unfold extractHttpBody
  split
  · rfl
  · exact trimAddress_trimRight _

theorem trimAddress_queryExternalIP (response : Option Bytes) :
    trimAddress (queryExternalIP response) = queryExternalIP response := by
  cases response with
  | none => rfl
  | some response =>
    simp only [queryExternalIP, Option.map_some]
    split
    · exact trimAddress_extractHttpBody response
    · rfl

theorem validExtIp_queryExternalIP {response : Option Bytes} (h : queryExternalIP response ≠ []) :
    validExtIp (queryExternalIP response) = true := by
  cases response with
  | none => exact absurd rfl h
  | some response =>
    simp only [queryExternalIP, Option.map_some] at h ⊢
    split
    · rename_i hv
      rw [validExtIp, Bool.or_assoc, hv, Bool.or_true]
    · rename_i hv
      simp [hv] at h

theorem extOf_accepted (response : Option Bytes) :
    validExtIp (extOf (queryExternalIP response)) = true ∧
      trimAddress (extOf (queryExternalIP response)) = extOf (queryExternalIP response) := by
  unfold extOf
  split
  · exact ⟨by decide, by decide⟩
  · rename_i h
    exact ⟨validExtIp_queryExternalIP h, trimAddress_queryExternalIP response⟩

theorem LanAddress.text_ne (ip : LanAddress) : ip.text ≠ [] := by
  intro h
  have := ip.isLan
  rw [h] at this
  revert this
  decide

/-- No byte of an address is cut away or cuts a line. -/
theorem LanAddress.plain_ne (ip : LanAddress) {c : UInt8} (h : c ∈ ip.text) :
    c ≠ CR ∧ c ≠ SP ∧ c ≠ LF := by
  have hp := ip.plain c h
  refine ⟨?_, ?_, ?_⟩ <;> rintro rfl <;> revert hp <;> decide

theorem LanAddress.trimAddress_text (ip : LanAddress) : trimAddress ip.text = ip.text := by
  refine trimRight_of_last fun hl => ?_
  have := ip.plain_ne (List.getLast_mem hl)
  simp [this.1, this.2.1]

theorem LF_not_mem_announceLines {lanAddrs : List LanAddress} {extIp : Bytes} (h : LF ∉ extIp) :
    ∀ l ∈ announceLines lanAddrs extIp, LF ∉ l := by
  have hx : LF ∉ kExtIPLinePrefix := by decide
  have ha : LF ∉ kAddrLinePrefix := by decide
  have hn : LF ∉ kExtIPNull := by decide
  intro l hl
  rcases List.mem_cons.mp hl with rfl | hl
  · rw [extOf]
    split <;> simp_all
  · obtain ⟨ip, _, rfl⟩ := List.mem_map.mp hl
    simp only [List.mem_append, ha, false_or]
    exact fun hm => (ip.plain_ne hm).2.2 rfl

theorem cutLines_of_plain {ls : List Bytes} (h : ∀ l ∈ ls, LF ∉ l) : cutLines ls = ls := by
  simp [cutLines, Lines.split_join LF ls h]

/-! ## The lines in flight -/

/-- The lines in flight follow the protocol: `ds` is what the server has read of a round,
`none` between two rounds. -/
inductive Rounds (config : ServerConfig) :
    Option (List Bytes) → List Flight → Option (List Bytes) → Prop
  | nil (d) : Rounds config d [] d
  | other {text fl e} (h : IsOther text) (hr : Rounds config none fl e) :
      Rounds config none (⟨text, none⟩ :: fl) e
  | ext {extIp fl e} (hv : validExtIp extIp = true) (ht : trimAddress extIp = extIp)
      (hr : Rounds config (some []) fl e) :
      Rounds config none (⟨kExtIPLinePrefix ++ extIp, none⟩ :: fl) e
  | addr {ds fl e} {ip : LanAddress} (hl : ip.text.length ≤ config.max_ip_len)
      (hd : ds.length < kMaxAnnounceAddressesPerSession)
      (hr : Rounds config (some (ds ++ [ip.text])) fl e) :
      Rounds config (some ds) (⟨kAddrLinePrefix ++ ip.text, none⟩ :: fl) e
  | last {ds fl e} {ip : LanAddress} (hl : ip.text.length ≤ config.max_ip_len)
      (hd : ds.length < kMaxAnnounceAddressesPerSession) (hr : Rounds config none fl e) :
      Rounds config (some ds) (⟨kAddrLinePrefix ++ ip.text, some (ds ++ [ip.text])⟩ :: fl) e

variable {config : ServerConfig} {ph : Phases}

theorem rounds_append {d e f : Option (List Bytes)} {fl gl : List Flight}
    (h : Rounds config d fl e) (hg : Rounds config e gl f) : Rounds config d (fl ++ gl) f := by
  induction h with
  | nil d => exact hg
  | other h _ ih => exact .other h (ih hg)
  | ext hv ht _ ih => exact .ext hv ht (ih hg)
  | addr hl hd _ ih => exact .addr hl hd (ih hg)
  | last hl hd _ ih => exact .last hl hd (ih hg)

/-- The A-lines of a round of which `ds` has been read, to its end. -/
theorem rounds_addrs (ds : List Bytes) {ips : List LanAddress} (hne : ips ≠ [])
    (hlen : ds.length + ips.length ≤ kMaxAnnounceAddressesPerSession)
    (hl : ∀ ip ∈ ips, ip.text.length ≤ config.max_ip_len) :
    Rounds config (some ds)
      ((ips.map fun ip => kAddrLinePrefix ++ ip.text).dropLast.map (fun t => ⟨t, none⟩) ++
        (ips.map fun ip => kAddrLinePrefix ++ ip.text).getLast?.toList.map
          fun t => ⟨t, some (ds ++ ips.map (·.text))⟩) none := by
  induction ips generalizing ds with
  | nil => exact absurd rfl hne
  | cons ip ips ih =>
    have hip := hl ip (by simp)
    cases ips with
    | nil => exact .last hip (Nat.lt_of_succ_le (by simpa using hlen)) (.nil none)
    | cons jp ips =>
      simp only [List.length_cons] at hlen
      have := ih (ds ++ [ip.text]) (by simp)
        (by simp only [List.length_append, List.length_cons, List.length_nil]; omega)
        fun q hq => hl q (by simp [hq])
      refine .addr hip (by omega) ?_
      simpa using this

/-- A round that is written to its end. -/
theorem rounds_of_round {lanAddrs : List LanAddress} {response : Option Bytes}
    (hne : lanAddrs ≠ []) (hf : RoundFits config lanAddrs (queryExternalIP response)) :
    Rounds config none (flightsOfRound lanAddrs (queryExternalIP response)) none := by
  obtain ⟨hlen, hl, hlf⟩ := hf
  have ha := extOf_accepted response
  unfold flightsOfRound
  rw [cutLines_of_plain (LF_not_mem_announceLines hlf)]
  obtain ⟨ip, ips, rfl⟩ := List.exists_cons_of_ne_nil hne
  have hr := rounds_addrs [] hne (by simpa using hlen) hl
  exact .ext ha.1 ha.2 (by simpa [announceLines] using hr)

theorem rounds_part_addrs (ds : List Bytes) {ips : List LanAddress} (k : Nat)
    (hlen : ds.length + ips.length ≤ kMaxAnnounceAddressesPerSession)
    (hl : ∀ ip ∈ ips, ip.text.length ≤ config.max_ip_len) :
    ∃ e, Rounds config (some ds)
      (((ips.map fun ip => kAddrLinePrefix ++ ip.text).take k).map fun t => ⟨t, none⟩) e := by
  induction ips generalizing ds k with
  | nil => exact ⟨some ds, by simpa using .nil _⟩
  | cons ip ips ih =>
    cases k with
    | zero => exact ⟨some ds, by simpa using .nil _⟩
    | succ k =>
      simp only [List.length_cons] at hlen
      obtain ⟨e, he⟩ := ih (ds ++ [ip.text]) k
        (by simp only [List.length_append, List.length_cons, List.length_nil]; omega)
        fun q hq => hl q (by simp [hq])
      exact ⟨e, .addr (hl ip (by simp)) (by omega) (by simpa using he)⟩

/-- A round of which a write fails. -/
theorem rounds_of_part {lanAddrs : List LanAddress} {response : Option Bytes} (k : Nat)
    (hf : RoundFits config lanAddrs (queryExternalIP response)) :
    ∃ e, Rounds config none (flightsOfPart lanAddrs (queryExternalIP response) k) e := by
  obtain ⟨hlen, hl, hlf⟩ := hf
  have ha := extOf_accepted response
  unfold flightsOfPart
  rw [cutLines_of_plain fun l hm => LF_not_mem_announceLines hlf l (List.mem_of_mem_take hm)]
  cases k with
  | zero => exact ⟨none, .nil none⟩
  | succ k =>
    obtain ⟨e, he⟩ := rounds_part_addrs [] k (by simpa using hlen) hl
    exact ⟨e, .ext ha.1 ha.2 (by simpa [announceLines] using he)⟩

/-! ## What the server makes of a line -/

section Server

variable {se : Session} {sh : Shared} {ev : LineEvent}

theorem readLine_other (h : IsOther ev.text) (extIp ip : Bytes) :
    se.readLine config ev ≠ .external extIp ∧ se.readLine config ev ≠ .address ip := by
  have hx : stripPrefix kExtIPLinePrefix ev.text = none ∧
      stripPrefix kAddrLinePrefix ev.text = none := by
    rcases h with ⟨_, h⟩ | ⟨_, h⟩ | ⟨_, h⟩ <;>
    · obtain ⟨t, ht⟩ := Option.isSome_iff_exists.mp h
      rw [stripPrefix_eq_some.mp ht]
      exact ⟨rfl, rfl⟩
  simp only [Session.readLine, hx.1, hx.2]
  split
  · rename_i body _
    cases parseDataLine body config.max_iface_len config.max_ip_len <;> simp
  · simp

theorem readLine_ext {extIp : Bytes} (h : ev.text = kExtIPLinePrefix ++ extIp)
    (hv : validExtIp extIp = true) (ht : trimAddress extIp = extIp)
    (hs : ev.nowSec - se.lastXLineSec ≥ kAnnounceRateLimitSec) :
    se.readLine config ev = .external extIp := by
  simp only [Session.readLine, h, stripPrefix_append, ht]
  exact if_pos ⟨hs, hv⟩

theorem readLine_addr {ip : LanAddress} (h : ev.text = kAddrLinePrefix ++ ip.text)
    (hl : ip.text.length ≤ config.max_ip_len)
    (hc : se.announcedCount < kMaxAnnounceAddressesPerSession) :
    se.readLine config ev = .address ip.text := by
  have hx : stripPrefix kExtIPLinePrefix (kAddrLinePrefix ++ ip.text) = none := rfl
  simp only [Session.readLine, h, hx, stripPrefix_append, ip.trimAddress_text]
  exact if_pos ⟨hc, ip.text_ne, hl, ip.isLan⟩

end Server

/-! ## What a step keeps -/

theorem sessionStep_eq_some {s s' : State} {a : SessionAction} :
    s.sessionStep config a = some s' ↔ ∃ p, s.session.enters config a = some p ∧
      s' = { s with
        shared := (s.session.effect config 0 s.shared a).1
        session := s.session.moved config 0 s.shared a p } := by
  simp only [State.sessionStep, Option.map_eq_some_iff]
  exact exists_congr fun p => and_congr_right fun _ => eq_comm

/-- Only X- and A-lines change what is mapped to the client, and the sequel counts on the
phase that the line leads to. -/
theorem maps_moved {s : State} {a : SessionAction} {p : Phase} {addrs : List Bytes}
    (hreg : (s.session.effect config 0 s.shared a).1.registry = s.shared.registry)
    (h : s.Maps addrs) :
    { s with
      shared := (s.session.effect config 0 s.shared a).1
      session := s.session.moved config 0 s.shared a p }.Maps addrs := by
  intro ip
  simpa only [hreg, clientId_moved, connAddrs_moved] using h ip

/-- An accepted X-line leaves the client the address of the connection only. -/
theorem ipToClientId_announceExternal (reg : ClientRegistry) (id : ClientId)
    (clientIp extIp ip : Bytes) :
    (reg.announceExternal id clientIp extIp).ipToClientId ip = some id ↔
      clientIp ≠ [] ∧ ip = clientIp := by
  have h : (reg.announceExternal id clientIp extIp).ipToClientId ip =
      if clientIp ≠ [] ∧ ip = clientIp then some id
      else Scoped.withdraw id reg.ipToClientId ip := ClientRegistry.ipToClientId_setIp ip
  rw [h]
  by_cases hc : clientIp ≠ [] ∧ ip = clientIp
  · simp [hc]
  · simp [hc, Scoped.withdraw_eq_some]

theorem maps_of_external {s : State} {ev : LineEvent} {extIp : Bytes} {p : Phase}
    (h : s.session.readLine config ev = .external extIp) :
    { s with
      shared := (s.session.effect config 0 s.shared (.line ev)).1
      session := s.session.moved config 0 s.shared (.line ev) p }.Maps [] := by
  intro ip
  simp only [registry_effect, h, clientId_moved, connAddrs_moved, List.not_mem_nil, false_or,
    mem_connAddrs]
  exact ipToClientId_announceExternal _ _ _ _ _

theorem maps_of_address {s : State} {ev : LineEvent} {a : Bytes} {p : Phase} {addrs : List Bytes}
    (hr : s.session.readLine config ev = .address a) (h : s.Maps addrs) :
    { s with
      shared := (s.session.effect config 0 s.shared (.line ev)).1
      session := s.session.moved config 0 s.shared (.line ev) p }.Maps (addrs ++ [a]) := by
  intro ip
  have hne := (isLanIP_of_address hr).1
  simp only [registry_effect, hr, clientId_moved, connAddrs_moved,
    ClientRegistry.ipToClientId_setIp, List.mem_append, List.mem_singleton]
  by_cases hi : ip = a
  · simp [hi, hne]
  · simpa [hi] using h ip

/-- Where the server stands: `none` between two rounds, `some ds` when it has read the
X-line of a round and the addresses `ds`. -/
def Serving (s : State) : Option (List Bytes) → Prop
  | none => s.session.phase = .data ∧ Agrees s
  | some ds => s.processed = none ∧ s.Maps ds ∧
      (s.session.phase = .data ∧ s.session.announcedCount = ds.length ∨
        (∃ extIp, s.session.phase = .announced extIp) ∧ ds = [])

structure Invariant (config : ServerConfig) (s : State) : Prop where
  rounds : ∃ d e, Serving s d ∧ Rounds config d s.flight e ∧ (s.client ≠ .closed → e = none)
  collected : ∀ lanAddrs, s.client = .querying lanAddrs → lanAddrs ≠ []

/-- The session is ready for the next line, and the line is read at the server's time. -/
theorem deliver_eq_some {s s' : State} {resolver : Option Resolver} :
    step config ph s (.deliver resolver) = some s' ↔ ∃ f rest, s.flight = f :: rest ∧
      { s with
        flight := rest
        processed := if isXLine f.text then none else f.round.or s.processed }.sessionStep config
          (.line ⟨s.serverSec ph, resolver, f.text⟩) = some s' := by
  simp only [step]
  cases s.flight with
  | nil => simp
  | cons f rest => simp

private theorem enters_line {se : Session} {ev : LineEvent} {p : Phase}
    (h : se.enters config (.line ev) = some p) : se.phase = .data ∧
      ((∃ x, se.readLine config ev = .external x ∧ p = .announced x) ∨
       ((∀ x, se.readLine config ev ≠ .external x) ∧ p = .data)) := by
  simp only [Session.enters] at h
  split at h
  · rename_i hp
    refine ⟨hp, ?_⟩
    split at h
    · rename_i x hx
      cases h
      exact .inl ⟨x, hx, rfl⟩
    · rename_i hx
      cases h
      exact .inr ⟨fun x e => hx x e, rfl⟩
  · cases h

private theorem isXLine_ext (x : Bytes) : isXLine (kExtIPLinePrefix ++ x) = true := by
  simp [isXLine]

private theorem isXLine_addr (x : Bytes) : isXLine (kAddrLinePrefix ++ x) = false := rfl

private theorem isXLine_other {text : Bytes} (h : IsOther text) : isXLine text = false := by
  rcases h with ⟨_, h⟩ | ⟨_, h⟩ | ⟨_, h⟩ <;>
  · obtain ⟨t, ht⟩ := Option.isSome_iff_exists.mp h
    rw [stripPrefix_eq_some.mp ht]
    rfl

/-- One line more is read. -/
theorem rounds_deliver {s s' : State} {resolver : Option Resolver} {d e : Option (List Bytes)}
    (hs : Serving s d) (hr : Rounds config d s.flight e) (hc : InTime config ph s (.deliver resolver))
    (h : step config ph s (.deliver resolver) = some s') :
    ∃ d', Serving s' d' ∧ Rounds config d' s'.flight e := by
  obtain ⟨f, rest, hf, h⟩ := deliver_eq_some.mp h
  obtain ⟨p, hp, rfl⟩ := sessionStep_eq_some.mp h
  obtain ⟨hdata, hkind⟩ := enters_line hp
  simp only [InTime, hf] at hc
  rw [hf] at hr
  cases hr with
  | @other text fl _ ho hr =>
    have ho' : ∀ x ip, s.session.readLine config ⟨s.serverSec ph, resolver, text⟩ ≠ .external x ∧
        s.session.readLine config ⟨s.serverSec ph, resolver, text⟩ ≠ .address ip :=
      readLine_other ho
    have hreg : (s.session.effect config 0 s.shared
        (.line ⟨s.serverSec ph, resolver, text⟩)).1.registry = s.shared.registry := by
      simp only [registry_effect]
      split
      · exact absurd ‹_› (ho' _ []).1
      · exact absurd ‹_› (ho' [] _).2
      · rfl
    obtain ⟨x, hx, _⟩ | ⟨_, rfl⟩ := hkind
    · exact absurd hx (ho' x []).1
    · refine ⟨none, ⟨rfl, fun addrs h => ?_⟩, hr⟩
      rw [isXLine_other ho] at h
      exact maps_moved hreg (hs.2 addrs h)
  | @ext extIp fl _ hv ht hr =>
    have hx : s.session.readLine config
        ⟨s.serverSec ph, resolver, kExtIPLinePrefix ++ extIp⟩ = .external extIp :=
      readLine_ext rfl hv ht (hc (isXLine_ext extIp))
    obtain ⟨x, _, rfl⟩ | ⟨hn, _⟩ := hkind
    · refine ⟨some [], ⟨?_, maps_of_external hx, .inr ⟨⟨x, rfl⟩, rfl⟩⟩, hr⟩
      simp [isXLine_ext]
    · exact absurd hx (hn extIp)
  | @addr ds fl _ ip hl hd hr =>
    obtain ⟨hpr, hm, hph⟩ := hs
    obtain ⟨_, hcount⟩ | ⟨⟨x, hx⟩, _⟩ := hph
    · have ha : s.session.readLine config
          ⟨s.serverSec ph, resolver, kAddrLinePrefix ++ ip.text⟩ = .address ip.text :=
        readLine_addr rfl hl (hcount ▸ hd)
      obtain ⟨x, hx, _⟩ | ⟨_, rfl⟩ := hkind
      · rw [ha] at hx
        cases hx
      · refine ⟨some (ds ++ [ip.text]), ⟨?_, maps_of_address ha hm, .inl ⟨rfl, ?_⟩⟩, hr⟩
        · simpa [isXLine_addr] using hpr
        · simp [announcedCount_moved, ha, hcount]
    · rw [hx] at hdata
      cases hdata
  | @last ds fl _ ip hl hd hr =>
    obtain ⟨hpr, hm, hph⟩ := hs
    obtain ⟨_, hcount⟩ | ⟨⟨x, hx⟩, _⟩ := hph
    · have ha : s.session.readLine config
          ⟨s.serverSec ph, resolver, kAddrLinePrefix ++ ip.text⟩ = .address ip.text :=
        readLine_addr rfl hl (hcount ▸ hd)
      obtain ⟨x, hx, _⟩ | ⟨_, rfl⟩ := hkind
      · rw [ha] at hx
        cases hx
      · refine ⟨none, ⟨rfl, fun addrs h => ?_⟩, hr⟩
        rw [isXLine_addr] at h
        cases (show some (ds ++ [ip.text]) = some addrs from h)
        exact maps_of_address ha hm
    · rw [hx] at hdata
      cases hdata

/-- The second critical section of an X-line. -/
theorem rounds_takeSnapshot {s s' : State} {d : Option (List Bytes)} (hs : Serving s d)
    (h : step config ph s .takeSnapshot = some s') : Serving s' d := by
  obtain ⟨p, hp, rfl⟩ := sessionStep_eq_some.mp h
  have hreg : (s.session.effect config 0 s.shared .takeSnapshot).1.registry =
      s.shared.registry := registry_effect
  cases hphase : s.session.phase with
  | announced extIp =>
    simp only [Session.enters, hphase, Option.some.injEq] at hp
    subst hp
    cases d with
    | none =>
      have hdata := hs.1
      rw [hphase] at hdata
      cases hdata
    | some ds =>
      obtain ⟨hpr, hm, hd⟩ := hs
      refine ⟨hpr, maps_moved hreg hm, .inl ⟨rfl, ?_⟩⟩
      obtain ⟨hd, _⟩ | ⟨_, rfl⟩ := hd
      · rw [hphase] at hd
        cases hd
      · simp [announcedCount_moved, hphase]
  | _ => simp [Session.enters, hphase] at hp

theorem rounds_refresh {s s' : State} {d : Option (List Bytes)} (hs : Serving s d)
    (h : step config ph s .refresh = some s') : Serving s' d := by
  obtain ⟨p, hp, rfl⟩ := sessionStep_eq_some.mp h
  have hreg : (s.session.effect config 0 s.shared .refresh).1.registry =
      s.shared.registry := registry_effect
  obtain ⟨hphase, rfl⟩ : s.session.phase = .data ∧ p = .data := by
    simp only [Session.enters] at hp
    split at hp
    · cases hp
      exact ⟨‹_›, rfl⟩
    · cases hp
  cases d with
  | none => exact ⟨rfl, fun addrs h => maps_moved hreg (hs.2 addrs h)⟩
  | some ds =>
    obtain ⟨hpr, hm, hd⟩ := hs
    refine ⟨hpr, maps_moved hreg hm, .inl ⟨rfl, ?_⟩⟩
    obtain ⟨_, hc⟩ | ⟨⟨x, hx⟩, _⟩ := hd
    · simpa [announcedCount_moved] using hc
    · rw [hphase] at hx
      cases hx

/-- The client's own steps leave the server and the lines in flight alone. -/
private theorem invariant_of_client {s s' : State} (hi : Invariant config s)
    (hfl : s'.flight = s.flight) (hsh : s'.shared = s.shared) (hse : s'.session = s.session)
    (hpr : s'.processed = s.processed) (hcl : s.client = .closed → s'.client = .closed)
    (hq : ∀ lanAddrs, s'.client = .querying lanAddrs → lanAddrs ≠ []) : Invariant config s' := by
  refine ⟨?_, hq⟩
  obtain ⟨d, e, hs, hr, he⟩ := hi.rounds
  refine ⟨d, e, ?_, hfl ▸ hr, fun hc => he fun h => hc (hcl h)⟩
  cases d with
  | none =>
    refine ⟨hse ▸ hs.1, fun addrs h => ?_⟩
    have := hs.2 addrs (hpr ▸ h)
    unfold State.Maps at this ⊢
    rwa [hsh, hse]
  | some ds =>
    obtain ⟨hp, hm, hph⟩ := hs
    refine ⟨hpr ▸ hp, ?_, hse ▸ hph⟩
    unfold State.Maps at hm ⊢
    rwa [hsh, hse]

/-- More lines are written. -/
private theorem invariant_of_write {s : State} {c : ClientPhase} {n : Int} {fl : List Flight}
    {e' : Option (List Bytes)} (hi : Invariant config s) (ho : s.client ≠ .closed)
    (hr : Rounds config none fl e') (he : c ≠ .closed → e' = none)
    (hq : ∀ lanAddrs, c ≠ .querying lanAddrs) :
    Invariant config { s with client := c, lastReannounceTime_ := n, flight := s.flight ++ fl } := by
  refine ⟨?_, fun lanAddrs h => absurd h (hq lanAddrs)⟩
  obtain ⟨d, e, hs, hd, hn⟩ := hi.rounds
  cases hn ho
  exact ⟨d, e', by cases d <;> exact hs, rounds_append hd hr, he⟩

theorem collect_ne (s : State) (lanAddrs : List LanAddress) :
    ((s.collect lanAddrs).client = .idle) ∨
      (s.collect lanAddrs).client = .querying lanAddrs ∧ lanAddrs ≠ [] := by
  cases lanAddrs with
  | nil => exact .inl rfl
  | cons a as => exact .inr ⟨rfl, by simp⟩

private theorem invariant_collect {s : State} {lanAddrs : List LanAddress}
    (hi : Invariant config s) (ho : s.client ≠ .closed) :
    Invariant config (s.collect lanAddrs) := by
  refine invariant_of_client hi rfl rfl rfl rfl (fun h => absurd h ho) fun l h => ?_
  rcases collect_ne s lanAddrs with hc | ⟨hc, hne⟩
  · rw [hc] at h
    cases h
  · rw [hc] at h
    cases h
    exact hne

theorem invariant_step {s s' : State} {a : Action} (hi : Invariant config s)
    (hc : InTime config ph s a) (h : step config ph s a = some s') : Invariant config s' := by
  cases a with
  | tick d =>
    cases h
    exact invariant_of_client hi rfl rfl rfl rfl id hi.collected
  | connected lanAddrs =>
    simp only [step] at h
    split at h <;> cases h
    exact invariant_collect hi (by simp_all)
  | wake =>
    simp only [step] at h
    split at h <;> cases h
    exact invariant_of_client hi rfl rfl rfl rfl (by simp_all) (by simp)
  | sleep =>
    simp only [step] at h
    split at h <;> cases h
    exact invariant_of_client hi rfl rfl rfl rfl (by simp_all) (by simp)
  | reannounce lanAddrs =>
    simp only [step] at h
    split at h
    · rename_i n hcl
      split at h <;> cases h
      have hi' : Invariant config { s with lastReannounceTime_ := n } :=
        invariant_of_client hi rfl rfl rfl rfl id hi.collected
      exact invariant_collect hi' (by simp [hcl])
    · cases h
  | send response =>
    simp only [step] at h
    split at h
    · rename_i lanAddrs hcl
      cases h
      simp only [InTime, hcl] at hc
      exact invariant_of_write hi (by simp [hcl])
        (rounds_of_round (hi.collected lanAddrs hcl) hc) (fun _ => rfl) (by simp)
    · cases h
  | sendFails response k =>
    simp only [step] at h
    split at h
    · rename_i lanAddrs hcl
      cases h
      simp only [InTime, hcl] at hc
      obtain ⟨e, he⟩ := rounds_of_part k hc
      exact invariant_of_write hi (by simp [hcl]) he (fun h => absurd rfl h) (by simp)
    · cases h
  | sendOther text =>
    simp only [step] at h
    split at h
    · split at h <;> cases h
      exact invariant_of_write hi (by simp_all) (.other ‹_› (.nil none)) (fun _ => rfl) (by simp_all)
    · split at h <;> cases h
      exact invariant_of_write hi (by simp_all) (.other ‹_› (.nil none)) (fun _ => rfl) (by simp_all)
    · cases h
  | deliver resolver =>
    obtain ⟨d, e, hs, hr, he⟩ := hi.rounds
    obtain ⟨d', hs', hr'⟩ := rounds_deliver hs hr hc h
    obtain ⟨f, rest, hf, h⟩ := deliver_eq_some.mp h
    obtain ⟨p, hp, rfl⟩ := sessionStep_eq_some.mp h
    exact ⟨⟨d', e, hs', hr', he⟩, hi.collected⟩
  | takeSnapshot =>
    obtain ⟨d, e, hs, hr, he⟩ := hi.rounds
    have hs' := rounds_takeSnapshot hs h
    obtain ⟨p, hp, rfl⟩ := sessionStep_eq_some.mp h
    exact ⟨⟨d, e, hs', hr, he⟩, hi.collected⟩
  | refresh =>
    obtain ⟨d, e, hs, hr, he⟩ := hi.rounds
    have hs' := rounds_refresh hs h
    obtain ⟨p, hp, rfl⟩ := sessionStep_eq_some.mp h
    exact ⟨⟨d, e, hs', hr, he⟩, hi.collected⟩

theorem agrees_of_invariant {s : State} (hi : Invariant config s) : Agrees s := by
  obtain ⟨d, e, hs, _, _⟩ := hi.rounds
  intro addrs h
  cases d with
  | none => exact hs.2 addrs h
  | some ds =>
    rw [hs.1] at h
    cases h

theorem invariant_start (now : Nat) (shared : Shared) (clientId : ClientId) (h : clientId ≠ [])
    (clientIp : Bytes) : Invariant config (start now shared clientId h clientIp) where
  rounds := ⟨none, none, ⟨rfl, by simp [Agrees, start]⟩, .nil none, fun _ => rfl⟩
  collected := by simp [start]

/-- **Client and server agree on the addresses.** In every run in which all rounds fit and
all X-lines are read in time, the server maps to the client exactly the addresses of the
round that it has processed last, and the address of the connection. -/
theorem announced_of_run {now : Nat} {shared : Shared} {clientId : ClientId} {h : clientId ≠ []}
    {clientIp : Bytes} {as : List Action} {s : State}
    (hm : Meets (step config ph) (InTime config ph) (start now shared clientId h clientIp) as)
    (hr : run (step config ph) (start now shared clientId h clientIp) as = some s) : Agrees s :=
  agrees_of_invariant (invariant_of_meets (fun _ _ _ hi hc hs => invariant_step hi hc hs)
    (invariant_start now shared clientId h clientIp) hm hr)

/-! ## Two rounds -/

def firstLan : LanAddress := ⟨ascii "10.0.0.5", by decide, by decide⟩
def secondLan : LanAddress := ⟨ascii "10.0.0.9", by decide, by decide⟩

/-- A round that is read two seconds late and, after a gap, the X-line of the next one. -/
def upToSecondX (gap : Nat) : List Action :=
  [.connected [firstLan], .send none, .tick (2 * nsPerSec), .deliver none, .takeSnapshot,
    .deliver none, .tick gap, .wake, .reannounce [secondLan], .send none, .deliver none]

def droppedX : List Action := upToSecondX (28 * nsPerSec) ++ [.deliver none]
def acceptedX : List Action := upToSecondX (30 * nsPerSec) ++ [.takeSnapshot, .deliver none]

def hostA : State := start (100 * nsPerSec) {} clientA (by decide) (ascii "192.0.2.7")

/-- What the server holds for the first address after a round with the second one. -/
def firstAfter (s : State) : Option (List Bytes) × Option ClientId :=
  (s.processed, s.shared.registry.ipToClientId firstLan.text)

theorem not_agrees {s : State} (h : firstAfter s = (some [secondLan.text], some clientA))
    (hid : s.session.clientId = clientA) (hip : s.session.clientIp = ascii "192.0.2.7") :
    ¬ Agrees s := by
  intro ha
  obtain ⟨hp, hr⟩ := Prod.mk.inj h
  have hm := (ha _ hp firstLan.text).mp (hid ▸ hr)
  rw [mem_connAddrs, hip] at hm
  revert hm
  decide

/-- The client sends its second round thirty seconds after the first; the first was read two
seconds late, so the server drops the second X-line and adds its A-line. -/
theorem round_half_applied :
    ∃ s, run (step {} ⟨0, 0⟩) hostA droppedX = some s ∧ ¬ Agrees s := by
  have h : ((run (step {} ⟨0, 0⟩) hostA droppedX).map fun s =>
      decide (firstAfter s = (some [secondLan.text], some clientA) ∧
        s.session.clientId = clientA ∧ s.session.clientIp = ascii "192.0.2.7")) = some true := by
    decide +kernel
  obtain ⟨s, hs, hd⟩ := Option.map_eq_some_iff.mp h
  obtain ⟨hf, hid, hip⟩ := of_decide_eq_true hd
  exact ⟨s, hs, not_agrees hf hid hip⟩

instance (ph : Phases) (s : State) (a : Action) : Decidable (InTime config ph s a) := by
  unfold InTime
  split
  · split <;> infer_instance
  · split <;> infer_instance
  · split <;> infer_instance
  · infer_instance

/-- Two seconds later the second round is taken as a whole. -/
theorem announced_two_rounds :
    ∃ s, run (step {} ⟨0, 0⟩) hostA acceptedX = some s ∧
      s.processed = some [secondLan.text] ∧ Agrees s := by
  have h : ((run (step {} ⟨0, 0⟩) hostA acceptedX).map fun s =>
      decide (s.processed = some [secondLan.text])) = some true := by decide +kernel
  obtain ⟨s, hs, hd⟩ := Option.map_eq_some_iff.mp h
  exact ⟨s, hs, of_decide_eq_true hd, announced_of_run (by decide +kernel) hs⟩

end TrafficMonitor.Announce
