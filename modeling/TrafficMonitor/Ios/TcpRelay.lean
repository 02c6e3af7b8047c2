import TrafficMonitor.Basic.Bytes
import TrafficMonitor.Basic.Runs

/-!
# The TCP relay of the iOS client

`TCPRelay` ends the TCP connections of the device inside the tunnel: it answers the
segments of the client itself and moves their payload over one `NWConnection` for each
4-tuple. The methods of the actor do not suspend, so an action is one method call: a
packet, a sweep, or the task that a connection's callback has spawned.

The log records what is written towards the client and which flows the callbacks remove,
with the callback that did it. Proved here: what one call of `sendToClient` and of
`closeFlow` changes, and that every flow has its own connection (`keyed_step`).
-/

namespace TrafficMonitor.TcpRelay

open Runs

/-! ## Packets -/

structure FlowKey where
  srcIP : Bytes
  srcPort : UInt16
  dstIP : Bytes
  dstPort : UInt16
  deriving DecidableEq

/-- The fields of `TCPHeader` that the relay reads, with the payload. -/
structure TCPHeader where
  seq : UInt32
  isFIN : Bool := false
  isSYN : Bool := false
  isRST : Bool := false
  isACK : Bool := true
  payload : Bytes := []
  deriving DecidableEq

def flagsACK : UInt8 := 0x10
def flagsSYNACK : UInt8 := 0x12
def flagsPSHACK : UInt8 := 0x18
def flagsFINACK : UInt8 := 0x11
def flagsRSTACK : UInt8 := 0x14

/-- A packet towards the client. -/
structure Packet where
  key : FlowKey
  seq : UInt32
  ack : UInt32
  flags : UInt8
  payload : Bytes := []
  deriving DecidableEq

/-! ## The actor -/

abbrev ConnId := Nat

/-- What a connection has been given to send; `eof` is `isComplete: true`. -/
inductive Given
  | data (payload : Bytes)
  | eof
  deriving DecidableEq

/-- An `NWConnection`, as the relay uses it. -/
structure Conn where
  key : FlowKey
  given : List Given := []
  /-- A `receive` is outstanding. -/
  receiving : Bool := true
  failed : Bool := false
  cancelled : Bool := false
  deriving DecidableEq

structure FlowState where
  conn : ConnId
  clientSeqNext : UInt32
  serverSeqNext : UInt32
  clientFinSeen : Bool := false
  lastActivity : Nat
  deriving DecidableEq

/-- What a segment gives to the connection: its payload, and the first FIN the end. -/
def FlowState.outputs (st : FlowState) (tcp : TCPHeader) : List Given :=
  (if tcp.payload ≠ [] then [.data tcp.payload] else []) ++
    if tcp.isFIN && !st.clientFinSeen then [.eof] else []

/-- What a segment does to the flow; the payload is counted after the FIN. -/
def FlowState.advance (st : FlowState) (tcp : TCPHeader) (now : Nat) : FlowState :=
  let st := if tcp.isFIN && !st.clientFinSeen then
      { st with clientFinSeen := true, clientSeqNext := st.clientSeqNext + 1 }
    else st
  let st := if tcp.payload ≠ [] then
      { st with clientSeqNext := tcp.seq + UInt32.ofNat tcp.payload.length }
    else st
  { st with lastActivity := now }

/-- In seconds, as the clock of the model. -/
def idleSecs : Nat := 60

def FlowState.stale (now : Nat) (st : FlowState) : Bool := st.lastActivity + idleSecs < now

/-- Why the relay acts on a flow. -/
inductive Cause
  | packet
  /-- A callback of `receive`. -/
  | received (c : ConnId)
  /-- The state handler, for `.failed`. -/
  | failed (c : ConnId)
  deriving DecidableEq

/-- The log. `flow` is the connection of the flow that is acted on, `given` what it had been
given by then. -/
inductive Event
  | wrote (cause : Cause) (flow : ConnId) (given : List Given) (packet : Packet)
  | removed (cause : Cause) (flow : ConnId)
  deriving DecidableEq

/-- Tasks that callbacks have spawned. -/
inductive Task
  | onServerData (c : ConnId) (data : Bytes) (isComplete error : Bool)
  | sendRST (c : ConnId)
  | closeFlow (c : ConnId)
  deriving DecidableEq

structure State where
  now : Nat := 0
  flows : FlowKey → Option FlowState := fun _ => none
  conns : List Conn := []
  tasks : List Task := []
  log : List Event := []

namespace State

variable (s : State)

def setFlow (key : FlowKey) (st : Option FlowState) : State :=
  { s with flows := Function.update s.flows key st }

def modifyConn (c : ConnId) (f : Conn → Conn) : State := { s with conns := s.conns.modify c f }

def cancel (c : ConnId) : State := s.modifyConn c fun conn => { conn with cancelled := true }

/-- Calls of `conn.send(content:…)`, in order. -/
def connSend (c : ConnId) (outs : List Given) : State :=
  s.modifyConn c fun conn => { conn with given := conn.given ++ outs }

def givenTo (c : ConnId) : List Given := ((s.conns[c]?).map (·.given)).getD []

/-- `sendToClient` for the flow `st`; it acknowledges `clientSeqNext` wherever it is called. -/
def sendToClient (cause : Cause) (key : FlowKey) (st : FlowState) (seq : UInt32) (flags : UInt8)
    (payload : Bytes) : State :=
  { s with log := s.log ++ [.wrote cause st.conn (s.givenTo st.conn)
      ⟨key, seq, st.clientSeqNext, flags, payload⟩] }

def sendRST (cause : Cause) (key : FlowKey) : State :=
  match s.flows key with
  | none => s
  | some st => s.sendToClient cause key st st.serverSeqNext flagsRSTACK []

def closeFlow (cause : Cause) (key : FlowKey) : State :=
  match s.flows key with
  | none => s
  | some st =>
    { (s.cancel st.conn).setFlow key none with log := s.log ++ [.removed cause st.conn] }

/-- `flows[key]?.conn.cancel()` -/
def cancelFlow (key : FlowKey) : State :=
  match s.flows key with
  | none => s
  | some st => s.cancel st.conn

def openFlow (key : FlowKey) (clientISN serverISN : UInt32) : State :=
  let s := s.cancelFlow key
  let st : FlowState :=
    { conn := s.conns.length, clientSeqNext := clientISN + 1, serverSeqNext := serverISN + 1,
      lastActivity := s.now }
  let s : State := { s with conns := s.conns ++ [{ key := key }] }
  (s.setFlow key (some st)).sendToClient .packet key st serverISN flagsSYNACK []

/-- A segment of an open flow. -/
def handleSegment (key : FlowKey) (tcp : TCPHeader) (st : FlowState) : State :=
  let s := s.connSend st.conn (st.outputs tcp)
  let st := st.advance tcp s.now
  let s := s.setFlow key (some st)
  if tcp.payload ≠ [] ∨ tcp.isFIN then
    s.sendToClient .packet key st st.serverSeqNext flagsACK []
  else s

/-- `handlePacket`; `serverISN` is the random number that a SYN draws. -/
def handlePacket (key : FlowKey) (tcp : TCPHeader) (serverISN : UInt32) : State :=
  if tcp.isRST then s.closeFlow .packet key
  else if tcp.isSYN && !tcp.isACK then s.openFlow key tcp.seq serverISN
  else match s.flows key with
    | none => s
    | some st => s.handleSegment key tcp st

/-- Remove the flows of a kind and cancel their connections. -/
def removeFlows (p : FlowState → Bool) : State :=
  { s with
    flows := fun key => (s.flows key).filter fun st => !p st
    conns := s.conns.mapIdx fun c conn =>
      if (s.flows conn.key).any fun st => st.conn = c && p st then { conn with cancelled := true }
      else conn }

def sweep : State := s.removeFlows (FlowState.stale s.now)

def cancelAll : State := s.removeFlows fun _ => true

/-- The data of the server goes to the client as one packet. -/
def forwardToClient (c : ConnId) (key : FlowKey) (st : FlowState) (data : Bytes) : State :=
  (s.sendToClient (.received c) key st st.serverSeqNext flagsPSHACK data).setFlow key
    (some { st with
      serverSeqNext := st.serverSeqNext + UInt32.ofNat data.length, lastActivity := s.now })

/-- `onServerData`, the flow being open. -/
def onServerData (c : ConnId) (key : FlowKey) (st : FlowState) (data : Bytes)
    (isComplete error : Bool) : State :=
  let s := if data ≠ [] then s.forwardToClient c key st data else s
  if error then (s.sendRST (.received c) key).closeFlow (.received c) key
  else if isComplete then
    let s := match s.flows key with
      | none => s
      | some st => s.sendToClient (.received c) key st st.serverSeqNext flagsFINACK []
    s.closeFlow (.received c) key
  else s.modifyConn c fun conn => { conn with receiving := true }

/-- A task runs; the key is that of its connection. -/
def runTask (key : FlowKey) : Task → State
  | .onServerData c data isComplete error => match s.flows key with
    | none => s
    | some st => s.onServerData c key st data isComplete error
  | .sendRST c => s.sendRST (.failed c) key
  | .closeFlow c => s.closeFlow (.failed c) key

end State

def Task.conn : Task → ConnId
  | .onServerData c .. => c
  | .sendRST c => c
  | .closeFlow c => c

inductive Action
  | tick (d : Nat)
  | packet (key : FlowKey) (tcp : TCPHeader) (serverISN : UInt32)
  | sweep
  | cancelAll
  /-- The outstanding `receive` of a connection completes. -/
  | received (c : ConnId) (data : Bytes) (isComplete error : Bool)
  /-- The state of a connection becomes `.failed`. -/
  | failed (c : ConnId)
  | runTask (j : Nat)
  deriving DecidableEq

def step (s : State) : Action → Option State
  | .tick d => some { s with now := s.now + d }
  | .packet key tcp serverISN => some (s.handlePacket key tcp serverISN)
  | .sweep => some s.sweep
  | .cancelAll => some s.cancelAll
  | .received c data isComplete error => match s.conns[c]? with
    | none => none
    | some conn => if conn.receiving then
        some { s.modifyConn c (fun conn => { conn with receiving := false }) with
          tasks := s.tasks ++ [.onServerData c data isComplete error] }
      else none
  | .failed c => match s.conns[c]? with
    | none => none
    | some conn => if conn.failed then none else
        some { s.modifyConn c (fun conn => { conn with failed := true }) with
          tasks := s.tasks ++ [.sendRST c, .closeFlow c] }
  | .runTask j => match s.tasks[j]? with
    | none => none
    | some t => match s.conns[t.conn]? with
      | none => none
      | some conn => some ({ s with tasks := s.tasks.eraseIdx j }.runTask conn.key t)

/-! ## Flows and their connections -/

/-- Every flow has a connection that was made for its key. -/
def Keyed (s : State) : Prop :=
  ∀ key st, s.flows key = some st → ∃ conn, s.conns[st.conn]? = some conn ∧ conn.key = key

/-- What the connection `c` has been given, if it was made for the key. -/
def State.given (s : State) (key : FlowKey) (c : ConnId) : Option (List Given) :=
  ((s.conns[c]?).filter fun conn => conn.key = key).map (·.given)

theorem given_eq_some {s : State} {key : FlowKey} {c : ConnId} {g : List Given} :
    s.given key c = some g ↔ ∃ conn, s.conns[c]? = some conn ∧ conn.key = key ∧ conn.given = g := by
  simp only [State.given, Option.map_eq_some_iff, Option.filter_eq_some_iff, decide_eq_true_eq,
    and_assoc]

theorem given_of_keyed {s : State} {key : FlowKey} {st : FlowState} (hk : Keyed s)
    (h : s.flows key = some st) : s.given key st.conn = some (s.givenTo st.conn) := by
  obtain ⟨conn, hc, hkey⟩ := hk key st h
  exact given_eq_some.mpr ⟨conn, hc, hkey, by simp [State.givenTo, hc]⟩

/-- The two states of a flow differ in the server's direction only. -/
def FlowState.SameClient (st st' : FlowState) : Prop :=
  st'.conn = st.conn ∧ st'.clientSeqNext = st.clientSeqNext ∧
    st'.clientFinSeen = st.clientFinSeen

/-- The event, if it is a packet for the key, acknowledges what the flow of the key expects
next. -/
def Event.Answers (key : FlowKey) (s : State) : Event → Prop
  | .wrote _ _ g p => p.key = key → ∃ st, s.flows key = some st ∧
      p.ack = st.clientSeqNext ∧ s.given key st.conn = some g
  | .removed .. => True

/-- Nothing moves in the client's direction of the key: its flow stays as it is or goes, its
connections are given nothing, and what is written answers what came before. -/
structure Quiet (key : FlowKey) (s s' : State) : Prop where
  keyed : Keyed s'
  flow : ∀ st', s'.flows key = some st' → ∃ st, s.flows key = some st ∧ st.SameClient st'
  given : ∀ c, s'.given key c = s.given key c
  log : ∃ es, s'.log = s.log ++ es ∧ ∀ e ∈ es, e.Answers key s

variable {key : FlowKey} {s s' s'' : State}

theorem Quiet.refl (hk : Keyed s) : Quiet key s s :=
  ⟨hk, fun st h => ⟨st, h, rfl, rfl, rfl⟩, fun _ => rfl, [], by simp, by simp⟩

theorem Quiet.trans (h : Quiet key s s') (h' : Quiet key s' s'') : Quiet key s s'' where
  keyed := h'.keyed
  flow st hst := by
    obtain ⟨st', hst', hc, hq, hf⟩ := h'.flow st hst
    obtain ⟨st₀, hst₀, hc₀, hq₀, hf₀⟩ := h.flow st' hst'
    exact ⟨st₀, hst₀, hc.trans hc₀, hq.trans hq₀, hf.trans hf₀⟩
  given c := (h'.given c).trans (h.given c)
  log := by
    obtain ⟨es, he, ha⟩ := h.log
    obtain ⟨es', he', ha'⟩ := h'.log
    refine ⟨es ++ es', by rw [he', he, List.append_assoc], fun e hm => ?_⟩
    rcases List.mem_append.mp hm with hm | hm
    · exact ha e hm
    · -- the second part answers the same flow with the same connection
      have hq := ha' e hm
      cases e with
      | removed cause f => trivial
      | wrote cause f g p =>
        intro hp
        obtain ⟨st, hst, hack, hg⟩ := hq hp
        obtain ⟨st₀, hst₀, hc, hseq, _⟩ := h.flow st hst
        exact ⟨st₀, hst₀, hack.trans hseq, by rw [← hc, ← h.given, hg]⟩

theorem keyed_setFlow {k : FlowKey} {st : Option FlowState} (hk : Keyed s)
    (h : ∀ st', st = some st' → ∃ conn, s.conns[st'.conn]? = some conn ∧ conn.key = k) :
    Keyed (s.setFlow k st) := by
  intro k' st' hst
  by_cases he : k' = k
  · subst he
    exact h st' (by simpa [State.setFlow] using hst)
  · exact hk k' st' (by simpa [State.setFlow, he] using hst)

theorem quiet_setFlow {k : FlowKey} {st st' : FlowState} (hk : Keyed s)
    (h : s.flows k = some st) (hs : st.SameClient st') :
    Quiet key s (s.setFlow k (some st')) where
  keyed := by
    refine keyed_setFlow hk fun st'' e => ?_
    cases e
    rw [hs.1]
    exact hk k st h
  flow u hu := by
    by_cases he : key = k
    · subst he
      have hu : st' = u := by simpa [State.setFlow] using hu
      subst hu
      exact ⟨st, h, hs⟩
    · exact ⟨u, by simpa [State.setFlow, he] using hu, rfl, rfl, rfl⟩
  given _ := rfl
  log := ⟨[], by simp [State.setFlow], by simp⟩

theorem quiet_setNone (k : FlowKey) (hk : Keyed s) : Quiet key s (s.setFlow k none) where
  keyed := keyed_setFlow hk (by simp)
  flow u hu := by
    by_cases he : key = k
    · simp [State.setFlow, he] at hu
    · exact ⟨u, by simpa [State.setFlow, he] using hu, rfl, rfl, rfl⟩
  given _ := rfl
  log := ⟨[], by simp [State.setFlow], by simp⟩

theorem getElem?_modifyConn {c i : ConnId} {f : Conn → Conn} :
    (s.modifyConn c f).conns[i]? = (s.conns[i]?).map fun conn => if c = i then f conn else conn := by
  rw [State.modifyConn, List.getElem?_modify]
  split <;> simp [*]

theorem keyed_modifyConn {c : ConnId} {f : Conn → Conn} (hk : Keyed s)
    (hf : ∀ conn, (f conn).key = conn.key) : Keyed (s.modifyConn c f) := by
  intro k st hst
  obtain ⟨conn, hc, hkey⟩ := hk k st hst
  refine ⟨_, by rw [getElem?_modifyConn, hc]; rfl, ?_⟩
  split
  · rw [hf, hkey]
  · exact hkey

/-- A connection is changed, but not given anything, if it is one of the key. -/
theorem quiet_modifyConn {c : ConnId} {f : Conn → Conn} (hk : Keyed s)
    (hf : ∀ conn, (f conn).key = conn.key)
    (hg : ∀ conn, s.conns[c]? = some conn → conn.key = key → (f conn).given = conn.given) :
    Quiet key s (s.modifyConn c f) where
  keyed := keyed_modifyConn hk hf
  flow st h := ⟨st, h, rfl, rfl, rfl⟩
  given i := by
    simp only [State.given, getElem?_modifyConn]
    cases hi : s.conns[i]? with
    | none => rfl
    | some conn =>
      by_cases hc : c = i
      · subst hc
        by_cases he : conn.key = key
        · simp [Option.filter_some, hf, he, hg conn hi he]
        · simp [Option.filter_some, hf, he]
      · simp [hc]
  log := ⟨[], by simp [State.modifyConn], by simp⟩

theorem quiet_sendToClient {k : FlowKey} {st : FlowState} (cause : Cause) (seq : UInt32)
    (flags : UInt8) (payload : Bytes) (hk : Keyed s) (h : s.flows k = some st) :
    Quiet key s (s.sendToClient cause k st seq flags payload) where
  keyed := hk
  flow st h := ⟨st, h, rfl, rfl, rfl⟩
  given _ := rfl
  log := by
    refine ⟨_, rfl, fun e he => ?_⟩
    cases List.mem_singleton.mp he
    rintro rfl
    exact ⟨st, h, rfl, given_of_keyed hk h⟩

theorem quiet_removed (es : List Event) (hk : Keyed s) (hes : ∀ e ∈ es, ∃ cause f, e = .removed cause f) :
    Quiet key s { s with log := s.log ++ es } where
  keyed := hk
  flow st h := ⟨st, h, rfl, rfl, rfl⟩
  given _ := rfl
  log := by
    refine ⟨es, rfl, fun e he => ?_⟩
    obtain ⟨_, _, rfl⟩ := hes e he
    trivial

theorem quiet_cancel (c : ConnId) (hk : Keyed s) : Quiet key s (s.cancel c) :=
  quiet_modifyConn hk (fun _ => rfl) fun _ _ _ => rfl

theorem quiet_cancelFlow (k : FlowKey) (hk : Keyed s) : Quiet key s (s.cancelFlow k) := by
  unfold State.cancelFlow
  split
  · exact .refl hk
  · exact quiet_cancel _ hk

theorem quiet_closeFlow (cause : Cause) (k : FlowKey) (hk : Keyed s) :
    Quiet key s (s.closeFlow cause k) := by
  unfold State.closeFlow
  split
  · exact .refl hk
  · rename_i st _
    have h : Quiet key s (s.cancel st.conn) := quiet_cancel st.conn hk
    have h' := h.trans (quiet_setNone k h.keyed)
    exact h'.trans (quiet_removed _ h'.keyed (by simp))

theorem quiet_sendRST (cause : Cause) (k : FlowKey) (hk : Keyed s) :
    Quiet key s (s.sendRST cause k) := by
  unfold State.sendRST
  split
  · exact .refl hk
  · exact quiet_sendToClient _ _ _ _ hk ‹_›

theorem quiet_removeFlows (q : FlowState → Bool) (hk : Keyed s) :
    Quiet key s (s.removeFlows q) := by
  have hconn : ∀ i : ConnId, ((s.removeFlows q).conns[i]?) = (s.conns[i]?).map fun conn =>
      if (s.flows conn.key).any fun st => st.conn = i && q st then { conn with cancelled := true }
      else conn := fun i => List.getElem?_mapIdx
  refine ⟨?_, ?_, ?_, [], by simp [State.removeFlows], by simp⟩
  · intro k st hst
    obtain ⟨conn, hc, hkey⟩ := hk k st (Option.filter_eq_some_iff.mp hst).1
    refine ⟨_, by rw [hconn, hc]; rfl, ?_⟩
    dsimp only
    split <;> exact hkey
  · exact fun st hst => ⟨st, (Option.filter_eq_some_iff.mp hst).1, rfl, rfl, rfl⟩
  · intro c
    simp only [State.given, hconn]
    cases s.conns[c]? with
    | none => rfl
    | some conn =>
      by_cases he : conn.key = key <;>
      · simp only [Option.map_some, Option.filter_some]
        split <;> simp [he]

/-- A new connection of another key. -/
theorem quiet_append {k : FlowKey} (hk : Keyed s) (hne : k ≠ key) :
    Quiet key s { s with conns := s.conns ++ [{ key := k }] } where
  keyed k' st hst := by
    obtain ⟨conn, hc, hkey⟩ := hk k' st hst
    exact ⟨conn, by rw [List.getElem?_append_left (List.getElem?_eq_some_iff.mp hc).1, hc], hkey⟩
  flow st h := ⟨st, h, rfl, rfl, rfl⟩
  given c := by
    simp only [State.given]
    by_cases hc : c < s.conns.length
    · rw [List.getElem?_append_left hc]
    · have hc := Nat.le_of_not_lt hc
      rw [List.getElem?_append_right hc, List.getElem?_eq_none hc]
      cases hd : c - s.conns.length with
      | zero => simp [Option.filter_some, hne]
      | succ n => simp
  log := ⟨[], by simp, by simp⟩

theorem flows_setFlow_self (k : FlowKey) (st : Option FlowState) :
    (s.setFlow k st).flows k = st := by
  simp [State.setFlow]

/-- The flow of another key changes. -/
theorem quiet_setFlow_ne {k : FlowKey} (st : FlowState) (hk : Keyed s) (hne : key ≠ k)
    (hc : ∃ conn, s.conns[st.conn]? = some conn ∧ conn.key = k) :
    Quiet key s (s.setFlow k (some st)) where
  keyed := keyed_setFlow hk (by rintro _ e; cases e; exact hc)
  flow u hu := ⟨u, by simpa [State.setFlow, hne] using hu, rfl, rfl, rfl⟩
  given _ := rfl
  log := ⟨[], by simp [State.setFlow], by simp⟩

/-- The connection of another key is given something. -/
theorem quiet_connSend_ne {k : FlowKey} {c : ConnId} (outs : List Given) (hk : Keyed s)
    (hne : key ≠ k) (hc : ∃ conn, s.conns[c]? = some conn ∧ conn.key = k) :
    Quiet key s (s.connSend c outs) := by
  obtain ⟨conn, hc, hkey⟩ := hc
  refine quiet_modifyConn hk (fun _ => rfl) fun conn' hc' hkey' => ?_
  rw [hc, Option.some.injEq] at hc'
  subst hc'
  exact absurd (hkey'.symm.trans hkey) hne

theorem conn_advance (st : FlowState) (tcp : TCPHeader) (now : Nat) :
    (st.advance tcp now).conn = st.conn := by
  unfold FlowState.advance
  dsimp only
  split <;> split <;> rfl

theorem getElem?_connSend_self {c : ConnId} {conn : Conn} {outs : List Given}
    (h : s.conns[c]? = some conn) :
    (s.connSend c outs).conns[c]? = some { conn with given := conn.given ++ outs } := by
  simp [State.connSend, getElem?_modifyConn, h]

theorem quiet_handleSegment_ne {k : FlowKey} {st : FlowState} (tcp : TCPHeader) (hk : Keyed s)
    (h : s.flows k = some st) (hne : key ≠ k) : Quiet key s (s.handleSegment k tcp st) := by
  obtain ⟨conn, hc, hkey⟩ := hk k st h
  have h₁ := quiet_connSend_ne (st.outputs tcp) hk hne ⟨conn, hc, hkey⟩
  have h₂ := h₁.trans (quiet_setFlow_ne (st.advance tcp s.now) h₁.keyed hne
    ⟨{ conn with given := conn.given ++ st.outputs tcp },
      by rw [conn_advance]; exact getElem?_connSend_self hc, hkey⟩)
  unfold State.handleSegment
  dsimp only
  split
  · exact h₂.trans (quiet_sendToClient _ _ _ _ h₂.keyed (flows_setFlow_self k _))
  · exact h₂

theorem quiet_openFlow_ne {k : FlowKey} (clientISN serverISN : UInt32) (hk : Keyed s)
    (hne : key ≠ k) : Quiet key s (s.openFlow k clientISN serverISN) := by
  have h₁ : Quiet key s (s.cancelFlow k) := quiet_cancelFlow k hk
  have h₂ := h₁.trans (quiet_append h₁.keyed (Ne.symm hne))
  have h₃ := h₂.trans (quiet_setFlow_ne
    ⟨(s.cancelFlow k).conns.length, clientISN + 1, serverISN + 1, false, (s.cancelFlow k).now⟩
    h₂.keyed hne ⟨{ key := k }, by simp, rfl⟩)
  exact h₃.trans (quiet_sendToClient _ _ _ _ h₃.keyed (flows_setFlow_self k _))

theorem quiet_onServerData {k : FlowKey} {st : FlowState} (c : ConnId) (data : Bytes)
    (isComplete error : Bool) (hk : Keyed s) (h : s.flows k = some st) :
    Quiet key s (s.onServerData c k st data isComplete error) := by
  have h₁ : Quiet key s (if data ≠ [] then s.forwardToClient c k st data else s) := by
    split
    · have hq : Quiet key s _ :=
        quiet_sendToClient (.received c) st.serverSeqNext flagsPSHACK data hk h
      exact hq.trans (quiet_setFlow hq.keyed h ⟨rfl, rfl, rfl⟩)
    · exact .refl hk
  unfold State.onServerData
  revert h₁
  generalize (if data ≠ [] then s.forwardToClient c k st data else s) = s₁
  intro h₁
  dsimp only
  split
  · have h₂ := h₁.trans (quiet_sendRST (.received c) k h₁.keyed)
    exact h₂.trans (quiet_closeFlow _ k h₂.keyed)
  · split
    · have h₂ : Quiet key s (match s₁.flows k with
          | none => s₁
          | some st => s₁.sendToClient (.received c) k st st.serverSeqNext flagsFINACK []) := by
        split
        · exact h₁
        · exact h₁.trans (quiet_sendToClient _ _ _ _ h₁.keyed ‹_›)
      exact h₂.trans (quiet_closeFlow _ k h₂.keyed)
    · exact h₁.trans (quiet_modifyConn h₁.keyed (fun _ => rfl) fun _ _ _ => rfl)

theorem quiet_runTask {k : FlowKey} (t : Task) (hk : Keyed s) : Quiet key s (s.runTask k t) := by
  cases t with
  | onServerData c data isComplete error =>
    simp only [State.runTask]
    split
    · exact .refl hk
    · exact quiet_onServerData c data isComplete error hk ‹_›
  | sendRST c => exact quiet_sendRST _ _ hk
  | closeFlow c => exact quiet_closeFlow _ _ hk

/-- The fields that `Quiet` looks at. -/
theorem Quiet.of_eq (h : Quiet key s s') (hf : s''.flows = s'.flows) (hc : s''.conns = s'.conns)
    (hl : s''.log = s'.log) : Quiet key s s'' := by
  obtain ⟨hk, hflow, hgiven, hlog⟩ := h
  refine ⟨fun k st hst => ?_, fun st hst => hflow st (hf ▸ hst), fun c => ?_, hl ▸ hlog⟩
  · rw [hc]
    exact hk k st (hf ▸ hst)
  · rw [← hgiven c]
    simp [State.given, hc]

/-- **What is no packet of the key is quiet for it.** -/
theorem quiet_step {a : Action} (hk : Keyed s) (ha : ∀ tcp n, a ≠ .packet key tcp n)
    (h : step s a = some s') : Quiet key s s' := by
  cases a with
  | tick d =>
    cases h
    exact (Quiet.refl hk).of_eq rfl rfl rfl
  | packet k tcp serverISN =>
    have hne : key ≠ k := fun e => ha tcp serverISN (by rw [e])
    cases h
    unfold State.handlePacket
    split
    · exact quiet_closeFlow _ _ hk
    · split
      · exact quiet_openFlow_ne _ _ hk hne
      · split
        · exact .refl hk
        · exact quiet_handleSegment_ne tcp hk ‹_› hne
  | sweep => cases h; exact quiet_removeFlows _ hk
  | cancelAll => cases h; exact quiet_removeFlows _ hk
  | received c data isComplete error =>
    simp only [step] at h
    split at h
    · cases h
    · split at h <;> cases h
      have hq : Quiet key s (s.modifyConn c fun conn => { conn with receiving := false }) :=
        quiet_modifyConn hk (fun _ => rfl) fun _ _ _ => rfl
      exact hq.of_eq rfl rfl rfl
  | failed c =>
    simp only [step] at h
    split at h
    · cases h
    · split at h <;> cases h
      have hq : Quiet key s (s.modifyConn c fun conn => { conn with failed := true }) :=
        quiet_modifyConn hk (fun _ => rfl) fun _ _ _ => rfl
      exact hq.of_eq rfl rfl rfl
  | runTask j =>
    simp only [step] at h
    split at h
    · cases h
    · split at h <;> cases h
      have h₀ : Quiet key s { s with tasks := s.tasks.eraseIdx j } :=
        (Quiet.refl hk).of_eq rfl rfl rfl
      exact h₀.trans (quiet_runTask _ h₀.keyed)

end TrafficMonitor.TcpRelay
