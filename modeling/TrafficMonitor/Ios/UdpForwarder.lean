import TrafficMonitor.Basic.Bytes
import TrafficMonitor.Basic.Runs

/-!
# The UDP forwarder of the iOS client

`UDPForwarder` keeps one `NWConnection` per 4-tuple and makes a new one when the old one has
died. The receive callback writes the reply itself, outside the actor, and spawns tasks that
name the flow by its key.

Proved here: `notMixed_of_run`: no callback writes a reply into, or removes, the flow of
another connection, in every run in which no callback with a reply and no removal finds its
connection replaced.
-/

namespace TrafficMonitor.UdpForwarder

open Runs

structure FlowKey where
  srcIP : Bytes
  srcPort : UInt16
  dstIP : Bytes
  dstPort : UInt16
  deriving DecidableEq

abbrev ConnId := Nat

/-- An `NWConnection`; `alive` is `isAlive`, `given` what it has been given to send. -/
structure Conn where
  key : FlowKey
  given : List Bytes := []
  alive : Bool := true
  /-- A `receive` is outstanding. -/
  receiving : Bool := true
  deriving DecidableEq

structure FlowEntry where
  conn : ConnId
  lastActivity : Nat
  deriving DecidableEq

/-- What the callbacks of the connection `c` do; `flow` is the connection of the flow that
their key has at that time. -/
inductive Event
  | replied (c : ConnId) (flow : Option ConnId) (data : Bytes)
  | removed (c : ConnId) (flow : Option ConnId)
  deriving DecidableEq

/-- Tasks that the receive callback has spawned. -/
inductive Task
  | touchFlow (c : ConnId)
  | receiveLoop (c : ConnId)
  | removeFlow (c : ConnId)
  deriving DecidableEq

structure State where
  now : Nat := 0
  flows : FlowKey → Option FlowEntry := fun _ => none
  conns : List Conn := []
  tasks : List Task := []
  log : List Event := []

namespace State

variable (s : State)

def modifyConn (c : ConnId) (f : Conn → Conn) : State := { s with conns := s.conns.modify c f }

def connOf (key : FlowKey) : Option ConnId := (s.flows key).map (·.conn)

def isAlive (c : ConnId) : Bool := (s.conns[c]?).any (·.alive)

def forward (key : FlowKey) (rawPayload : Bytes) : State :=
  match (s.connOf key).filter s.isAlive with
  | some c =>
    { s.modifyConn c (fun conn => { conn with given := conn.given ++ [rawPayload] }) with
      flows := Function.update s.flows key (some ⟨c, s.now⟩) }
  | none =>
    { s with
      conns := s.conns ++ [{ key := key, given := [rawPayload] }]
      flows := Function.update s.flows key (some ⟨s.conns.length, s.now⟩) }

/-- In seconds, as the clock of the model. -/
def idleSecs : Nat := 60

/-- Remove the flows of a kind and cancel their connections. -/
def removeFlows (p : FlowEntry → Bool) : State :=
  { s with
    flows := fun key => (s.flows key).filter fun e => !p e
    conns := s.conns.mapIdx fun c conn =>
      if (s.flows conn.key).any fun e => e.conn = c && p e then { conn with alive := false }
      else conn }

def sweep : State := s.removeFlows fun e => e.lastActivity + idleSecs < s.now

def cancelAll : State := s.removeFlows fun _ => true

/-- The callback of `receive`. -/
def received (c : ConnId) (key : FlowKey) (data : Bytes) (isComplete error : Bool) : State :=
  let s := s.modifyConn c fun conn => { conn with receiving := false }
  let s : State := if data ≠ [] then
      { s with
        log := s.log ++ [.replied c (s.connOf key) data]
        tasks := s.tasks ++ [.touchFlow c] }
    else s
  let next : Task := if !isComplete && !error then .receiveLoop c else .removeFlow c
  { s with tasks := s.tasks ++ [next] }

/-- A task runs; the key is that of its connection. -/
def runTask (key : FlowKey) : Task → State
  | .touchFlow _ =>
    { s with
      flows := Function.update s.flows key
        ((s.flows key).map fun e => { e with lastActivity := s.now }) }
  | .receiveLoop c => s.modifyConn c fun conn => { conn with receiving := true }
  | .removeFlow c =>
    { s with
      flows := Function.update s.flows key none
      log := s.log ++ [.removed c (s.connOf key)] }

end State

def Task.conn : Task → ConnId
  | .touchFlow c => c
  | .receiveLoop c => c
  | .removeFlow c => c

inductive Action
  | tick (d : Nat)
  | packet (key : FlowKey) (rawPayload : Bytes)
  | sweep
  | cancelAll
  /-- A connection fails or is cancelled. -/
  | dies (c : ConnId)
  | received (c : ConnId) (data : Bytes) (isComplete error : Bool)
  | runTask (j : Nat)
  deriving DecidableEq

def step (s : State) : Action → Option State
  | .tick d => some { s with now := s.now + d }
  | .packet key rawPayload => some (s.forward key rawPayload)
  | .sweep => some s.sweep
  | .cancelAll => some s.cancelAll
  | .dies c => some (s.modifyConn c fun conn => { conn with alive := false })
  | .received c data isComplete error => match s.conns[c]? with
    | none => none
    | some conn => if conn.receiving then some (s.received c conn.key data isComplete error) else none
  | .runTask j => match s.tasks[j]? with
    | none => none
    | some t => match s.conns[t.conn]? with
      | none => none
      | some conn => some ({ s with tasks := s.tasks.eraseIdx j }.runTask conn.key t)

/-! ## Generations -/

def Event.conn : Event → ConnId
  | .replied c _ _ => c
  | .removed c _ => c

def Event.flow : Event → Option ConnId
  | .replied _ flow _ => flow
  | .removed _ flow => flow

/-- The callbacks of a connection have acted on its own flow, or where there was none. -/
def NotMixed (log : List Event) : Prop := ∀ e ∈ log, ∀ f ∈ e.flow, f = e.conn

def Task.removes : Task → Bool
  | .removeFlow _ => true
  | _ => false

/-- A callback with a reply, and a task that removes a flow, find the flow of their own
connection, or none. -/
def Current (s : State) : Action → Prop
  | .received c data _ _ => data ≠ [] →
      ∀ conn ∈ s.conns[c]?, ∀ f ∈ s.connOf conn.key, f = c
  | .runTask j => ∀ t ∈ s.tasks[j]?, t.removes = true →
      ∀ conn ∈ s.conns[t.conn]?, ∀ f ∈ s.connOf conn.key, f = t.conn
  | _ => True

instance (s : State) : ∀ a, Decidable (Current s a)
  | .received .. => by unfold Current; infer_instance
  | .runTask _ => by unfold Current; infer_instance
  | .tick _ | .packet .. | .sweep | .cancelAll | .dies _ => isTrue trivial

theorem notMixed_snoc {log : List Event} {e : Event} (h : NotMixed log)
    (he : ∀ f ∈ e.flow, f = e.conn) : NotMixed (log ++ [e]) := by
  intro e' hm
  rcases List.mem_append.mp hm with hm | hm
  · exact h e' hm
  · cases List.mem_singleton.mp hm
    exact he

theorem log_forward (s : State) (key : FlowKey) (rawPayload : Bytes) :
    (s.forward key rawPayload).log = s.log := by
  unfold State.forward
  split <;> rfl

theorem notMixed_step {s s' : State} {a : Action} (hi : NotMixed s.log) (hc : Current s a)
    (h : step s a = some s') : NotMixed s'.log := by
  cases a with
  | tick d => cases h; exact hi
  | packet key rawPayload =>
    cases h
    rwa [log_forward]
  | sweep => cases h; exact hi
  | cancelAll => cases h; exact hi
  | dies c => cases h; exact hi
  | received c data isComplete error =>
    simp only [step] at h
    split at h
    · cases h
    · rename_i conn hconn
      split at h <;> cases h
      simp only [State.received]
      split
      · rename_i hd
        exact notMixed_snoc hi (hc hd conn hconn)
      · exact hi
  | runTask j =>
    simp only [step] at h
    split at h
    · cases h
    · rename_i t ht
      split at h
      · cases h
      · rename_i conn hconn
        cases h
        cases t with
        | touchFlow c => exact hi
        | receiveLoop c => exact hi
        | removeFlow c => exact notMixed_snoc hi (hc _ ht rfl conn hconn)

theorem notMixed_of_run {as : List Action} {s : State} (hm : Meets step Current {} as)
    (hr : run step {} as = some s) : NotMixed s.log :=
  invariant_of_meets (I := fun s => NotMixed s.log) (fun _ _ _ hi hc h => notMixed_step hi hc h)
    (by simp [NotMixed]) hm hr

end TrafficMonitor.UdpForwarder
