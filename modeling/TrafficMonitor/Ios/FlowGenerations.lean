import TrafficMonitor.Ios.TcpRelay
import TrafficMonitor.Ios.UdpForwarder

/-!
# Generations of a flow

A new SYN, or a packet after the old connection has died, replaces the connection of a
4-tuple, while callbacks and tasks of the old one are still to come. They know the 4-tuple
only.

Proved here, for every interleaving of packets, sweeps, callbacks and tasks in both actors:

* `generations_of_run`: no callback sends into, closes or removes the flow of another
  connection, and a flow whose connection fails is removed only after its reset, in every
  run in which no callback or task that acts finds its connection replaced, and the task
  that closes a failed flow does not overtake the one that resets it;
* `generations_mixed`: without that condition the error of a cancelled connection resets
  and removes the flow that has replaced it, a failed flow goes without a reset, and a dead
  UDP connection removes its successor.
-/

namespace TrafficMonitor.TcpRelay

open Runs

/-! ## What the log shows -/

def Cause.conn : Cause → Option ConnId
  | .packet => none
  | .received c => some c
  | .failed c => some c

def Event.cause : Event → Cause
  | .wrote cause _ _ _ => cause
  | .removed cause _ => cause

def Event.flow : Event → ConnId
  | .wrote _ flow _ _ => flow
  | .removed _ flow => flow

/-- The callbacks of a connection have acted on its own flow only. -/
def NotMixed (log : List Event) : Prop := ∀ e ∈ log, ∀ c ∈ e.cause.conn, e.flow = c

/-- The reset that the failure of `c` sends. -/
def Event.resets (c : ConnId) : Event → Prop
  | .wrote cause _ _ p => cause = .failed c ∧ p.flags = flagsRSTACK
  | .removed .. => False

/-- Where the failure of a connection has removed a flow, it has sent a reset before. -/
def ResetFirst (log : List Event) : Prop :=
  ∀ (i : Nat) c f, log[i]? = some (.removed (.failed c) f) →
    ∃ (j : Nat) (e : Event), j < i ∧ log[j]? = some e ∧ e.resets c

/-- The task writes to the client, or removes a flow. -/
def Task.acts : Task → Bool
  | .onServerData _ data isComplete error => data ≠ [] || isComplete || error
  | .sendRST _ | .closeFlow _ => true

/-- A task that acts finds the flow of its own connection, or none, and the flow of a failed
connection is closed when its reset is no longer to come. -/
def Current (s : State) : Action → Prop
  | .runTask j => ∀ t ∈ s.tasks[j]?, ∀ conn ∈ s.conns[t.conn]?, ∀ st ∈ s.flows conn.key,
      (t.acts = true → st.conn = t.conn) ∧
      (t = .closeFlow t.conn → Task.sendRST t.conn ∉ s.tasks)
  | _ => True

instance (s : State) : ∀ a, Decidable (Current s a)
  | .runTask _ => by unfold Current; infer_instance
  | .tick _ | .packet .. | .sweep | .cancelAll | .received .. | .failed _ => isTrue trivial

/-- Why a task acts. -/
def Task.cause : Task → Cause
  | .onServerData c .. => .received c
  | .sendRST c | .closeFlow c => .failed c

/-! ## What a call does to the log -/

/-- What is done for the flow of a key, and for the reason given, and to no other flow. -/
structure Acts (cause : Cause) (k : FlowKey) (s s' : State) : Prop where
  flows : ∀ k' st', s'.flows k' = some st' → ∃ st, s.flows k' = some st ∧ st'.conn = st.conn
  length : s'.conns.length = s.conns.length
  tasks : s'.tasks = s.tasks
  log : ∃ es, s'.log = s.log ++ es ∧
    ∀ e ∈ es, e.cause = cause ∧ ∃ st, s.flows k = some st ∧ e.flow = st.conn

variable {cause : Cause} {k : FlowKey} {s s' s'' : State}

theorem Acts.refl : Acts cause k s s :=
  ⟨fun _ st h => ⟨st, h, rfl⟩, rfl, rfl, [], by simp, by simp⟩

theorem Acts.trans (h : Acts cause k s s') (h' : Acts cause k s' s'') : Acts cause k s s'' where
  flows k' st hst := by
    obtain ⟨st', hst', hc⟩ := h'.flows k' st hst
    obtain ⟨st₀, hst₀, hc₀⟩ := h.flows k' st' hst'
    exact ⟨st₀, hst₀, hc.trans hc₀⟩
  length := h'.length.trans h.length
  tasks := h'.tasks.trans h.tasks
  log := by
    obtain ⟨es, he, ha⟩ := h.log
    obtain ⟨es', he', ha'⟩ := h'.log
    refine ⟨es ++ es', by rw [he', he, List.append_assoc], fun e hm => ?_⟩
    rcases List.mem_append.mp hm with hm | hm
    · exact ha e hm
    · obtain ⟨hcause, st', hst', hf⟩ := ha' e hm
      obtain ⟨st, hst, hc⟩ := h.flows k st' hst'
      exact ⟨hcause, st, hst, hf.trans hc⟩

theorem acts_modifyConn (c : ConnId) (f : Conn → Conn) : Acts cause k s (s.modifyConn c f) :=
  ⟨fun _ st h => ⟨st, h, rfl⟩, by simp [State.modifyConn], rfl, [], by simp [State.modifyConn],
    by simp⟩

theorem acts_setFlow {st st' : FlowState} (h : s.flows k = some st) (hc : st'.conn = st.conn) :
    Acts cause k s (s.setFlow k (some st')) where
  flows k' u hu := by
    by_cases he : k' = k
    · subst he
      rw [flows_setFlow_self, Option.some.injEq] at hu
      exact ⟨st, h, hu ▸ hc⟩
    · exact ⟨u, by simpa [State.setFlow, he] using hu, rfl⟩
  length := rfl
  tasks := rfl
  log := ⟨[], by simp [State.setFlow], by simp⟩

theorem acts_sendToClient {st : FlowState} (seq : UInt32) (flags : UInt8) (payload : Bytes)
    (h : ∃ st', s.flows k = some st' ∧ st.conn = st'.conn) :
    Acts cause k s (s.sendToClient cause k st seq flags payload) where
  flows k' u hu := ⟨u, hu, rfl⟩
  length := rfl
  tasks := rfl
  log := by
    refine ⟨_, rfl, fun e he => ?_⟩
    cases List.mem_singleton.mp he
    exact ⟨rfl, h⟩

theorem acts_sendRST : Acts cause k s (s.sendRST cause k) := by
  unfold State.sendRST
  split
  · exact .refl
  · exact acts_sendToClient _ _ _ ⟨_, ‹_›, rfl⟩

theorem closeFlow_some {st : FlowState} (h : s.flows k = some st) :
    s.closeFlow cause k =
      { (s.cancel st.conn).setFlow k none with log := s.log ++ [.removed cause st.conn] } := by
  simp [State.closeFlow, h]

theorem acts_closeFlow : Acts cause k s (s.closeFlow cause k) := by
  cases h : s.flows k with
  | none =>
    simp only [State.closeFlow, h]
    exact .refl
  | some st =>
    rw [closeFlow_some h]
    refine ⟨fun k' u hu => ?_, by simp [State.cancel, State.modifyConn, State.setFlow], rfl,
      _, rfl, fun e he => ?_⟩
    · by_cases he : k' = k
      · simp [State.setFlow, he] at hu
      · exact ⟨u, by simpa [State.setFlow, he, State.cancel, State.modifyConn] using hu, rfl⟩
    · cases List.mem_singleton.mp he
      exact ⟨rfl, st, h, rfl⟩

theorem acts_removeFlows (q : FlowState → Bool) : Acts cause k s (s.removeFlows q) where
  flows k' u hu := ⟨u, (Option.filter_eq_some_iff.mp hu).1, rfl⟩
  length := by simp [State.removeFlows]
  tasks := rfl
  log := ⟨[], by simp [State.removeFlows], by simp⟩

theorem acts_handleSegment {st : FlowState} (tcp : TCPHeader) (h : s.flows k = some st) :
    Acts .packet k s (s.handleSegment k tcp st) := by
  have h₁ : Acts .packet k s (s.connSend st.conn (st.outputs tcp)) := acts_modifyConn _ _
  have h₂ := h₁.trans (acts_setFlow h (conn_advance st tcp s.now))
  unfold State.handleSegment
  dsimp only
  split
  · exact h₂.trans (acts_sendToClient _ _ _ ⟨_, flows_setFlow_self k _, rfl⟩)
  · exact h₂

theorem acts_onServerData {st : FlowState} (c : ConnId) (data : Bytes) (isComplete error : Bool)
    (h : s.flows k = some st) :
    Acts (.received c) k s (s.onServerData c k st data isComplete error) := by
  have h₁ : Acts (.received c) k s (if data ≠ [] then s.forwardToClient c k st data else s) := by
    split
    · exact (acts_sendToClient _ _ _ ⟨st, h, rfl⟩).trans (acts_setFlow h rfl)
    · exact .refl
  unfold State.onServerData
  revert h₁
  generalize (if data ≠ [] then s.forwardToClient c k st data else s) = s₁
  intro h₁
  dsimp only
  split
  · exact (h₁.trans acts_sendRST).trans acts_closeFlow
  · split
    · refine Acts.trans (h₁.trans ?_) acts_closeFlow
      split
      · exact .refl
      · exact acts_sendToClient _ _ _ ⟨_, ‹_›, rfl⟩
    · exact h₁.trans (acts_modifyConn _ _)

theorem acts_runTask (t : Task) : Acts t.cause k s (s.runTask k t) := by
  cases t with
  | onServerData c data isComplete error =>
    simp only [State.runTask]
    split
    · exact .refl
    · exact acts_onServerData c data isComplete error ‹_›
  | sendRST c => exact acts_sendRST
  | closeFlow c => exact acts_closeFlow

/-! ## Logs -/

theorem notMixed_append {log es : List Event} (h : NotMixed log)
    (hes : ∀ e ∈ es, ∀ c ∈ e.cause.conn, e.flow = c) : NotMixed (log ++ es) := by
  intro e hm
  rcases List.mem_append.mp hm with hm | hm
  · exact h e hm
  · exact hes e hm

theorem resetFirst_append {log es : List Event} (h : ResetFirst log)
    (hes : ∀ c f, .removed (.failed c) f ∈ es → ∃ e ∈ log, e.resets c) :
    ResetFirst (log ++ es) := by
  intro i c f hi
  by_cases hlt : i < log.length
  · rw [List.getElem?_append_left hlt] at hi
    obtain ⟨j, e, hj, he, hr⟩ := h i c f hi
    exact ⟨j, e, hj, by rw [List.getElem?_append_left (hj.trans hlt), he], hr⟩
  · rw [List.getElem?_append_right (Nat.le_of_not_lt hlt)] at hi
    obtain ⟨e, he, hr⟩ := hes c f (List.mem_of_getElem? hi)
    obtain ⟨j, hj⟩ := List.getElem?_of_mem he
    have hjl := (List.getElem?_eq_some_iff.mp hj).1
    exact ⟨j, e, hjl.trans_le (Nat.le_of_not_lt hlt), by rw [List.getElem?_append_left hjl, hj], hr⟩

/-! ## The invariant -/

/-- A connection whose failed flow is still to be closed has its reset still to come, or has
sent it, if it is the connection of a flow. -/
structure Ordered (s : State) : Prop where
  keyed : Keyed s
  notMixed : NotMixed s.log
  resetFirst : ResetFirst s.log
  tasks : ∀ t ∈ s.tasks, t.conn < s.conns.length
  pending : ∀ c, Task.closeFlow c ∈ s.tasks → (∃ k st, s.flows k = some st ∧ st.conn = c) →
    Task.sendRST c ∈ s.tasks ∨ ∃ e ∈ s.log, e.resets c

theorem ordered_init : Ordered {} :=
  ⟨by simp [Keyed], by simp [NotMixed], by simp [ResetFirst], by simp, by simp⟩

theorem FlowKey.exists_ne (k : FlowKey) : ∃ key : FlowKey, key ≠ k := by
  refine ⟨{ k with srcIP := 0 :: k.srcIP }, fun h => ?_⟩
  have := congrArg (fun key => key.srcIP.length) h
  simp at this

theorem keyed_step {a : Action} (hk : Keyed s) (h : step s a = some s') : Keyed s' := by
  have hkey : ∃ key, ∀ tcp n, a ≠ .packet key tcp n := by
    cases a with
    | packet k tcp n =>
      obtain ⟨key, hne⟩ := k.exists_ne
      exact ⟨key, by rintro _ _ ⟨⟩; exact hne rfl⟩
    | _ => exact ⟨⟨[], 0, [], 0⟩, by simp⟩
  obtain ⟨key, hne⟩ := hkey
  exact (quiet_step hk hne h).keyed

/-- What is done for the flow of the cause's own connection, unless it is a failure. -/
theorem ordered_acts (hi : Ordered s) (h : Acts cause k s s') (hk : Keyed s')
    (hf : ∀ c, cause ≠ .failed c) (hcur : ∀ st ∈ s.flows k, ∀ c ∈ cause.conn, st.conn = c) :
    Ordered s' := by
  obtain ⟨es, hes, ha⟩ := h.log
  refine ⟨hk, ?_, ?_, ?_, ?_⟩
  · rw [hes]
    refine notMixed_append hi.notMixed fun e he c hc => ?_
    obtain ⟨hcause, st, hst, hflow⟩ := ha e he
    rw [hcause] at hc
    exact hflow.trans (hcur st hst c hc)
  · rw [hes]
    refine resetFirst_append hi.resetFirst fun c f he => ?_
    exact absurd (ha _ he).1.symm (hf c)
  · rw [h.tasks, h.length]
    exact hi.tasks
  · rw [h.tasks]
    rintro c hc ⟨k', st', hst', hconn⟩
    obtain ⟨st, hst, he⟩ := h.flows k' st' hst'
    rcases hi.pending c hc ⟨k', st, hst, he.symm.trans hconn⟩ with hp | ⟨e, hp, hr⟩
    · exact .inl hp
    · exact .inr ⟨e, by rw [hes]; exact List.mem_append_left _ hp, hr⟩

theorem ordered_packet_acts (hi : Ordered s) (h : Acts .packet k s s') (hk : Keyed s') :
    Ordered s' :=
  ordered_acts hi h hk (by simp) (by simp [Cause.conn])

theorem length_cancelFlow : (s.cancelFlow k).conns.length = s.conns.length := by
  unfold State.cancelFlow
  split <;> simp [State.cancel, State.modifyConn]

/-- A new connection has no tasks yet. -/
theorem ordered_openFlow {clientISN serverISN : UInt32} (hi : Ordered s)
    (hk : Keyed (s.openFlow k clientISN serverISN)) :
    Ordered (s.openFlow k clientISN serverISN) := by
  have hsame : (s.cancelFlow k).tasks = s.tasks ∧ (s.cancelFlow k).log = s.log ∧
      (s.cancelFlow k).flows = s.flows := by
    unfold State.cancelFlow
    split <;> exact ⟨rfl, rfl, rfl⟩
  obtain ⟨htasks, hlog, hflows⟩ := hsame
  have hlog' : ∃ p g, (s.openFlow k clientISN serverISN).log =
      s.log ++ [.wrote .packet s.conns.length g p] := by
    simp only [State.openFlow, State.sendToClient, State.setFlow, hlog, length_cancelFlow]
    exact ⟨_, _, rfl⟩
  obtain ⟨p, g, hlog'⟩ := hlog'
  refine ⟨hk, ?_, ?_, fun t ht => ?_, fun c hc hcur => ?_⟩
  · rw [hlog']
    exact notMixed_append hi.notMixed (by simp [Event.cause, Cause.conn])
  · rw [hlog']
    exact resetFirst_append hi.resetFirst (by simp)
  · have := hi.tasks t (htasks ▸ ht)
    simp only [State.openFlow, State.sendToClient, State.setFlow, List.length_append,
      length_cancelFlow, List.length_singleton]
    exact Nat.lt_succ_of_lt this
  · have hc' : Task.closeFlow c ∈ s.tasks := htasks ▸ hc
    obtain ⟨k', st, hst, hconn⟩ := hcur
    by_cases he : k' = k
    · -- the flow of the new connection, which no task names
      subst he
      have hst : st.conn = s.conns.length := by
        simp only [State.openFlow, State.sendToClient, flows_setFlow_self,
          Option.some.injEq, length_cancelFlow] at hst
        exact (congrArg FlowState.conn hst).symm
      have hlt : c < s.conns.length := hi.tasks _ hc'
      rw [← hconn, hst] at hlt
      exact absurd hlt (Nat.lt_irrefl _)
    · have hst : s.flows k' = some st := by
        simpa [State.openFlow, State.sendToClient, State.setFlow, he, hflows] using hst
      rcases hi.pending c hc' ⟨k', st, hst, hconn⟩ with hp | ⟨e, hp, hr⟩
      · exact .inl (htasks ▸ hp)
      · exact .inr ⟨e, by rw [hlog']; exact List.mem_append_left _ hp, hr⟩

/-! ## Tasks -/

/-- The state from which the `j`-th task runs. -/
def State.taking (s : State) (j : Nat) : State := { s with tasks := s.tasks.eraseIdx j }

theorem mem_taking {j : Nat} {t u : Task} (ht : s.tasks[j]? = some t) (hne : u ≠ t)
    (hu : u ∈ s.tasks) : u ∈ (s.taking j).tasks := by
  obtain ⟨i, hi⟩ := List.getElem?_of_mem hu
  refine List.mem_eraseIdx_iff_getElem?.mpr ⟨i, fun e => ?_, hi⟩
  subst e
  rw [ht, Option.some.injEq] at hi
  exact hne hi.symm

/-- A task that is no reset is taken. -/
theorem ordered_taking {j : Nat} {t : Task} (hi : Ordered s) (ht : s.tasks[j]? = some t)
    (hr : ∀ c, t ≠ .sendRST c) : Ordered (s.taking j) where
  keyed := hi.keyed
  notMixed := hi.notMixed
  resetFirst := hi.resetFirst
  tasks u hu := hi.tasks u (List.mem_of_mem_eraseIdx hu)
  pending c hc hcur := by
    rcases hi.pending c (List.mem_of_mem_eraseIdx hc) hcur with hp | hp
    · exact .inl (mem_taking ht (Ne.symm (hr c)) hp)
    · exact .inr hp

/-- A callback without data, end or error asks for more and does nothing else. -/
theorem acts_idle {c : ConnId} {data : Bytes} {isComplete error : Bool}
    (h : (Task.onServerData c data isComplete error).acts = false) :
    Acts .packet k s (s.runTask k (.onServerData c data isComplete error)) := by
  simp only [Task.acts, Bool.or_eq_false_iff, decide_eq_false_iff_not, not_not] at h
  obtain ⟨⟨rfl, rfl⟩, rfl⟩ := h
  simp only [State.runTask]
  split
  · exact .refl
  · simpa [State.onServerData] using acts_modifyConn c _

theorem log_sendRST {st : FlowState} (cause : Cause) (h : s.flows k = some st) :
    ∃ e : Event, (s.sendRST cause k).log = s.log ++ [e] ∧ e.cause = cause ∧ e.flow = st.conn ∧
      (∀ c f, e ≠ .removed c f) ∧ ∀ c, cause = .failed c → e.resets c := by
  exact ⟨.wrote cause st.conn (s.givenTo st.conn)
      ⟨k, st.serverSeqNext, st.clientSeqNext, flagsRSTACK, []⟩,
    by simp only [State.sendRST, h]; rfl, rfl, rfl, by simp, fun c hc => ⟨hc, rfl⟩⟩

/-- The reset of a failed connection. -/
theorem ordered_sendRST {j : Nat} {c : ConnId} {conn : Conn} (hi : Ordered s)
    (ht : s.tasks[j]? = some (.sendRST c)) (hconn : s.conns[c]? = some conn)
    (hk : Keyed ((s.taking j).sendRST (.failed c) conn.key))
    (hcur : ∀ st ∈ s.flows conn.key, st.conn = c) :
    Ordered ((s.taking j).sendRST (.failed c) conn.key) := by
  have hsub : ∀ u ∈ (s.taking j).tasks, u ∈ s.tasks := fun u hu => List.mem_of_mem_eraseIdx hu
  have hother : ∀ d, d ≠ c → Task.sendRST d ∈ s.tasks → Task.sendRST d ∈ (s.taking j).tasks :=
    fun d hd => mem_taking ht (by simpa using hd)
  have hacts : Acts (.failed c) conn.key (s.taking j) _ := acts_sendRST
  cases hfl : s.flows conn.key with
  | none =>
    have hsame : (s.taking j).sendRST (.failed c) conn.key = s.taking j := by
      have : (s.taking j).flows conn.key = none := hfl
      simp only [State.sendRST, this]
    rw [hsame]
    refine ⟨hi.keyed, hi.notMixed, hi.resetFirst, fun u hu => hi.tasks u (hsub u hu), ?_⟩
    rintro d hd ⟨k, st, hst, he⟩
    have hne : d ≠ c := by
      -- the flow of `c` would be that of its key
      rintro rfl
      obtain ⟨conn', hc', hkey⟩ := hi.keyed k st hst
      rw [he, hconn, Option.some.injEq] at hc'
      subst hc'
      have hst : s.flows k = some st := hst
      rw [← hkey, hfl] at hst
      cases hst
    exact (hi.pending d (hsub _ hd) ⟨k, st, hst, he⟩).imp_left (hother d hne)
  | some st =>
    have hfl' : (s.taking j).flows conn.key = some st := hfl
    obtain ⟨e, hlog, hcause, hflow, hnr, hres⟩ := log_sendRST (.failed c) hfl'
    have hlog : ((s.taking j).sendRST (.failed c) conn.key).log = s.log ++ [e] := hlog
    refine ⟨hk, ?_, ?_, ?_, ?_⟩
    · rw [hlog]
      refine notMixed_append hi.notMixed fun e' he' d hd => ?_
      cases List.mem_singleton.mp he'
      rw [hcause] at hd
      cases hd
      exact hflow.trans (hcur st hfl)
    · rw [hlog]
      refine resetFirst_append hi.resetFirst fun d f he' => ?_
      exact absurd (List.mem_singleton.mp he').symm (hnr _ _)
    · rw [hacts.tasks, hacts.length]
      exact fun u hu => hi.tasks u (hsub u hu)
    · rw [hacts.tasks]
      rintro d hd ⟨k, st', hst', he⟩
      by_cases hdc : d = c
      · subst hdc
        exact .inr ⟨e, by rw [hlog]; simp, hres d rfl⟩
      · obtain ⟨st₀, hst₀, he₀⟩ := hacts.flows k st' hst'
        rcases hi.pending d (hsub _ hd) ⟨k, st₀, hst₀, he₀.symm.trans he⟩ with hp | ⟨e', hp, hr⟩
        · exact .inl (hother d hdc hp)
        · exact .inr ⟨e', by rw [hlog]; exact List.mem_append_left _ hp, hr⟩

/-- The flow of a failed connection is closed. -/
theorem ordered_closeFlow {c : ConnId} {conn : Conn} (hi : Ordered s)
    (hk : Keyed (s.closeFlow (.failed c) conn.key))
    (hres : ∀ st ∈ s.flows conn.key, st.conn = c ∧ ∃ e ∈ s.log, e.resets c) :
    Ordered (s.closeFlow (.failed c) conn.key) := by
  have hacts : Acts (.failed c) conn.key s (s.closeFlow (.failed c) conn.key) := acts_closeFlow
  obtain ⟨es, hes, ha⟩ := hacts.log
  refine ⟨hk, ?_, ?_, by rw [hacts.tasks, hacts.length]; exact hi.tasks, ?_⟩
  · rw [hes]
    refine notMixed_append hi.notMixed fun e he d hd => ?_
    obtain ⟨hcause, st, hst, hflow⟩ := ha e he
    rw [hcause] at hd
    cases hd
    exact hflow.trans (hres st hst).1
  · rw [hes]
    refine resetFirst_append hi.resetFirst fun d f he => ?_
    obtain ⟨hcause, st, hst, _⟩ := ha _ he
    cases hcause
    exact (hres st hst).2
  · rw [hacts.tasks]
    rintro d hd ⟨k, st', hst', he⟩
    obtain ⟨st₀, hst₀, he₀⟩ := hacts.flows k st' hst'
    rcases hi.pending d hd ⟨k, st₀, hst₀, he₀.symm.trans he⟩ with hp | ⟨e', hp, hr⟩
    · exact .inl hp
    · exact .inr ⟨e', by rw [hes]; exact List.mem_append_left _ hp, hr⟩

/-- A task of a connection that is current, or whose key has no flow. -/
theorem ordered_runTask {j : Nat} {t : Task} {conn : Conn} (hi : Ordered s)
    (ht : s.tasks[j]? = some t) (hconn : s.conns[t.conn]? = some conn)
    (hk : Keyed ((s.taking j).runTask conn.key t))
    (hcur : ∀ st ∈ s.flows conn.key, (t.acts = true → st.conn = t.conn) ∧
      (t = .closeFlow t.conn → Task.sendRST t.conn ∉ s.tasks)) :
    Ordered ((s.taking j).runTask conn.key t) := by
  cases t with
  | onServerData c data isComplete error =>
    have hi' := ordered_taking hi ht (by simp)
    cases ha : (Task.onServerData c data isComplete error).acts with
    | false => exact ordered_packet_acts hi' (acts_idle ha) hk
    | true =>
      refine ordered_acts hi' (acts_runTask _) hk (by simp [Task.cause]) fun st hst d hd => ?_
      cases hd
      exact (hcur st hst).1 ha
  | sendRST c => exact ordered_sendRST hi ht hconn hk fun st hst => (hcur st hst).1 rfl
  | closeFlow c =>
    have hi' := ordered_taking hi ht (by simp)
    refine ordered_closeFlow hi' hk fun st hst => ?_
    obtain ⟨hc, hnr⟩ := hcur st hst
    have hc : st.conn = c := hc rfl
    refine ⟨hc, ?_⟩
    exact (hi.pending c (List.mem_of_getElem? ht) ⟨conn.key, st, hst, hc⟩).resolve_left (hnr rfl)

/-- New tasks of a callback. -/
theorem ordered_callback {c : ConnId} {conn : Conn} {f : Conn → Conn} {ts : List Task}
    (hi : Ordered s) (hconn : s.conns[c]? = some conn)
    (hk : Keyed { s.modifyConn c f with tasks := s.tasks ++ ts }) (hts : ∀ t ∈ ts, t.conn = c)
    (hrst : Task.closeFlow c ∈ ts → Task.sendRST c ∈ ts) :
    Ordered { s.modifyConn c f with tasks := s.tasks ++ ts } where
  keyed := hk
  notMixed := hi.notMixed
  resetFirst := hi.resetFirst
  tasks t ht := by
    have hlen : (s.modifyConn c f).conns.length = s.conns.length := by simp [State.modifyConn]
    rw [show ({ s.modifyConn c f with tasks := s.tasks ++ ts } : State).conns.length =
      s.conns.length from hlen]
    rcases List.mem_append.mp ht with ht | ht
    · exact hi.tasks t ht
    · rw [hts t ht]
      exact (List.getElem?_eq_some_iff.mp hconn).1
  pending d hd hcur := by
    rcases List.mem_append.mp hd with hold | hnew
    · exact (hi.pending d hold hcur).imp_left fun h => List.mem_append_left _ h
    · obtain rfl : d = c := hts _ hnew
      exact .inl (List.mem_append_right _ (hrst hnew))

theorem ordered_step {a : Action} (hi : Ordered s) (hc : Current s a) (h : step s a = some s') :
    Ordered s' := by
  have hk := keyed_step hi.keyed h
  cases a with
  | tick d =>
    cases h
    exact ⟨hk, hi.notMixed, hi.resetFirst, hi.tasks, hi.pending⟩
  | packet key tcp serverISN =>
    cases h
    revert hk
    unfold State.handlePacket
    split
    · exact fun hk => ordered_packet_acts hi acts_closeFlow hk
    · split
      · exact fun hk => ordered_openFlow hi hk
      · split
        · exact fun _ => hi
        · exact fun hk => ordered_packet_acts hi (acts_handleSegment tcp ‹_›) hk
  | sweep =>
    cases h
    exact ordered_packet_acts (k := ⟨[], 0, [], 0⟩) hi (acts_removeFlows _) hk
  | cancelAll =>
    cases h
    exact ordered_packet_acts (k := ⟨[], 0, [], 0⟩) hi (acts_removeFlows _) hk
  | received c data isComplete error =>
    simp only [step] at h
    split at h
    · cases h
    · rename_i conn hconn
      split at h <;> cases h
      exact ordered_callback hi hconn hk (by simp [Task.conn]) (by simp)
  | failed c =>
    simp only [step] at h
    split at h
    · cases h
    · rename_i conn hconn
      split at h <;> cases h
      exact ordered_callback hi hconn hk (by simp [Task.conn]) (by simp)
  | runTask j =>
    simp only [step] at h
    split at h
    · cases h
    · rename_i t ht
      split at h
      · cases h
      · rename_i conn hconn
        cases h
        exact ordered_runTask hi ht hconn hk fun st hst => hc t ht conn hconn st hst

def keyA : FlowKey := ⟨ascii "10.99.0.1", 50000, ascii "192.0.2.7", 443⟩

def syn : TCPHeader := { seq := 7, isSYN := true, isACK := false }

/-- The client's second SYN cancels the first connection, whose `receive` then ends with an
error. -/
def replaced : List Action :=
  [.packet keyA syn 1, .packet keyA syn 2, .received 0 [] false true, .runTask 0]

/-- The close of a failed flow overtakes its reset. -/
def overtaken : List Action := [.packet keyA syn 1, .failed 0, .runTask 1, .runTask 0]

def udpKeyA : UdpForwarder.FlowKey := ⟨ascii "10.99.0.1", 50000, ascii "192.0.2.7", 53⟩

/-- A dead UDP connection is replaced, and its `receive` then ends with an error. -/
def udpReplaced : List UdpForwarder.Action :=
  [.packet udpKeyA [1], .dies 0, .packet udpKeyA [2], .received 0 [] false true, .runTask 0]

end TrafficMonitor.TcpRelay
