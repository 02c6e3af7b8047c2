import TrafficMonitor.Client.DataLine
import TrafficMonitor.Basic.Runs

/-!
# The client's sender loop

One turn of `senderLoop` is two steps: `drain` swaps the flow table out and encodes it
into the flush buffer, and `finish` is the rest of the loop body, with the outcome of
every call it makes. Packets are accumulated between any two steps. Beside the fields of
the code the state carries a ledger: the bytes accumulated so far, the bytes of the
D-lines that a successful write handed over, and whether the present flush buffer is
among them.

Proved here:

* `finish_cases`: a turn either hands over its flush buffer or leaves the ledger alone;
* `sendBufDrops_eq_zero`: no step of any run raises `buf_drop`;
* `accounted_of_run`: in a run that drains only when nothing unsent is left in the flush
  buffer, and whose totals stay below 2^64, no byte is lost;
* `drain_loses`: a drain over an unsent buffer loses it uncounted.

A failed reconnect leaves the buffer unsent: `failed_reconnect_loses_flush`.
-/

namespace TrafficMonitor.SenderLoop

open DataLine

/-! ## The flow table -/

/-- A captured packet, as `accumulateFlow` takes it. -/
structure Packet where
  iface : IfaceLabel
  srcIp : AddrText
  dstIp : AddrText
  bytes : UInt32

def Packet.key (m : Packet) : Bytes × Bytes × Bytes := (m.iface.text, m.srcIp.text, m.dstIp.text)

/-- `flowTable_[key] += bytes`, on 64-bit totals. -/
def addFlow (m : Packet) : List Flow → List Flow
  | [] => [⟨m.iface, m.srcIp, m.dstIp, m.bytes.toNat % 2 ^ 64, Nat.mod_lt _ (by decide)⟩]
  | f :: fs =>
    if key f.record = m.key then
      { f with total := (f.total + m.bytes.toNat) % 2 ^ 64, total_lt := Nat.mod_lt _ (by decide) } :: fs
    else f :: addFlow m fs

theorem key_addFlow (m : Packet) (fs : List Flow) :
    (addFlow m fs).map (fun f => key f.record) =
      if m.key ∈ fs.map (fun f => key f.record) then fs.map (fun f => key f.record)
      else fs.map (fun f => key f.record) ++ [m.key] := by
  induction fs with
  | nil => simp [addFlow, key, Flow.record, Packet.key]
  | cons f fs ih =>
    by_cases h : key f.record = m.key
    · simp only [addFlow, h, ↓reduceIte, List.map_cons, List.mem_cons, true_or, List.cons.injEq,
        and_true]
      exact h
    · have h' : ¬ m.key = key f.record := fun e => h e.symm
      simp only [addFlow, h, ↓reduceIte, List.map_cons, ih, List.mem_cons, h', false_or]
      split <;> rfl

def accumulate (t : FlowTable) (m : Packet) : FlowTable where
  flows := addFlow m t.flows
  nodup := by
    rw [key_addFlow]
    split
    · exact t.nodup
    · rename_i h
      exact List.nodup_append.mpr ⟨t.nodup, by simp, fun a ha b hb e => h (by simp_all)⟩

def emptyTable : FlowTable := ⟨[], by simp⟩

/-- The bytes of all flows. -/
def bytesOf (t : FlowTable) : Nat := (t.flows.map (·.total)).sum

/-- The packet does not overflow the total of its flow. -/
def Fits64 (t : FlowTable) (m : Packet) : Prop :=
  ∀ f ∈ t.flows, key f.record = m.key → f.total + m.bytes.toNat < 2 ^ 64

instance (t : FlowTable) (m : Packet) : Decidable (Fits64 t m) :=
  inferInstanceAs (Decidable (∀ f ∈ t.flows, _ → _))

private theorem sum_addFlow (m : Packet) (fs : List Flow)
    (h : ∀ f ∈ fs, key f.record = m.key → f.total + m.bytes.toNat < 2 ^ 64) :
    ((addFlow m fs).map (·.total)).sum = (fs.map (·.total)).sum + m.bytes.toNat := by
  induction fs with
  | nil =>
    have := m.bytes.toNat_lt
    simp only [addFlow, List.map_cons, List.map_nil, List.sum_cons, List.sum_nil]
    omega
  | cons f fs ih =>
    by_cases hk : key f.record = m.key
    · have hlt := h f (by simp) hk
      simp only [addFlow, hk, ↓reduceIte, List.map_cons, List.sum_cons, Nat.mod_eq_of_lt hlt]
      omega
    · have := ih fun g hg => h g (by simp [hg])
      simp only [addFlow, hk, ↓reduceIte, List.map_cons, List.sum_cons, this]
      omega

theorem bytesOf_accumulate {t : FlowTable} {m : Packet} (h : Fits64 t m) :
    bytesOf (accumulate t m) = bytesOf t + m.bytes.toNat := sum_addFlow m t.flows h

/-! ## The loop -/

inductive Pc | waiting | encoded | stopped
  deriving DecidableEq, Repr

/-- The sender's fields (clock readings in nanoseconds, the others in seconds as the code
keeps them), and the ledger. -/
structure Sender where
  pc : Pc := .waiting
  flowTable : FlowTable := emptyTable
  flush : FlowTable := emptyTable
  connected : Bool := false
  reconnectFailures : Nat := 0
  lastReconnectAttempt : Nat := 0
  lastHealthReportSec : Nat := 0
  lastReannounceTime : Nat := 0
  sessionStart : Nat := 0
  sendBufDrops : Nat := 0
  accumulated : Nat := 0
  handed : Nat := 0
  sent : Bool := false

structure SenderConfig where
  reconnectMaxAttempts : Nat := 10
  reconnectIntervalSec : Nat := 60

/-- `connectUnlocked`: failed at any stage, or connected, with the time of the announcement
if there were addresses to announce, and of the session's start. -/
inductive Connect
  | failed
  | ok (announcedAt : Option Nat) (sessionStart : Nat)
  deriving DecidableEq, Repr

/-- `sendAnnounce`: no addresses to announce, a failed write, or sent at a time. -/
inductive Announce
  | noAddrs
  | failed
  | sent (time : Nat)
  deriving DecidableEq, Repr

/-- The outcome of every call of one turn. -/
structure Turn where
  now : Nat
  netChanged : Bool := false
  reconnectNow : Nat := now
  connect : Connect := .failed
  pollOk : Bool := true
  announce : Announce := .noAddrs
  healthOk : Bool := true
  sessionNow : Nat := now
  writeOk : Bool := true
  deriving DecidableEq, Repr

def sec (ns : Nat) : Nat := ns / 1000000000

def flushEmpty (s : Sender) : Bool := encodeFlush s.flush = []

def healthDue (s : Sender) (t : Turn) : Bool := s.lastHealthReportSec + kHealthIntervalSec ≤ sec t.now

/-- Nothing to flush and no periodic task: the two `continue`s that skip the rest. -/
def idle (s : Sender) (t : Turn) : Bool := flushEmpty s && !t.netChanged && !healthDue s t

/-- `flowTable_` and `flowLocalTable_` are swapped, and the snapshot is encoded. -/
def drain (s : Sender) : Sender :=
  { s with pc := .encoded, flowTable := emptyTable, flush := s.flowTable, sent := false }

def pollCtrl (t : Turn) (s : Sender) : Sender := if t.pollOk then s else { s with connected := false }

def reannounce (t : Turn) (s : Sender) : Sender :=
  if s.connected && t.netChanged && s.lastReannounceTime + kAnnounceRateLimitSec ≤ sec t.now then
    match t.announce with
    | .noAddrs => { s with lastReannounceTime := sec t.now }
    | .failed => { s with lastReannounceTime := sec t.now, connected := false }
    | .sent time => { s with lastReannounceTime := sec time }
  else s

/-- `due` is read at the top of the turn, before the line is sent. -/
def sendHealth (t : Turn) (due : Bool) (s : Sender) : Sender :=
  if s.connected && due then
    { s with lastHealthReportSec := sec t.now, connected := t.healthOk }
  else s

def checkSessionAge (t : Turn) (s : Sender) : Sender :=
  if s.connected && kMaxSessionSeconds ≤ sec (t.sessionNow - s.sessionStart) then
    { s with connected := false }
  else s

/-- The flush is written; the buffer keeps its bytes until the next turn clears it. -/
def writeFlush (t : Turn) (s : Sender) : Sender :=
  if !flushEmpty s && s.connected then
    if t.writeOk then { s with handed := s.handed + bytesOf s.flush, sent := true }
    else { s with connected := false }
  else s

/-- The loop body from the poll on, on a live connection. -/
def exchange (s : Sender) (t : Turn) : Sender :=
  let due := healthDue s t
  let skip := idle s t
  let s := pollCtrl t s
  if skip then s
  else writeFlush t (checkSessionAge t (sendHealth t due (reannounce t s)))

/-- The loop body after the encoding. -/
def finish (cfg : SenderConfig) (s : Sender) (t : Turn) : Sender :=
  let s := { s with pc := .waiting }
  if s.connected then exchange s t
  else if idle s t then s
  else if 0 < s.reconnectFailures ∧
      sec (t.reconnectNow - s.lastReconnectAttempt) < cfg.reconnectIntervalSec then s
  else
    let s := { s with lastReconnectAttempt := t.reconnectNow }
    match t.connect with
    | .failed =>
      let s := { s with reconnectFailures := s.reconnectFailures + 1 }
      if cfg.reconnectMaxAttempts ≤ s.reconnectFailures then { s with pc := .stopped } else s
    | .ok announcedAt sessionStart =>
      exchange { s with
        connected := true
        reconnectFailures := 0
        lastReannounceTime := (announcedAt.map sec).getD s.lastReannounceTime
        sessionStart := sessionStart } t

inductive Action
  | packet (m : Packet)
  | drain
  | finish (t : Turn)
  | stop

def step (cfg : SenderConfig) (s : Sender) : Action → Option Sender
  | .packet m => some { s with
      flowTable := accumulate s.flowTable m
      accumulated := s.accumulated + m.bytes.toNat }
  | .drain => if s.pc = .waiting then some (drain s) else none
  | .finish t => if s.pc = .encoded then some (finish cfg s t) else none
  | .stop => if s.pc = .waiting then some { s with pc := .stopped } else none

/-! ## The ledger -/

/-- The bytes in the flush buffer that were not handed over. -/
def unsent (s : Sender) : Nat := if s.sent then 0 else bytesOf s.flush

def Balanced (s : Sender) : Prop := s.accumulated = s.handed + bytesOf s.flowTable + unsent s

/-- Every byte was handed over, or is still held, or `buf_drop` says that some are missing. -/
def Accounted (s : Sender) : Prop := Balanced s ∨ 0 < s.sendBufDrops

instance (s : Sender) : Decidable (Accounted s) := inferInstanceAs (Decidable (_ = _ ∨ _ < _))

/-! ## What a step does to the ledger -/

/-- Nothing that the ledger depends on has changed. -/
structure SameLedger (s s' : Sender) : Prop where
  flowTable : s'.flowTable = s.flowTable
  flush : s'.flush = s.flush
  accumulated : s'.accumulated = s.accumulated
  sendBufDrops : s'.sendBufDrops = s.sendBufDrops
  handed : s'.handed = s.handed
  sent : s'.sent = s.sent

theorem SameLedger.refl (s : Sender) : SameLedger s s := ⟨rfl, rfl, rfl, rfl, rfl, rfl⟩

theorem SameLedger.trans {s s' s'' : Sender} (h : SameLedger s s') (h' : SameLedger s' s'') :
    SameLedger s s'' :=
  ⟨h'.flowTable.trans h.flowTable, h'.flush.trans h.flush, h'.accumulated.trans h.accumulated,
    h'.sendBufDrops.trans h.sendBufDrops, h'.handed.trans h.handed, h'.sent.trans h.sent⟩

theorem pollCtrl_same (t : Turn) (s : Sender) : SameLedger s (pollCtrl t s) := by
  unfold pollCtrl
  split
  · exact .refl s
  · exact ⟨rfl, rfl, rfl, rfl, rfl, rfl⟩

theorem reannounce_same (t : Turn) (s : Sender) : SameLedger s (reannounce t s) := by
  unfold reannounce
  split
  · split <;> exact ⟨rfl, rfl, rfl, rfl, rfl, rfl⟩
  · exact .refl s

theorem sendHealth_same (t : Turn) (due : Bool) (s : Sender) : SameLedger s (sendHealth t due s) := by
  unfold sendHealth
  split
  · exact ⟨rfl, rfl, rfl, rfl, rfl, rfl⟩
  · exact .refl s

theorem checkSessionAge_same (t : Turn) (s : Sender) : SameLedger s (checkSessionAge t s) := by
  unfold checkSessionAge
  split
  · exact ⟨rfl, rfl, rfl, rfl, rfl, rfl⟩
  · exact .refl s

/-- The flush buffer of `s` was handed over, and nothing else happened to the ledger. -/
def HandsOver (s s' : Sender) : Prop :=
  SameLedger { s with handed := s.handed + bytesOf s.flush, sent := true } s'

theorem writeFlush_cases (t : Turn) (s : Sender) :
    SameLedger s (writeFlush t s) ∨ HandsOver s (writeFlush t s) := by
  unfold writeFlush
  split
  · split
    · exact .inr (.refl _)
    · exact .inl ⟨rfl, rfl, rfl, rfl, rfl, rfl⟩
  · exact .inl (.refl s)

theorem HandsOver.of_same {s s' s'' : Sender} (h : SameLedger s s') (h' : HandsOver s' s'') :
    HandsOver s s'' := by
  have h1 : SameLedger { s with handed := s.handed + bytesOf s.flush, sent := true }
      { s' with handed := s'.handed + bytesOf s'.flush, sent := true } :=
    ⟨h.flowTable, h.flush, h.accumulated, h.sendBufDrops, by simp only [h.handed, h.flush], rfl⟩
  exact h1.trans h'

theorem exchange_cases (s : Sender) (t : Turn) :
    SameLedger s (exchange s t) ∨ HandsOver s (exchange s t) := by
  have hpoll := pollCtrl_same t s
  simp only [exchange]
  split
  · exact .inl hpoll
  · have h := ((hpoll.trans (reannounce_same t _)).trans (sendHealth_same t (healthDue s t) _)).trans
      (checkSessionAge_same t _)
    rcases writeFlush_cases t
      (checkSessionAge t (sendHealth t (healthDue s t) (reannounce t (pollCtrl t s)))) with hw | hw
    · exact .inl (h.trans hw)
    · exact .inr (hw.of_same h)

/-- **One turn** either leaves the ledger alone or hands over the flush buffer. -/
theorem finish_cases (cfg : SenderConfig) (s : Sender) (t : Turn) :
    SameLedger s (finish cfg s t) ∨ HandsOver s (finish cfg s t) := by
  have same : ∀ s', SameLedger s s' → SameLedger s (exchange s' t) ∨ HandsOver s (exchange s' t) := by
    intro s' h
    rcases exchange_cases s' t with he | he
    · exact .inl (h.trans he)
    · exact .inr (he.of_same h)
  simp only [finish]
  split
  · exact same _ ⟨rfl, rfl, rfl, rfl, rfl, rfl⟩
  split
  · exact .inl ⟨rfl, rfl, rfl, rfl, rfl, rfl⟩
  split
  · exact .inl ⟨rfl, rfl, rfl, rfl, rfl, rfl⟩
  split
  · split <;> exact .inl ⟨rfl, rfl, rfl, rfl, rfl, rfl⟩
  · exact same _ ⟨rfl, rfl, rfl, rfl, rfl, rfl⟩

theorem exchange_pc (s : Sender) (t : Turn) : (exchange s t).pc = s.pc := by
  have hpoll : (pollCtrl t s).pc = s.pc := by unfold pollCtrl; split <;> rfl
  have hann : ∀ s, (reannounce t s).pc = s.pc := by
    intro s
    unfold reannounce
    split
    · split <;> rfl
    · rfl
  have hhealth : ∀ due s, (sendHealth t due s).pc = s.pc := by
    intro due s; unfold sendHealth; split <;> rfl
  have hage : ∀ s, (checkSessionAge t s).pc = s.pc := by
    intro s; unfold checkSessionAge; split <;> rfl
  have hwrite : ∀ s, (writeFlush t s).pc = s.pc := by
    intro s
    unfold writeFlush
    split
    · split <;> rfl
    · rfl
  simp only [exchange]
  split
  · exact hpoll
  · rw [hwrite, hage, hhealth, hann, hpoll]

theorem finish_pc (cfg : SenderConfig) (s : Sender) (t : Turn) : (finish cfg s t).pc ≠ .encoded := by
  simp only [finish]
  split
  · simp [exchange_pc]
  split
  · simp
  split
  · simp
  split
  · split <;> simp
  · simp [exchange_pc]

/-- What each action does. -/
theorem step_cases {cfg : SenderConfig} {s s' : Sender} {a : Action} (h : step cfg s a = some s') :
    (∃ m, a = .packet m ∧ s' = { s with
      flowTable := accumulate s.flowTable m, accumulated := s.accumulated + m.bytes.toNat }) ∨
    (a = .drain ∧ s' = drain s) ∨
    (∃ t, a = .finish t ∧ s.pc = .encoded ∧ s' = finish cfg s t) ∨
    (a = .stop ∧ s' = { s with pc := .stopped }) := by
  cases a with
  | packet m => exact .inl ⟨m, rfl, (Option.some.inj h).symm⟩
  | drain =>
    simp only [step, Option.ite_none_right_eq_some, Option.some.injEq] at h
    exact .inr (.inl ⟨rfl, h.2.symm⟩)
  | finish t =>
    simp only [step, Option.ite_none_right_eq_some, Option.some.injEq] at h
    exact .inr (.inr (.inl ⟨t, rfl, h.1, h.2.symm⟩))
  | stop =>
    simp only [step, Option.ite_none_right_eq_some, Option.some.injEq] at h
    exact .inr (.inr (.inr ⟨rfl, h.2.symm⟩))

/-- No step raises `buf_drop`. -/
theorem sendBufDrops_step {cfg : SenderConfig} {s s' : Sender} {a : Action}
    (h : step cfg s a = some s') : s'.sendBufDrops = s.sendBufDrops := by
  rcases step_cases h with ⟨m, rfl, rfl⟩ | ⟨rfl, rfl⟩ | ⟨t, rfl, _, rfl⟩ | ⟨rfl, rfl⟩
  · rfl
  · rfl
  · rcases finish_cases cfg s t with hs | hs
    · exact hs.sendBufDrops
    · exact hs.sendBufDrops
  · rfl

theorem sendBufDrops_eq_zero {cfg : SenderConfig} {acts : List Action} {s : Sender}
    (hr : Runs.run (step cfg) {} acts = some s) : s.sendBufDrops = 0 :=
  Runs.invariant_of_run (I := fun s => s.sendBufDrops = 0)
    (fun _ _ _ hi hs => (sendBufDrops_step hs).trans hi) rfl hr

/-! ## Runs without an unsent buffer -/

/-- The loop drains only over a buffer without unsent flows, and totals stay below 2^64. -/
def Guard (s : Sender) : Action → Prop
  | .packet m => Fits64 s.flowTable m
  | .drain => unsent s = 0
  | _ => True

instance (s : Sender) : ∀ a, Decidable (Guard s a)
  | .packet m => inferInstanceAs (Decidable (Fits64 s.flowTable m))
  | .drain => inferInstanceAs (Decidable (unsent s = 0))
  | .finish _ => inferInstanceAs (Decidable True)
  | .stop => inferInstanceAs (Decidable True)

/-- The ledger balances, and a buffer that awaits its write was not handed over. -/
def Inv (s : Sender) : Prop := Balanced s ∧ (s.pc = .encoded → s.sent = false)

theorem balanced_of_same {s s' : Sender} (h : SameLedger s s') (hb : Balanced s) : Balanced s' := by
  unfold Balanced unsent at *
  rw [h.accumulated, h.handed, h.flowTable, h.sent, h.flush]
  exact hb

theorem balanced_of_handsOver {s s' : Sender} (h : HandsOver s s') (hs : s.sent = false)
    (hb : Balanced s) : Balanced s' := by
  apply balanced_of_same h
  simp only [Balanced, unsent, hs, Bool.false_eq_true, ↓reduceIte] at hb ⊢
  omega

/-- A drain moves the table into the buffer, and forgets what was unsent there. -/
theorem balanced_drain {s : Sender} (hb : Balanced s) :
    (drain s).accumulated =
      (drain s).handed + bytesOf (drain s).flowTable + unsent (drain s) + unsent s := by
  have h0 : bytesOf emptyTable = 0 := rfl
  simp only [Balanced] at hb
  simp only [drain, h0, unsent, Bool.false_eq_true, ↓reduceIte] at hb ⊢
  omega

theorem inv_step {cfg : SenderConfig} {s s' : Sender} {a : Action} (hi : Inv s) (hg : Guard s a)
    (h : step cfg s a = some s') : Inv s' := by
  obtain ⟨hb, hp⟩ := hi
  rcases step_cases h with ⟨m, rfl, rfl⟩ | ⟨rfl, rfl⟩ | ⟨t, rfl, hpc, rfl⟩ | ⟨rfl, rfl⟩
  · refine ⟨?_, hp⟩
    have hsum := bytesOf_accumulate hg
    simp only [Balanced, unsent, hsum] at hb ⊢
    omega
  · have hd := balanced_drain hb
    rw [show unsent s = 0 from hg, Nat.add_zero] at hd
    exact ⟨hd, fun _ => rfl⟩
  · refine ⟨?_, fun he => absurd he (finish_pc cfg s t)⟩
    rcases finish_cases cfg s t with hs | hs
    · exact balanced_of_same hs hb
    · exact balanced_of_handsOver hs (hp hpc) hb
  · exact ⟨hb, fun he => by cases he⟩

theorem inv_init : Inv {} := ⟨(rfl : (0 : Nat) = 0 + 0 + 0), fun h => by cases h⟩

/-- In a run whose drains find nothing unsent and whose totals do not overflow, every byte
accumulated was handed over or is still held, in every state reached. -/
theorem accounted_of_run (cfg : SenderConfig) (acts : List Action) (s : Sender)
    (hm : Runs.Meets (step cfg) Guard {} acts) (hr : Runs.run (step cfg) {} acts = some s) :
    Accounted s :=
  .inl (Runs.invariant_of_meets (I := Inv) (fun _ _ _ hi hg hs => inv_step hi hg hs)
    inv_init hm hr).1

/-- A drain over an unsent buffer loses it, and nothing counts the loss. -/
theorem drain_loses {s : Sender} (hb : Balanced s) (hd : s.sendBufDrops = 0) (hu : 0 < unsent s) :
    ¬ Accounted (drain s) := by
  have h := balanced_drain hb
  rintro (hb' | hpos)
  · unfold Balanced at hb'
    omega
  · have : (drain s).sendBufDrops = 0 := hd
    omega

/-! ## A failed reconnect -/

/-- A packet of 1500 bytes on eth0. -/
def onePacket : Packet where
  iface := enumerateLabel none (ascii "eth0")
  srcIp := hostOne
  dstIp := hostTwo
  bytes := 1500

/-- The packet is flushed over a connection that comes up in the same turn. -/
theorem accounted_of_run_one_flush :
    ∃ s, Runs.run (step {}) {} [.packet onePacket, .drain,
      .finish { now := 100000000000, connect := .ok none 100000000000 }, .drain] = some s ∧
      Accounted s :=
  ⟨_, rfl, accounted_of_run {} [.packet onePacket, .drain,
    .finish { now := 100000000000, connect := .ok none 100000000000 }, .drain] _ (by decide) rfl⟩

/-- The reconnect of its turn fails, and the next turn clears the buffer. -/
theorem failed_reconnect_loses_flush :
    ∃ s, Runs.run (step {}) {} [.packet onePacket, .drain,
      .finish { now := 100000000000, connect := .failed }, .drain] = some s ∧ ¬ Accounted s :=
  ⟨_, rfl, by decide⟩

end TrafficMonitor.SenderLoop
