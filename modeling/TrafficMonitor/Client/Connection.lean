import TrafficMonitor.Client.Control
import TrafficMonitor.Client.FlushSize
import TrafficMonitor.Client.PollCtrlLines
import TrafficMonitor.System.Announce

/-!
# The client's connection (`client_impl.cpp`)

The sender loop with what it keeps beside `SenderLoop.Sender`: the file logger, the
accumulator for unfinished control lines, the compressor, and the bytes that went out on
the present connection. A pass takes the outcome of each call of the transport; which of
its writes are made, and what they write, follows from the state.

Proved here:

* `sendAnnounce_ok`: an announcement succeeds when none of its writes fails;
* `pass_sender`: a pass does to the sender what `SenderLoop.finish` does with the outcomes;
* `step_cases`: what one step can do.
-/

namespace TrafficMonitor.Connection

open Bytes Control DataLine FlushSize PollCtrlLines SenderLoop WsServer

/-! ## Writing -/

/-- `ZlibDeflater`: a compressor as it is constructed, and what it makes of some data. -/
structure Zlib (Z : Type) where
  init : Z
  feed : Z → Bytes → Z × Bytes

/-- One call of `deflateAndWrite`: the mask key of its frame, and after how many bytes the
transport's `writeExact` fails. A fatal error of zlib is a failure after none. -/
structure Write where
  maskKey : Mask := zeroMask
  cut : Option Nat := none

/-- The present connection, or the last one: what was written on it after the handshake, and
how much that was when a write failed first. -/
structure Wire (Z : Type) where
  deflater : Option Z := none
  sent : Bytes := []
  failedAt : Option Nat := none

structure ConnConfig (Z : Type) extends SenderConfig where
  mode : TransportMode
  zlib : Zlib Z
  auto_update : Bool
  sha256 : Bytes → Bytes

variable {Z : Type}

/-- The bytes that the transport makes of a buffer. -/
def framed (mode : TransportMode) (maskKey : Mask) (buf : Bytes) : Bytes :=
  match mode with
  | .TcpTls => buf
  | .WebSocket => if buf = [] then [] else buildClientFrame buf maskKey

def compress (zlib : Zlib Z) (deflater : Option Z) (data : Bytes) : Option Z × Bytes :=
  match deflater with
  | none => (none, data)
  | some z => (some (zlib.feed z data).1, (zlib.feed z data).2)

def Wire.deflateAndWrite (cfg : ConnConfig Z) (w : Wire Z) (data : Bytes) (io : Write) :
    Wire Z × Bool :=
  if data = [] then (w, true)
  else
    let (deflater, buf) := compress cfg.zlib w.deflater data
    let bytes := framed cfg.mode io.maskKey buf
    match io.cut with
    | none => ({ w with deflater := deflater, sent := w.sent ++ bytes }, true)
    | some n =>
      let sent := w.sent ++ bytes.take n
      ({ deflater := deflater, sent := sent, failedAt := w.failedAt.or (some sent.length) }, false)

/-- Lines are written up to the first failure. -/
def Wire.writeWhile (cfg : ConnConfig Z) (writes : Nat → Write) : Nat → Wire Z → List Bytes →
    Wire Z × Bool
  | _, w, [] => (w, true)
  | k, w, l :: ls =>
    let (w, ok) := w.deflateAndWrite cfg l (writes k)
    if ok then Wire.writeWhile cfg writes (k + 1) w ls else (w, false)

/-- `sendAnnounce`: the addresses found, the external one (empty if there is none), and the
time at the end. -/
structure AnnounceIo where
  lanAddrs : List Announce.LanAddress := []
  extIp : Bytes := []
  writes : Nat → Write := fun _ => {}
  time : Nat := 0

def AnnounceIo.lines (io : AnnounceIo) : List Bytes :=
  if io.lanAddrs = [] then []
  else (Announce.announceLines io.lanAddrs io.extIp).map (· ++ [LF])

def Wire.sendAnnounce (cfg : ConnConfig Z) (io : AnnounceIo) (w : Wire Z) : Wire Z × Bool :=
  w.writeWhile cfg io.writes 0 io.lines

/-! ## The sender loop -/

structure Conn (Z : Type) where
  sender : Sender := {}
  logger : FileLogger
  ctrlInBuf : Bytes := []
  wire : Wire Z := {}
  /-- The writes that `processCtrlLine` has made in the present pass. -/
  replied : Nat := 0
  /-- What was read on the present connection, and the lines that were processed. -/
  received : Bytes := []
  processed : List Bytes := []

/-- `connectUnlocked`: it fails before the transport is live, or the transport is live, with
or without compression. -/
inductive ConnectIo
  | failed
  | live (kCapZlib : Bool) (announce : AnnounceIo) (sessionStart : Nat)

/-- `pollCtrlLines`: it fails, or there is nothing, or `SSL_read` returns some bytes; the
WebSocket transport keeps them to itself and gives lines. -/
inductive Poll
  | failed
  | nothing
  | read (r : TlsRead)
  | frames (lines : List Bytes)

def Poll.Fits (mode : TransportMode) : Poll → Prop
  | .failed | .nothing => True
  | .read _ => mode = .TcpTls
  | .frames _ => mode = .WebSocket

instance (mode : TransportMode) : ∀ p : Poll, Decidable (p.Fits mode)
  | .failed | .nothing => isTrue trivial
  | .read _ => inferInstanceAs (Decidable (mode = .TcpTls))
  | .frames _ => inferInstanceAs (Decidable (mode = .WebSocket))

/-- The outcome of every call of one pass; `replies` are the writes of `processCtrlLine`. -/
structure Pass where
  now : Nat
  netChanged : Bool := false
  reconnectNow : Nat := now
  connect : ConnectIo := .failed
  poll : Poll := .nothing
  updates : Bytes → List UpdateEvent := fun _ => []
  replies : List Write := []
  announce : AnnounceIo := {}
  hText : Bytes := []
  health : Write := {}
  sessionNow : Nat := now
  flush : Write := {}

/-- `closeUnlocked` -/
def close (s : Conn Z) : Conn Z :=
  { s with
    sender := { s.sender with connected := false }
    wire := { s.wire with deflater := none } }

/-- `connectUnlocked` on a client without a connection, and whether it succeeds. -/
def connectUnlocked (cfg : ConnConfig Z) (s : Conn Z) : ConnectIo → Conn Z × Bool
  | .failed => (s, false)
  | .live kCapZlib io sessionStart =>
    let (wire, ok) := Wire.sendAnnounce cfg io
      { deflater := if kCapZlib then some cfg.zlib.init else none }
    let s := { s with wire := wire, received := [], processed := [] }
    if ok then
      ({ s with sender := { s.sender with
          connected := true
          lastReannounceTime := if io.lanAddrs = [] then s.sender.lastReannounceTime else sec io.time
          sessionStart := sessionStart } }, true)
    else (close s, false)

/-- `processCtrlLine`, which does not look at the results of its writes, but for the chunks
of a file. -/
def processLine (cfg : ConnConfig Z) (e : Pass) (s : Conn Z) (line : Bytes) : Conn Z :=
  let out := processCtrlLine
    { logger := s.logger, auto_update := cfg.auto_update, updates := e.updates line,
      sha256 := cfg.sha256, writeOk := fun k => (e.replies.getD (s.replied + k) {}).cut = none } line
  { s with
    logger := out.1
    wire := (out.2.zip (e.replies.drop s.replied)).foldl
      (fun w x => (w.deflateAndWrite cfg x.1 x.2).1) s.wire
    replied := s.replied + out.2.length
    processed := s.processed ++ [line] }

/-- The poll, and the processing of the lines it gives. -/
def poll (cfg : ConnConfig Z) (e : Pass) (s : Conn Z) : Conn Z :=
  match e.poll with
  | .failed => close s
  | .nothing => s
  | .read r =>
    let c := TcpConn.pollCtrlLines ⟨s.ctrlInBuf, [r], []⟩ true
    c.out.foldl (processLine cfg e) { s with ctrlInBuf := c.inBuf, received := s.received ++ r.data }
  | .frames lines => lines.foldl (processLine cfg e) s

/-- The announcement after a network change. -/
def reannounce (cfg : ConnConfig Z) (e : Pass) (s : Conn Z) : Conn Z :=
  if s.sender.connected && e.netChanged &&
      s.sender.lastReannounceTime + kAnnounceRateLimitSec ≤ sec e.now then
    let s := { s with sender := { s.sender with lastReannounceTime := sec e.now } }
    let (wire, ok) := Wire.sendAnnounce cfg e.announce s.wire
    if ok then
      { s with wire := wire, sender := { s.sender with lastReannounceTime :=
          if e.announce.lanAddrs = [] then s.sender.lastReannounceTime else sec e.announce.time } }
    else close { s with wire := wire }
  else s

def hLine (text : Bytes) : Bytes := kHealthLinePrefix ++ text ++ [LF]

def sendHealth (cfg : ConnConfig Z) (e : Pass) (healthDue : Bool) (s : Conn Z) : Conn Z :=
  if s.sender.connected && healthDue then
    let s := { s with sender := { s.sender with lastHealthReportSec := sec e.now } }
    let (wire, ok) := s.wire.deflateAndWrite cfg (hLine e.hText) e.health
    if ok then { s with wire := wire } else close { s with wire := wire }
  else s

def checkSessionAge (e : Pass) (s : Conn Z) : Conn Z :=
  if s.sender.connected && kMaxSessionSeconds ≤ sec (e.sessionNow - s.sender.sessionStart) then close s
  else s

def writeFlush (cfg : ConnConfig Z) (e : Pass) (s : Conn Z) : Conn Z :=
  if !flushEmpty s.sender && s.sender.connected then
    let (wire, ok) := s.wire.deflateAndWrite cfg (encodeFlush s.sender.flush) e.flush
    if ok then { s with
      wire := wire
      sender := { s.sender with handed := s.sender.handed + bytesOf s.sender.flush, sent := true } }
    else close { s with wire := wire }
  else s

/-- The outcomes as `SenderLoop` has them. -/
def AnnounceIo.ok (io : AnnounceIo) : Bool :=
  (List.range io.lines.length).all fun k => (io.writes k).cut = none

def AnnounceIo.outcome (io : AnnounceIo) : SenderLoop.Announce :=
  if !io.ok then .failed else if io.lanAddrs = [] then .noAddrs else .sent io.time

def ConnectIo.outcome : ConnectIo → Connect
  | .failed => .failed
  | .live _ io sessionStart =>
    if io.ok then .ok (if io.lanAddrs = [] then none else some io.time) sessionStart else .failed

def Poll.ok : Poll → Bool
  | .failed => false
  | _ => true

def Pass.turn (e : Pass) : Turn where
  now := e.now
  netChanged := e.netChanged
  reconnectNow := e.reconnectNow
  connect := e.connect.outcome
  pollOk := e.poll.ok
  announce := e.announce.outcome
  healthOk := e.health.cut = none
  sessionNow := e.sessionNow
  writeOk := e.flush.cut = none

/-- The pass from the poll on, on a live connection. -/
def exchange (cfg : ConnConfig Z) (s : Conn Z) (e : Pass) : Conn Z :=
  let healthDue := healthDue s.sender e.turn
  let skip := idle s.sender e.turn
  let s := poll cfg e s
  if skip then s
  else writeFlush cfg e (checkSessionAge e (sendHealth cfg e healthDue (reannounce cfg e s)))

/-- The pass has no connection, and tries to set one up. -/
def tries (cfg : ConnConfig Z) (s : Conn Z) (e : Pass) : Bool :=
  !s.sender.connected && !idle s.sender e.turn &&
    !(0 < s.sender.reconnectFailures &&
      sec (e.reconnectNow - s.sender.lastReconnectAttempt) < cfg.reconnectIntervalSec)

/-- After a failed attempt the loop goes on, or gives up. -/
def countFailure (cfg : SenderConfig) (s : Sender) : Sender :=
  let s := { s with reconnectFailures := s.reconnectFailures + 1 }
  if cfg.reconnectMaxAttempts ≤ s.reconnectFailures then { s with pc := .stopped } else s

def pass (cfg : ConnConfig Z) (s : Conn Z) (e : Pass) : Conn Z :=
  let s := { s with sender := { s.sender with pc := .waiting }, replied := 0 }
  if s.sender.connected then exchange cfg s e
  else if !tries cfg s e then s
  else
    let (s, ok) := connectUnlocked cfg
      { s with sender := { s.sender with lastReconnectAttempt := e.reconnectNow } } e.connect
    if ok then exchange cfg { s with sender := { s.sender with reconnectFailures := 0 } } e
    else { s with sender := countFailure cfg.toSenderConfig s.sender }

inductive Action
  | packet (m : SenderLoop.Packet)
  | drain
  | finish (e : Pass)
  | connectOnce (io : ConnectIo)
  /-- The log directory changes, or the client's own log. -/
  | files (logger : FileLogger)
  | close

/-- A pass has as many outcomes for `processCtrlLine` as it makes writes there. -/
def step (cfg : ConnConfig Z) (s : Conn Z) : Action → Option (Conn Z)
  | .packet m => (SenderLoop.step cfg.toSenderConfig s.sender (.packet m)).map ({ s with sender := · })
  | .drain => (SenderLoop.step cfg.toSenderConfig s.sender .drain).map ({ s with sender := · })
  | .finish e =>
    if s.sender.pc = .encoded ∧ e.poll.Fits cfg.mode ∧ (pass cfg s e).replied = e.replies.length then
      some (pass cfg s e)
    else none
  | .connectOnce io => some (if s.sender.connected then s else (connectUnlocked cfg s io).1)
  | .files logger => some { s with logger := logger }
  | .close =>
    if s.sender.pc = .encoded then none
    else some (close { s with sender := { s.sender with pc := .stopped } })

/-! ## Writes -/

variable {cfg : ConnConfig Z} {e : Pass}

theorem deflateAndWrite_ok (cfg : ConnConfig Z) (w : Wire Z) {data : Bytes} (hd : data ≠ []) (io : Write) :
    (w.deflateAndWrite cfg data io).2 = decide (io.cut = none) := by
  unfold Wire.deflateAndWrite
  rw [if_neg hd]
  cases io.cut <;> rfl

theorem writeWhile_ok (writes : Nat → Write) (k : Nat) (w : Wire Z) {ls : List Bytes}
    (hls : ∀ l ∈ ls, l ≠ []) : (w.writeWhile cfg writes k ls).2 =
      (List.range ls.length).all fun i => (writes (k + i)).cut = none := by
  induction ls generalizing k w with
  | nil => rfl
  | cons l ls ih =>
    have hl := deflateAndWrite_ok cfg w (hls l (by simp)) (writes k)
    have hrest := fun w => ih (k + 1) w fun l hl => hls l (by simp [hl])
    rw [List.length_cons, List.range_succ_eq_map, List.all_cons, List.all_map, Nat.add_zero]
    have hshift : ((fun i => decide ((writes (k + i)).cut = none)) ∘ Nat.succ) =
        fun i => decide ((writes (k + 1 + i)).cut = none) := by
      funext i
      rw [Function.comp_apply, Nat.succ_eq_add_one, Nat.add_assoc, Nat.add_comm 1]
    rw [hshift, Wire.writeWhile]
    dsimp only
    rw [hl]
    by_cases hk : (writes k).cut = none
    · simp only [hk, decide_true, ↓reduceIte, hrest, Bool.true_and]
    · simp only [hk, decide_false, Bool.false_eq_true, ↓reduceIte, Bool.false_and]

theorem AnnounceIo.lines_ne_nil (io : AnnounceIo) : ∀ l ∈ io.lines, l ≠ [] := by
  intro l hl
  unfold AnnounceIo.lines at hl
  split at hl
  · cases hl
  · obtain ⟨m, -, rfl⟩ := List.mem_map.mp hl
    simp

/-- An announcement succeeds when none of its writes fails. -/
theorem sendAnnounce_ok (io : AnnounceIo) (w : Wire Z) : (w.sendAnnounce cfg io).2 = io.ok := by
  rw [Wire.sendAnnounce, writeWhile_ok _ _ _ io.lines_ne_nil]
  simp only [AnnounceIo.ok, Nat.zero_add]

theorem hLine_ne_nil (text : Bytes) : hLine text ≠ [] := by simp [hLine]

/-! ## The sender in a pass -/

theorem processLines_sender (lines : List Bytes) (s : Conn Z) :
    (lines.foldl (processLine cfg e) s).sender = s.sender := by
  induction lines generalizing s with
  | nil => rfl
  | cons l ls ih => exact ih _

theorem poll_sender (s : Conn Z) :
    (poll cfg e s).sender = SenderLoop.pollCtrl e.turn s.sender := by
  unfold poll SenderLoop.pollCtrl Pass.turn
  cases e.poll with
  | failed => rfl
  | nothing => rfl
  | read r => exact processLines_sender _ _
  | frames lines => exact processLines_sender _ _

theorem reannounce_sender (s : Conn Z) :
    (reannounce cfg e s).sender = SenderLoop.reannounce e.turn s.sender := by
  unfold reannounce SenderLoop.reannounce
  by_cases h : (s.sender.connected && e.netChanged &&
      decide (s.sender.lastReannounceTime + kAnnounceRateLimitSec ≤ sec e.now)) = true
  · have h' : (s.sender.connected && e.turn.netChanged &&
        decide (s.sender.lastReannounceTime + kAnnounceRateLimitSec ≤ sec e.turn.now)) = true := h
    rw [if_pos h, if_pos h']
    dsimp only
    rw [sendAnnounce_ok]
    have hout : e.turn.announce = e.announce.outcome := rfl
    rw [hout, AnnounceIo.outcome]
    cases e.announce.ok with
    | false => rfl
    | true => by_cases ha : e.announce.lanAddrs = [] <;> simp [ha, Pass.turn]
  · have h' : ¬ (s.sender.connected && e.turn.netChanged &&
        decide (s.sender.lastReannounceTime + kAnnounceRateLimitSec ≤ sec e.turn.now)) = true := h
    rw [if_neg h, if_neg h']

theorem sendHealth_sender (due : Bool) (s : Conn Z) :
    (sendHealth cfg e due s).sender = SenderLoop.sendHealth e.turn due s.sender := by
  unfold sendHealth SenderLoop.sendHealth
  by_cases h : (s.sender.connected && due) = true
  · rw [if_pos h, if_pos h]
    dsimp only
    rw [deflateAndWrite_ok _ _ (hLine_ne_nil _)]
    have hc : s.sender.connected = true := (Bool.and_eq_true_iff.mp h).1
    by_cases hw : e.health.cut = none <;> simp [hw, hc, Pass.turn, close]
  · rw [if_neg h, if_neg h]

theorem checkSessionAge_sender (s : Conn Z) :
    (checkSessionAge e s).sender = SenderLoop.checkSessionAge e.turn s.sender := by
  have hnow : e.turn.sessionNow = e.sessionNow := rfl
  unfold checkSessionAge SenderLoop.checkSessionAge
  rw [hnow, apply_ite Conn.sender]
  rfl

theorem writeFlush_sender (s : Conn Z) :
    (writeFlush cfg e s).sender = SenderLoop.writeFlush e.turn s.sender := by
  unfold writeFlush SenderLoop.writeFlush
  by_cases h : (!flushEmpty s.sender && s.sender.connected) = true
  · rw [if_pos h, if_pos h]
    have hne : encodeFlush s.sender.flush ≠ [] := by
      simpa [flushEmpty] using (Bool.and_eq_true_iff.mp h).1
    dsimp only
    rw [deflateAndWrite_ok _ _ hne]
    by_cases hw : e.flush.cut = none <;> simp [hw, Pass.turn, close]
  · rw [if_neg h, if_neg h]

theorem exchange_sender (s : Conn Z) :
    (exchange cfg s e).sender = SenderLoop.exchange s.sender e.turn := by
  unfold exchange SenderLoop.exchange
  dsimp only
  split
  · exact poll_sender s
  · rw [writeFlush_sender, checkSessionAge_sender, sendHealth_sender, reannounce_sender, poll_sender]

theorem tries_iff {s : Conn Z} : tries cfg s e = true ↔ ¬ s.sender.connected = true ∧
    ¬ idle s.sender e.turn = true ∧ ¬ (0 < s.sender.reconnectFailures ∧
      sec (e.turn.reconnectNow - s.sender.lastReconnectAttempt) < cfg.reconnectIntervalSec) := by
  have hnow : e.turn.reconnectNow = e.reconnectNow := rfl
  simp only [tries, hnow, Bool.and_eq_true, Bool.not_eq_true', Bool.not_eq_true, and_assoc,
    Bool.and_eq_false_iff, decide_eq_false_iff_not, not_and_or]

/-- What `connectUnlocked` does to the sender. -/
theorem connectUnlocked_cases (cfg : ConnConfig Z) {s : Conn Z} (hc : ¬ s.sender.connected = true) (io : ConnectIo) :
    ((connectUnlocked cfg s io).2 = false ∧ io.outcome = .failed ∧
      (connectUnlocked cfg s io).1.sender = s.sender) ∨
    ∃ announcedAt sessionStart, (connectUnlocked cfg s io).2 = true ∧
      io.outcome = .ok announcedAt sessionStart ∧
      (connectUnlocked cfg s io).1.sender = { s.sender with
        connected := true
        lastReannounceTime := (announcedAt.map sec).getD s.sender.lastReannounceTime
        sessionStart := sessionStart } := by
  have hoff : s.sender.connected = false := by simpa using hc
  cases io with
  | failed => exact .inl ⟨rfl, rfl, rfl⟩
  | live kCapZlib io sessionStart =>
    unfold connectUnlocked ConnectIo.outcome
    dsimp only
    rw [sendAnnounce_ok]
    cases io.ok with
    | false =>
      refine .inl ⟨rfl, rfl, ?_⟩
      simp only [Bool.false_eq_true, ↓reduceIte, close]
      rw [← hoff]
    | true =>
      refine .inr ⟨_, _, rfl, rfl, ?_⟩
      by_cases ha : io.lanAddrs = [] <;> simp [ha]

/-- **The sender.** A pass does to it what `SenderLoop.finish` does with the outcomes. -/
theorem pass_sender (s : Conn Z) :
    (pass cfg s e).sender = SenderLoop.finish cfg.toSenderConfig s.sender e.turn := by
  unfold pass SenderLoop.finish
  dsimp only
  by_cases hc : s.sender.connected = true
  · rw [if_pos hc, if_pos hc, exchange_sender]
  rw [if_neg hc, if_neg hc]
  by_cases ht : tries cfg { s with sender := { s.sender with pc := .waiting }, replied := 0 } e = true
  · obtain ⟨-, hidle, hwait⟩ := tries_iff.mp ht
    have hout : e.turn.connect = e.connect.outcome := rfl
    have hon : ¬ (!tries cfg { s with sender := { s.sender with pc := .waiting }, replied := 0 } e) =
        true := by simpa using ht
    rw [if_neg hon, if_neg hidle, if_neg hwait, hout]
    rcases connectUnlocked_cases cfg (s := { s with
        sender := { s.sender with pc := .waiting, lastReconnectAttempt := e.reconnectNow }
        replied := 0 }) hc e.connect with ⟨hok, ho, hs⟩ | ⟨announcedAt, sessionStart, hok, ho, hs⟩
    · simp only [hok, ho, hs, Bool.false_eq_true, ↓reduceIte]
      rfl
    · simp only [hok, ho, ↓reduceIte, exchange_sender, hs]
      rfl
  · have hoff : (!tries cfg { s with sender := { s.sender with pc := .waiting }, replied := 0 } e) =
        true := by simpa using ht
    rw [if_pos hoff]
    rw [tries_iff] at ht
    by_cases hidle : idle { s.sender with pc := .waiting } e.turn = true
    · rw [if_pos hidle]
    · rw [if_neg hidle, if_pos]
      by_contra hwait
      exact ht ⟨hc, hidle, hwait⟩

/-! ## What a step can do -/

/-- What the stages of a pass keep, a pass on a live connection keeps. -/
theorem exchange_rule {I : Conn Z → Prop}
    (hpoll : ∀ s, s.sender.connected = true → I s → I (poll cfg e s))
    (hreannounce : ∀ s, I s → I (reannounce cfg e s))
    (hhealth : ∀ due s, I s → I (sendHealth cfg e due s))
    (hage : ∀ s, I s → I (checkSessionAge e s)) (hflush : ∀ s, I s → I (writeFlush cfg e s))
    {s : Conn Z} (hc : s.sender.connected = true) (h : I s) : I (exchange cfg s e) := by
  unfold exchange
  dsimp only
  split
  · exact hpoll _ hc h
  · exact hflush _ (hage _ (hhealth _ _ (hreannounce _ (hpoll _ hc h))))

/-- What the stages and a connection keep, a pass keeps. -/
theorem pass_rule {I : Conn Z → Prop} {s : Conn Z}
    (hsender : ∀ s sender, sender.connected = s.sender.connected → I s →
      I { s with sender := sender })
    (hreplied : ∀ s, I s → I { s with replied := 0 })
    (hconnect : tries cfg s e = true → ∀ s', s'.ctrlInBuf = s.ctrlInBuf →
      s'.sender.connected = false → I s' → I (connectUnlocked cfg s' e.connect).1)
    (hexchange : ∀ s, s.sender.connected = true → I s → I (exchange cfg s e)) (h : I s) :
    I (pass cfg s e) := by
  have hwaiting : I { s with sender := { s.sender with pc := .waiting }, replied := 0 } :=
    hreplied _ (hsender s { s.sender with pc := .waiting } rfl h)
  unfold pass
  dsimp only
  by_cases hc : s.sender.connected = true
  · rw [if_pos hc]
    exact hexchange _ hc hwaiting
  rw [if_neg hc]
  split
  · exact hwaiting
  rename_i ht
  have ht : tries cfg { s with sender := { s.sender with pc := .waiting }, replied := 0 } e = true := by
    simpa using ht
  have hlive := hconnect ht { s with
      sender := { s.sender with pc := .waiting, lastReconnectAttempt := e.reconnectNow }
      replied := 0 } rfl (by simpa using hc)
    (hreplied _ (hsender s { s.sender with
      pc := .waiting, lastReconnectAttempt := e.reconnectNow } rfl h))
  rcases connectUnlocked_cases cfg (s := { s with
      sender := { s.sender with pc := .waiting, lastReconnectAttempt := e.reconnectNow }
      replied := 0 }) hc e.connect with ⟨hok, -, -⟩ | ⟨_, _, hok, -, hs⟩
  · rw [if_neg (by rw [hok]; exact Bool.false_ne_true)]
    refine hsender _ _ ?_ hlive
    unfold countFailure
    dsimp only
    split <;> rfl
  · rw [if_pos hok]
    exact hexchange _ (congrArg Sender.connected hs) (hsender _ _ rfl hlive)

/-- What each action does. -/
theorem step_cases {s s' : Conn Z} {a : Action} (h : step cfg s a = some s') :
    (∃ sender, sender.connected = s.sender.connected ∧ s' = { s with sender := sender }) ∨
    (∃ e, a = .finish e ∧ e.poll.Fits cfg.mode ∧ s' = pass cfg s e ∧
      s'.replied = e.replies.length) ∨
    (∃ io, a = .connectOnce io ∧
      s' = if s.sender.connected then s else (connectUnlocked cfg s io).1) ∨
    (∃ logger, a = .files logger ∧ s' = { s with logger := logger }) ∨
    (a = .close ∧ s' = close { s with sender := { s.sender with pc := .stopped } }) := by
  cases a with
  | packet m =>
    simp only [step, Option.map_eq_some_iff] at h
    obtain ⟨sender, hs, rfl⟩ := h
    cases hs
    refine .inl ⟨_, ?_, rfl⟩
    rfl
  | drain =>
    simp only [step, Option.map_eq_some_iff] at h
    obtain ⟨sender, hs, rfl⟩ := h
    simp only [SenderLoop.step, Option.ite_none_right_eq_some, Option.some.injEq] at hs
    obtain ⟨-, rfl⟩ := hs
    exact .inl ⟨SenderLoop.drain s.sender, rfl, rfl⟩
  | finish e =>
    simp only [step, Option.ite_none_right_eq_some, Option.some.injEq] at h
    obtain ⟨⟨-, hfits, hreplied⟩, rfl⟩ := h
    exact .inr (.inl ⟨e, rfl, hfits, rfl, hreplied⟩)
  | connectOnce io => exact .inr (.inr (.inl ⟨io, rfl, (Option.some.inj h).symm⟩))
  | files logger => exact .inr (.inr (.inr (.inl ⟨logger, rfl, (Option.some.inj h).symm⟩)))
  | close =>
    simp only [step, Option.ite_none_left_eq_some, Option.some.injEq] at h
    exact .inr (.inr (.inr (.inr ⟨rfl, h.2.symm⟩)))

end TrafficMonitor.Connection
