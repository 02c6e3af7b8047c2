import TrafficMonitor.Client.Connection

/-!
# Control lines across connections (`client_impl.cpp`)

`ctrlInBuf_` holds the part of a control line that has been read, over TCP. It belongs to
the client, and neither `closeUnlocked` nor `connectUnlocked` clears it, as they do with
the compressor. Proved here:

* `lines_exact_of_run`: in a run in which no connection is set up over an unfinished line,
  the lines processed on each connection are the complete lines received on it;
* `half_line_spoils_next_connection`: else the rest of the old line stands before the first
  line of the new connection.
-/

namespace TrafficMonitor.Connection

open Bytes Control PollCtrlLines Runs

variable {Z : Type} {cfg : ConnConfig Z} {e : Pass}

/-- The lines processed are the complete lines received on the present connection. -/
def LinesExact (s : Conn Z) : Prop := s.processed = linesOf s.received

instance (s : Conn Z) : Decidable (LinesExact s) := inferInstanceAs (Decidable (_ = _))

/-- The transport comes up. -/
def ConnectIo.isLive : ConnectIo → Bool
  | .failed => false
  | .live _ _ _ => true

/-- The action sets up a connection. -/
def opens (cfg : ConnConfig Z) (s : Conn Z) : Action → Bool
  | .finish e => tries cfg s e && e.connect.isLive
  | .connectOnce io => !s.sender.connected && io.isLive
  | _ => false

/-- No connection is set up over an unfinished line. -/
def NothingLeft (cfg : ConnConfig Z) (s : Conn Z) (a : Action) : Prop :=
  opens cfg s a = true → s.ctrlInBuf = []

instance (cfg : ConnConfig Z) (s : Conn Z) (a : Action) : Decidable (NothingLeft cfg s a) :=
  inferInstanceAs (Decidable (_ → _))

/-- The accumulator holds the unfinished line of the present connection. -/
structure LinesKept (s : Conn Z) : Prop where
  inBuf : s.ctrlInBuf = restOf s.received
  exact : LinesExact s

theorem LinesKept.of_same {s s' : Conn Z} (h : LinesKept s) (hb : s'.ctrlInBuf = s.ctrlInBuf)
    (hr : s'.received = s.received) (hp : s'.processed = s.processed) : LinesKept s' :=
  ⟨by rw [hb, hr, h.inBuf], by rw [LinesExact, hp, hr, h.exact]⟩

/-! ## The stages -/

theorem processLines_lines (cfg : ConnConfig Z) (e : Pass) (lines : List Bytes) (s : Conn Z) :
    (lines.foldl (processLine cfg e) s).ctrlInBuf = s.ctrlInBuf ∧
      (lines.foldl (processLine cfg e) s).received = s.received ∧
      (lines.foldl (processLine cfg e) s).processed = s.processed ++ lines := by
  induction lines generalizing s with
  | nil => simp
  | cons l ls ih =>
    obtain ⟨hb, hr, hp⟩ := ih (processLine cfg e s l)
    refine ⟨hb, hr, ?_⟩
    rw [List.foldl_cons, hp]
    simp [processLine]

theorem linesKept_poll (hmode : cfg.mode = .TcpTls) (hfits : e.poll.Fits cfg.mode) {s : Conn Z}
    (h : LinesKept s) : LinesKept (poll cfg e s) := by
  unfold poll
  cases hp : e.poll with
  | failed => exact h.of_same rfl rfl rfl
  | nothing => exact h
  | read r =>
    dsimp only [TcpConn.pollCtrlLines]
    obtain ⟨hb, hr, hlines⟩ := processLines_lines cfg e
      ([] ++ (Lines.split LF (s.ctrlInBuf ++ r.data)).1.filterMap finishLine)
      { s with ctrlInBuf := (Lines.split LF (s.ctrlInBuf ++ r.data)).2
               received := s.received ++ r.data }
    refine ⟨?_, ?_⟩
    · rw [hb, hr, restOf_append, ← h.inBuf]
      rfl
    · rw [LinesExact, hlines, hr, linesOf_append, ← h.inBuf, h.exact]
      rfl
  | frames lines =>
    rw [hp, hmode] at hfits
    cases hfits

theorem linesKept_connect {s : Conn Z} {io : ConnectIo} (h : LinesKept s)
    (hleft : io.isLive = true → s.ctrlInBuf = []) : LinesKept (connectUnlocked cfg s io).1 := by
  cases io with
  | failed => exact h
  | live kCapZlib io sessionStart =>
    have hnil := hleft rfl
    unfold connectUnlocked
    dsimp only
    generalize Wire.sendAnnounce cfg io
      { deflater := if kCapZlib = true then some cfg.zlib.init else none } = r
    obtain ⟨wire, ok⟩ := r
    cases ok with
    | false => exact ⟨hnil, rfl⟩
    | true => exact ⟨hnil, rfl⟩

theorem linesKept_exchange (hmode : cfg.mode = .TcpTls) (hfits : e.poll.Fits cfg.mode) {s : Conn Z}
    (hc : s.sender.connected = true) (h : LinesKept s) : LinesKept (exchange cfg s e) := by
  refine exchange_rule (fun s _ h => linesKept_poll hmode hfits h) ?_ ?_ ?_ ?_ hc h
  · intro s h
    unfold reannounce
    dsimp only
    split
    · split <;> exact h.of_same rfl rfl rfl
    · exact h
  · intro due s h
    unfold sendHealth
    dsimp only
    split
    · split <;> exact h.of_same rfl rfl rfl
    · exact h
  · intro s h
    unfold checkSessionAge
    split
    · exact h.of_same rfl rfl rfl
    · exact h
  · intro s h
    unfold writeFlush
    dsimp only
    split
    · split <;> exact h.of_same rfl rfl rfl
    · exact h

/-! ## Every run -/

theorem linesKept_step (hmode : cfg.mode = .TcpTls) {s s' : Conn Z} {a : Action} (h : LinesKept s)
    (hg : NothingLeft cfg s a) (hs : step cfg s a = some s') : LinesKept s' := by
  rcases step_cases hs with ⟨sender, -, rfl⟩ | ⟨e, rfl, hfits, rfl, -⟩ | ⟨io, rfl, rfl⟩ |
    ⟨logger, rfl, rfl⟩ | ⟨rfl, rfl⟩
  · exact h.of_same rfl rfl rfl
  · refine pass_rule (fun s _ _ h => h.of_same rfl rfl rfl) (fun s h => h.of_same rfl rfl rfl) ?_
      (fun s hc h => linesKept_exchange hmode hfits hc h) h
    intro ht s₁ hb _ h₁
    refine linesKept_connect h₁ fun hlive => ?_
    rw [hb]
    exact hg (by simp [opens, ht, hlive])
  · split
    · exact h
    · rename_i hc
      exact linesKept_connect h fun hlive => hg (by simp [opens, hc, hlive])
  · exact h.of_same rfl rfl rfl
  · exact h.of_same rfl rfl rfl

theorem linesKept_start (logger : FileLogger) : LinesKept ({ logger := logger } : Conn Z) :=
  ⟨rfl, rfl⟩

/-- **Control lines.** In every run over TCP in which no connection is set up over an
unfinished line. -/
theorem lines_exact_of_run (cfg : ConnConfig Z) (hmode : cfg.mode = .TcpTls) (logger : FileLogger)
    (acts : List Action) (s : Conn Z)
    (hm : Meets (step cfg) (NothingLeft cfg) { logger := logger } acts)
    (hr : run (step cfg) { logger := logger } acts = some s) : LinesExact s :=
  (invariant_of_meets (I := LinesKept) (fun _ _ _ hi hg hs => linesKept_step hmode hi hg hs)
    (linesKept_start logger) hm hr).exact

/-! Two connections: the loop reads on the first one, loses it, and sets up the second one,
on which it reads again. -/

private def plain : ConnConfig Unit where
  mode := .TcpTls
  zlib := ⟨(), fun _ data => ((), data)⟩
  auto_update := false
  sha256 := id

private def quiet : FileLogger := ⟨false, .Info, [], []⟩

private def twoConnections (first second : TlsRead) (replies : List Write) : List Action :=
  [.connectOnce (.live false {} 0), .drain,
    .finish { now := 10000000000, poll := .read first, replies := replies }, .drain,
    .finish { now := 20000000000, poll := .failed }, .drain,
    .finish { now := 90000000000, connect := .live false {} 90000000000, poll := .read second }]

theorem lines_exact_of_run_two_connections :
    ∃ s, run (step plain) { logger := quiet } (twoConnections
        { data := ascii "C set_loglevel Warn\n" } { data := ascii "C log_" } [{}]) = some s ∧
      s.received = ascii "C log_" ∧ LinesExact s := by
  have hrun : (run (step plain) { logger := quiet } (twoConnections
      { data := ascii "C set_loglevel Warn\n" } { data := ascii "C log_" } [{}])).map (·.received) =
        some (ascii "C log_") := by
    decide +kernel
  obtain ⟨s, hs, hreceived⟩ := Option.map_eq_some_iff.mp hrun
  exact ⟨s, hs, hreceived, lines_exact_of_run plain rfl quiet _ s (by decide +kernel) hs⟩

/-- The first connection is lost after `"C log_"`, and so is the first line of the second. -/
theorem half_line_spoils_next_connection :
    ∃ s, run (step plain) { logger := quiet } (twoConnections
        { data := ascii "C log_" } { data := ascii "C set_loglevel Err\n" } []) = some s ∧
      s.processed = [ascii "C log_C set_loglevel Err"] ∧
      linesOf s.received = [ascii "C set_loglevel Err"] ∧ ¬ LinesExact s := by
  have hrun : (run (step plain) { logger := quiet } (twoConnections
      { data := ascii "C log_" } { data := ascii "C set_loglevel Err\n" } [])).map
      (fun s => (s.processed, linesOf s.received)) =
        some ([ascii "C log_C set_loglevel Err"], [ascii "C set_loglevel Err"]) := by
    decide +kernel
  obtain ⟨s, hs, hv⟩ := Option.map_eq_some_iff.mp hrun
  obtain ⟨hp, hreceived⟩ := Prod.mk.inj hv
  refine ⟨s, hs, hp, hreceived, fun h => ?_⟩
  rw [LinesExact, hp, hreceived] at h
  exact absurd h (by decide)

end TrafficMonitor.Connection
