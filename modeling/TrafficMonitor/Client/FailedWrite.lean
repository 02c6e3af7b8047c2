import TrafficMonitor.Client.Connection

/-!
# Failed writes (`client_impl.cpp`)

A write that fails may have put a part of its line on the connection, and the compressor
has gone on past bytes that were never sent. Announcement, health line and flush close the
connection then. `processCtrlLine` does not look at the results of its writes, but for the
chunks of a file, and there it only stops the transfer. Proved here:

* `nothing_after_failure_of_run`: in a run in which no write of `processCtrlLine` fails,
  nothing follows a failed write on its connection;
* `health_follows_cut_reply`: else the next line follows a reply that was cut short.
-/

namespace TrafficMonitor.Connection

open Bytes Control PollCtrlLines Runs SenderLoop

variable {Z : Type} {cfg : ConnConfig Z} {e : Pass}

/-- No byte was written after the first write that failed. -/
def NothingAfter (w : Wire Z) : Prop := ∀ n ∈ w.failedAt, w.sent.length = n

instance (w : Wire Z) : Decidable (NothingAfter w) :=
  inferInstanceAs (Decidable (∀ n ∈ w.failedAt, _))

/-- No write of `processCtrlLine` fails. -/
def RepliesWritten : Action → Prop
  | .finish e => ∀ io ∈ e.replies, io.cut = none
  | _ => True

instance : ∀ a, Decidable (RepliesWritten a)
  | .finish e => inferInstanceAs (Decidable (∀ io ∈ e.replies, io.cut = none))
  | .packet _ | .drain | .connectOnce _ | .files _ | .close => isTrue trivial

/-- A connection on which a write has failed is closed. -/
structure Ended (s : Conn Z) : Prop where
  nothing : NothingAfter s.wire
  live : s.sender.connected = true → s.wire.failedAt = none

/-! ## Writes -/

/-- A write on a connection where none has failed. -/
structure Written (r : Wire Z × Bool) : Prop where
  nothing : NothingAfter r.1
  ok : r.2 = true → r.1.failedAt = none

theorem written_deflateAndWrite (cfg : ConnConfig Z) {w : Wire Z} (h : w.failedAt = none) (data : Bytes) (io : Write) :
    Written (w.deflateAndWrite cfg data io) := by
  have hw : NothingAfter w := by simp [NothingAfter, h]
  unfold Wire.deflateAndWrite
  split
  · exact ⟨hw, fun _ => h⟩
  · dsimp only
    cases io.cut with
    | none => exact ⟨by simp [NothingAfter, h], fun _ => h⟩
    | some n => exact ⟨by simp [NothingAfter, h], fun ht => by cases ht⟩

theorem written_writeWhile (cfg : ConnConfig Z) (writes : Nat → Write) (k : Nat) {w : Wire Z} (h : w.failedAt = none)
    (ls : List Bytes) : Written (w.writeWhile cfg writes k ls) := by
  induction ls generalizing k w with
  | nil => exact ⟨by simp [NothingAfter, Wire.writeWhile, h], fun _ => h⟩
  | cons l ls ih =>
    have hl := written_deflateAndWrite cfg h l (writes k)
    unfold Wire.writeWhile
    dsimp only
    split
    · rename_i hok
      exact ih (k + 1) (hl.ok hok)
    · exact ⟨hl.nothing, fun ht => by cases ht⟩

theorem deflateAndWrite_of_uncut (cfg : ConnConfig Z) {io : Write} (hio : io.cut = none) (w : Wire Z) (data : Bytes) :
    (w.deflateAndWrite cfg data io).1.failedAt = w.failedAt := by
  unfold Wire.deflateAndWrite
  split
  · rfl
  · simp only [hio]

theorem replies_of_uncut {xs : List (Bytes × Write)} (hxs : ∀ x ∈ xs, x.2.cut = none) (w : Wire Z) :
    (xs.foldl (fun w x => (w.deflateAndWrite cfg x.1 x.2).1) w).failedAt = w.failedAt := by
  induction xs generalizing w with
  | nil => rfl
  | cons x xs ih =>
    rw [List.foldl_cons, ih fun y hy => hxs y (by simp [hy])]
    exact deflateAndWrite_of_uncut cfg (hxs x (by simp)) w x.1

/-! ## The stages -/

theorem Ended.close {s : Conn Z} (h : NothingAfter s.wire) : Ended (Connection.close s) :=
  ⟨h, fun hc => by cases hc⟩

/-- A stage that writes, and closes the connection when the write fails. -/
theorem Ended.of_written {s : Conn Z} {r : Wire Z × Bool} (h : Written r) (sender : Sender) :
    Ended (if r.2 then { s with wire := r.1, sender := sender }
      else Connection.close { s with wire := r.1 }) := by
  split
  · rename_i hok
    have hnone := h.ok hok
    exact ⟨h.nothing, fun _ => hnone⟩
  · exact .close h.nothing

theorem processLines_failedAt (cfg : ConnConfig Z) (hw : ∀ io ∈ e.replies, io.cut = none) (lines : List Bytes)
    (s : Conn Z) : (lines.foldl (processLine cfg e) s).wire.failedAt = s.wire.failedAt := by
  induction lines generalizing s with
  | nil => rfl
  | cons l ls ih =>
    rw [List.foldl_cons, ih]
    refine replies_of_uncut (fun x hx => hw x.2 ?_) _
    exact List.mem_of_mem_drop (List.of_mem_zip hx).2

theorem ended_poll (hw : ∀ io ∈ e.replies, io.cut = none) {s : Conn Z}
    (hc : s.sender.connected = true) (h : Ended s) : Ended (poll cfg e s) := by
  have hnone := h.live hc
  have hlines : ∀ (lines : List Bytes) (s : Conn Z), s.wire.failedAt = none →
      Ended (lines.foldl (processLine cfg e) s) := by
    intro lines s hs
    have hn := (processLines_failedAt cfg hw lines s).trans hs
    exact ⟨by simp [NothingAfter, hn], fun _ => hn⟩
  unfold poll
  cases e.poll with
  | failed => exact .close h.nothing
  | nothing => exact h
  | read r => exact hlines _ _ hnone
  | frames lines => exact hlines _ _ hnone

theorem ended_connect {s : Conn Z} (h : Ended s) (io : ConnectIo) :
    Ended (connectUnlocked cfg s io).1 := by
  cases io with
  | failed => exact h
  | live kCapZlib io sessionStart =>
    have hfresh : ({ deflater := (if kCapZlib = true then some cfg.zlib.init else none) } :
        Wire Z).failedAt = none := rfl
    have hio := written_writeWhile cfg io.writes 0 hfresh io.lines
    unfold connectUnlocked Wire.sendAnnounce
    dsimp only
    generalize Wire.writeWhile cfg io.writes 0
      { deflater := if kCapZlib = true then some cfg.zlib.init else none } io.lines = r at hio
    obtain ⟨wire, ok⟩ := r
    cases ok with
    | false => exact .close hio.nothing
    | true => exact ⟨hio.nothing, fun _ => hio.ok rfl⟩

theorem ended_exchange (hw : ∀ io ∈ e.replies, io.cut = none) {s : Conn Z}
    (hc : s.sender.connected = true) (h : Ended s) : Ended (exchange cfg s e) := by
  refine exchange_rule (fun s hc h => ended_poll hw hc h) ?_ ?_ ?_ ?_ hc h
  · intro s h
    unfold reannounce
    split
    · rename_i hdue
      have hlive := h.live (by simp at hdue; exact hdue.1.1)
      exact .of_written (written_writeWhile cfg e.announce.writes 0 hlive e.announce.lines) _
    · exact h
  · intro due s h
    unfold sendHealth
    split
    · rename_i hdue
      have hlive := h.live (Bool.and_eq_true_iff.mp hdue).1
      exact .of_written (written_deflateAndWrite cfg hlive (hLine e.hText) e.health) _
    · exact h
  · intro s h
    unfold checkSessionAge
    split
    · exact .close h.nothing
    · exact h
  · intro s h
    unfold writeFlush
    split
    · rename_i hdue
      have hlive := h.live (Bool.and_eq_true_iff.mp hdue).2
      exact .of_written (written_deflateAndWrite cfg hlive _ e.flush) _
    · exact h

/-! ## Every run -/

theorem ended_step {s s' : Conn Z} {a : Action} (h : Ended s) (hw : RepliesWritten a)
    (hs : step cfg s a = some s') : Ended s' := by
  rcases step_cases hs with ⟨sender, hc, rfl⟩ | ⟨e, rfl, -, rfl, -⟩ | ⟨io, rfl, rfl⟩ |
    ⟨logger, rfl, rfl⟩ | ⟨rfl, rfl⟩
  · exact ⟨h.nothing, fun hl => h.live (hc ▸ hl)⟩
  · refine pass_rule (fun s sender hc h => ⟨h.nothing, fun hl => h.live (hc ▸ hl)⟩)
      (fun s h => ⟨h.nothing, h.live⟩) (fun _ s _ _ h => ended_connect h _)
      (fun s hc h => ended_exchange hw hc h) h
  · split
    · exact h
    · exact ended_connect h io
  · exact ⟨h.nothing, h.live⟩
  · exact .close h.nothing

theorem ended_start (logger : FileLogger) : Ended ({ logger := logger } : Conn Z) :=
  ⟨fun _ hn => (by cases hn), fun _ => rfl⟩

/-- **Failed writes.** In every run in which no write of `processCtrlLine` fails. -/
theorem nothing_after_failure_of_run (cfg : ConnConfig Z) (logger : FileLogger) (acts : List Action)
    (s : Conn Z) (hw : Meets (step cfg) (fun _ a => RepliesWritten a) { logger := logger } acts)
    (hr : run (step cfg) { logger := logger } acts = some s) : NothingAfter s.wire :=
  (invariant_of_meets (I := Ended) (fun _ _ _ hi hw hs => ended_step hi hw hs)
    (ended_start logger) hw hr).nothing

/-! A pass that answers a command and sends a health line, with the results of the two writes. -/

private def plainTcp : ConnConfig Unit where
  mode := .TcpTls
  zlib := ⟨(), fun _ data => ((), data)⟩
  auto_update := false
  sha256 := id

private def noFiles : FileLogger := ⟨false, .Info, [], []⟩

private def answerAndHealth (reply health : Write) : List Action :=
  [.connectOnce (.live false {} 0), .drain, .finish {
    now := 90000000000
    poll := .read { data := ascii "C set_loglevel Warn\n" }
    replies := [reply]
    hText := ascii "agg_flows=0"
    health := health }]

theorem nothing_after_failure_of_run_cut_health :
    ∃ s, run (step plainTcp) { logger := noFiles } (answerAndHealth {} { cut := some 4 }) = some s ∧
      s.wire.sent = ascii "L ack set_loglevel Warn\nH ag" ∧ NothingAfter s.wire := by
  have hrun : (run (step plainTcp) { logger := noFiles } (answerAndHealth {} { cut := some 4 })).map
      (·.wire.sent) = some (ascii "L ack set_loglevel Warn\nH ag") := by
    decide +kernel
  obtain ⟨s, hs, hsent⟩ := Option.map_eq_some_iff.mp hrun
  exact ⟨s, hs, hsent, nothing_after_failure_of_run plainTcp noFiles _ s (by decide +kernel) hs⟩

/-- The reply is cut after `"L ack"`, and the health line follows on the same connection. -/
theorem health_follows_cut_reply :
    ∃ s, run (step plainTcp) { logger := noFiles } (answerAndHealth { cut := some 5 } {}) = some s ∧
      s.wire.failedAt = some 5 ∧ s.wire.sent = ascii "L ackH agg_flows=0\n" ∧
      s.sender.connected = true ∧ ¬ NothingAfter s.wire := by
  have hrun : (run (step plainTcp) { logger := noFiles } (answerAndHealth { cut := some 5 } {})).map
      (fun s => (s.wire.failedAt, s.wire.sent, s.sender.connected)) =
        some (some 5, ascii "L ackH agg_flows=0\n", true) := by
    decide +kernel
  obtain ⟨s, hs, hv⟩ := Option.map_eq_some_iff.mp hrun
  simp only [Prod.mk.injEq] at hv
  obtain ⟨hfailed, hsent, hc⟩ := hv
  refine ⟨s, hs, hfailed, hsent, hc, fun h => ?_⟩
  have hlen := h 5 hfailed
  rw [hsent] at hlen
  exact absurd hlen (by decide)

end TrafficMonitor.Connection
