import TrafficMonitor.Protocol
import TrafficMonitor.Client.FrameReader

/-!
# Control lines from the server

`pollCtrlLines` of the two transports. Both read at most one piece of the TLS stream per
poll and hand out the complete lines; they differ in where they keep an unfinished line.
The abstract model is a reader that goes through the pieces one by one, each behind a
gate; both transports refine it.

Proved here, for every stream of control lines, its cut into reads and (for WebSocket)
frames, and every pattern of polls:

* `tcp_refines`, `ws_refines`: what has been handed out after any polls is the complete
  lines of the pieces passed; the TCP gates are open, and a WebSocket gate is open when no
  line is unfinished before it;
* `polls_deliver_iff_aligned`: the TCP transport delivers every stream; the WebSocket
  transport delivers exactly those that have no line unfinished after any of the reads.

The WebSocket transport takes an unfinished line in `readBuf_` for work to do and never
reads its end: `half_line_stops_polling`.
-/

namespace TrafficMonitor.PollCtrlLines

open Bytes Ws

/-! ## A reader behind gates -/

/-- The number of pieces passed, of `n`, after a poll for which the next one has arrived
or not. -/
def advance (gate : Nat → Bool) (n k : Nat) (ready : Bool) : Nat :=
  if ready && k < n && gate k then k + 1 else k

def advanceAll (gate : Nat → Bool) (n k : Nat) (polls : List Bool) : Nat :=
  polls.foldl (advance gate n) k

theorem advanceAll_le (gate : Nat → Bool) {n k : Nat} (polls : List Bool) (hk : k ≤ n) :
    advanceAll gate n k polls ≤ n := by
  induction polls generalizing k with
  | nil => exact hk
  | cons ready polls ih =>
    apply ih
    unfold advance
    split
    · rename_i h
      simp only [Bool.and_eq_true, decide_eq_true_eq] at h
      omega
    · exact hk

/-- Behind open gates every piece is passed after as many polls. -/
theorem advanceAll_open (gate : Nat → Bool) {n : Nat} (hopen : ∀ k < n, gate k = true) (k : Nat)
    (polls : List Bool) (hk : k ≤ n) (hp : n ≤ k + polls.count true) :
    advanceAll gate n k polls = n := by
  induction polls generalizing k with
  | nil =>
    simp only [List.count_nil] at hp
    exact Nat.le_antisymm hk hp
  | cons ready polls ih =>
    simp only [advanceAll, List.foldl_cons]
    cases ready with
    | false => exact ih k hk (by simpa using hp)
    | true =>
      simp only [List.count_cons_self] at hp
      by_cases hlt : k < n
      · have e : advance gate n k true = k + 1 := by simp [advance, hlt, hopen k hlt]
        rw [e]
        exact ih (k + 1) hlt (by omega)
      · have e : advance gate n k true = k := by simp [advance, hlt]
        rw [e]
        exact ih k hk (by omega)

/-- A shut gate is never passed. -/
theorem advanceAll_shut {gate : Nat → Bool} {m : Nat} (hshut : gate m = false) (n k : Nat)
    (polls : List Bool) (hk : k ≤ m) : advanceAll gate n k polls ≤ m := by
  induction polls generalizing k with
  | nil => exact hk
  | cons ready polls ih =>
    apply ih
    unfold advance
    split
    · rename_i h
      simp only [Bool.and_eq_true, decide_eq_true_eq] at h
      have hne : k ≠ m := by
        rintro rfl
        rw [hshut] at h
        exact Bool.false_ne_true h.2
      omega
    · exact hk

/-! ## The two transports -/

/-- What one `SSL_read` into the buffer of 4096 bytes returns. -/
structure TlsRead where
  data : Bytes
  nonempty : data ≠ [] := by decide
  short : data.length ≤ 4096 := by decide

/-- `while (back() == '\r') pop_back(); if (!empty()) push_back` -/
def finishLine (line : Bytes) : Option Bytes :=
  let line := trimRight (· = CR) line
  if line = [] then none else some line

/-- `TcpTlsTransport`, with the reads still to come and the lines handed out so far. -/
structure TcpConn where
  inBuf : Bytes := []
  queue : List TlsRead
  out : List Bytes := []

/-- One poll; `ready` says whether the next read has arrived. -/
def TcpConn.pollCtrlLines (c : TcpConn) (ready : Bool) : TcpConn :=
  match ready, c.queue with
  | true, r :: queue =>
    let t := Lines.split LF (c.inBuf ++ r.data)
    ⟨t.2, queue, c.out ++ t.1.filterMap finishLine⟩
  | _, _ => c

/-- `WebSocketTransport`. -/
structure WsConn where
  readBuf : Bytes := []
  readBufPos : Nat := 0
  reader : FrameReader := {}
  queue : List TlsRead
  out : List Bytes := []

/-- The decoded bytes are appended to the read buffer, which is cleared when it was read. -/
def WsConn.drainReader (c : WsConn) : WsConn :=
  if 0 < c.reader.available then
    let t := c.reader.take 4096
    let clear := 0 < c.readBufPos ∧ c.readBuf.length ≤ c.readBufPos
    { c with
      reader := t.2
      readBuf := (if clear then [] else c.readBuf) ++ t.1
      readBufPos := if clear then 0 else c.readBufPos }
  else c

/-- Complete lines are cut from the read buffer, and the position moves behind them. -/
def WsConn.extract (c : WsConn) : WsConn :=
  let t := Lines.split LF (c.readBuf.drop c.readBufPos)
  { c with
    readBufPos := c.readBufPos + (Lines.join LF t.1).length
    out := c.out ++ t.1.filterMap finishLine }

def WsConn.pollCtrlLines (c : WsConn) (ready : Bool) : WsConn :=
  if c.readBufPos < c.readBuf.length then c.extract
  else match ready, c.queue with
    | true, r :: queue =>
      WsConn.extract (WsConn.drainReader { c with reader := c.reader.feed r.data, queue := queue })
    | _, _ => c

/-- A connection after the handshake, whose bytes `used` have all been read. -/
def WsConn.start (used : Bytes) (queue : List TlsRead) : WsConn :=
  { readBuf := used, readBufPos := used.length, queue := queue }

/-! ## The pieces of the stream -/

/-- The bytes of the first `k` reads. -/
def streamOf (reads : List TlsRead) (k : Nat) : Bytes := ((reads.take k).map (·.data)).flatten

/-- The payload that the first `k` reads hold. -/
def payloadOf (reads : List TlsRead) (k : Nat) : Bytes := (decode {} (streamOf reads k)).1

theorem streamOf_succ {reads rest : List TlsRead} {r : TlsRead} {k : Nat}
    (h : reads.drop k = r :: rest) : streamOf reads (k + 1) = streamOf reads k ++ r.data := by
  have hk : k < reads.length := by
    by_contra hn
    rw [List.drop_of_length_le (by omega)] at h
    cases h
  have hget : reads[k] = r := by
    have := List.getElem_cons_drop hk
    rw [h] at this
    exact (List.cons.inj this).1
  simp [streamOf, List.take_add_one, List.getElem?_eq_getElem hk, hget]

theorem payloadOf_succ {reads rest : List TlsRead} {r : TlsRead} {k : Nat}
    (h : reads.drop k = r :: rest) :
    payloadOf reads (k + 1) =
      payloadOf reads k ++ (decode (decode {} (streamOf reads k)).2 r.data).1 := by
  rw [payloadOf, streamOf_succ h, decode_append, payloadOf]

/-- The complete lines of a text, as a transport hands them out. -/
def linesOf (s : Bytes) : List Bytes := (Lines.split LF s).1.filterMap finishLine

/-- The line that is unfinished at the end of a text. -/
def restOf (s : Bytes) : Bytes := (Lines.split LF s).2

theorem linesOf_append (s t : Bytes) : linesOf (s ++ t) = linesOf s ++ linesOf (restOf s ++ t) := by
  simp only [linesOf, restOf, Lines.split_append LF s t, List.filterMap_append]

theorem restOf_append (s t : Bytes) : restOf (s ++ t) = restOf (restOf s ++ t) := by
  simp only [restOf, Lines.split_append LF s t]

theorem split_restOf (s : Bytes) : Lines.split LF (restOf s) = ([], restOf s) :=
  Lines.split_of_not_mem LF _ (Lines.split_snd_not_mem LF s)

/-! ## TCP -/

/-- The TCP connection after `k` of the reads. -/
structure TcpInv (reads : List TlsRead) (k : Nat) (c : TcpConn) : Prop where
  queue : c.queue = reads.drop k
  inBuf : c.inBuf = restOf (streamOf reads k)
  out : c.out = linesOf (streamOf reads k)

theorem tcp_poll {reads : List TlsRead} {k : Nat} {c : TcpConn} (h : TcpInv reads k c)
    (ready : Bool) :
    TcpInv reads (advance (fun _ => true) reads.length k ready) (c.pollCtrlLines ready) := by
  cases ready with
  | false => simpa [advance, TcpConn.pollCtrlLines] using h
  | true =>
    cases hq : c.queue with
    | nil =>
      have hk : reads.length ≤ k := List.drop_eq_nil_iff.mp (h.queue.symm.trans hq)
      simpa [advance, TcpConn.pollCtrlLines, hq, Nat.not_lt.mpr hk] using h
    | cons r queue =>
      have hdrop := h.queue.symm.trans hq
      have hk : k < reads.length := by
        by_contra hn
        rw [List.drop_of_length_le (by omega)] at hdrop
        cases hdrop
      have e : advance (fun _ => true) reads.length k true = k + 1 := by simp [advance, hk]
      rw [e]
      have hs := streamOf_succ hdrop
      constructor
      · simp only [TcpConn.pollCtrlLines, hq]
        rw [← List.tail_drop, hdrop, List.tail_cons]
      · simp only [TcpConn.pollCtrlLines, hq, h.inBuf, hs]
        exact (restOf_append _ _).symm
      · simp only [TcpConn.pollCtrlLines, hq, h.inBuf, h.out, hs]
        exact (linesOf_append _ _).symm

/-- **TCP refines the reader behind open gates.** -/
theorem tcp_refines (reads : List TlsRead) (polls : List Bool) :
    TcpInv reads (advanceAll (fun _ => true) reads.length 0 polls)
      (polls.foldl TcpConn.pollCtrlLines { queue := reads }) := by
  have start : TcpInv reads 0 { queue := reads } := ⟨rfl, rfl, rfl⟩
  have all : ∀ k c, TcpInv reads k c → TcpInv reads (advanceAll (fun _ => true) reads.length k polls)
      (polls.foldl TcpConn.pollCtrlLines c) := by
    induction polls with
    | nil => exact fun k c h => h
    | cons ready polls ih => exact fun k c h => ih _ _ (tcp_poll h ready)
  exact all 0 _ start

/-! ## WebSocket -/

/-- No line is unfinished after the first `k` reads. -/
def atLineEnd (reads : List TlsRead) (k : Nat) : Bool := restOf (payloadOf reads k) = []

/-- The WebSocket connection after `k` of the reads. -/
structure WsInv (reads : List TlsRead) (k : Nat) (c : WsConn) : Prop where
  queue : c.queue = reads.drop k
  reader : c.reader = ⟨(decode {} (streamOf reads k)).2, [], 0⟩
  rest : c.readBuf.drop c.readBufPos = restOf (payloadOf reads k)
  out : c.out = linesOf (payloadOf reads k)

/-- Cutting the lines from what is unread. -/
theorem extract_drop (c : WsConn) :
    c.extract.readBuf.drop c.extract.readBufPos = restOf (c.readBuf.drop c.readBufPos) := by
  obtain ⟨hs, _⟩ := Lines.split_spec LF (c.readBuf.drop c.readBufPos)
  have hdrop := congrArg
    (List.drop (Lines.join LF (Lines.split LF (c.readBuf.drop c.readBufPos)).1).length) hs
  rw [List.drop_left, List.drop_drop] at hdrop
  exact hdrop

theorem extract_out (c : WsConn) :
    c.extract.out = c.out ++ linesOf (c.readBuf.drop c.readBufPos) := rfl

theorem ws_poll_buffered {c : WsConn} (h : c.readBufPos < c.readBuf.length) (ready : Bool) :
    c.pollCtrlLines ready = c.extract := by
  simp [WsConn.pollCtrlLines, h]

theorem ws_poll_read {c : WsConn} (h : ¬ c.readBufPos < c.readBuf.length) {r : TlsRead}
    {queue : List TlsRead} (hq : c.queue = r :: queue) :
    c.pollCtrlLines true =
      WsConn.extract (WsConn.drainReader { c with reader := c.reader.feed r.data, queue := queue }) := by
  simp [WsConn.pollCtrlLines, h, hq]

theorem wsInv_extract {reads : List TlsRead} {k : Nat} {c : WsConn} (h : WsInv reads k c) :
    WsInv reads k c.extract := by
  have hsplit := split_restOf (payloadOf reads k)
  refine ⟨h.queue, h.reader, ?_, ?_⟩
  · rw [extract_drop, h.rest, restOf, hsplit]
  · simp [WsConn.extract, h.rest, hsplit, h.out]

/-- A read after a line end: its payload is all that is unread. -/
theorem drainReader_feed {reads : List TlsRead} {k : Nat} {c : WsConn} (h : WsInv reads k c)
    (hread : c.readBuf.length ≤ c.readBufPos) (r : TlsRead) (queue : List TlsRead) :
    let d := decode (decode {} (streamOf reads k)).2 r.data
    let c' := WsConn.drainReader { c with reader := c.reader.feed r.data, queue := queue }
    c'.queue = queue ∧ c'.reader = ⟨d.2, [], 0⟩ ∧ c'.readBuf.drop c'.readBufPos = d.1 ∧
      c'.out = c.out := by
  intro d c'
  have hfeed : c.reader.feed r.data = ⟨d.2, d.1, 0⟩ := by
    rw [feed_eq, h.reader]
    simp only [List.nil_append, d]
  have hle : d.1.length ≤ 4096 := Nat.le_trans (length_decode_le _ _) r.short
  by_cases hd : d.1 = []
  · have hc' : c' = { c with reader := ⟨d.2, d.1, 0⟩, queue := queue } := by
      simp only [c', WsConn.drainReader, hfeed, FrameReader.available, hd, List.length_nil]
      rfl
    rw [hc']
    refine ⟨rfl, by rw [hd], ?_, rfl⟩
    simp only [hd]
    exact List.drop_of_length_le hread
  · have hpos := List.length_pos_iff.mpr hd
    have hc' : c' = { c with
        reader := ⟨d.2, [], 0⟩
        queue := queue
        readBuf := (if 0 < c.readBufPos ∧ c.readBuf.length ≤ c.readBufPos then [] else c.readBuf) ++ d.1
        readBufPos := if 0 < c.readBufPos ∧ c.readBuf.length ≤ c.readBufPos then 0
          else c.readBufPos } := by
      simp only [c', WsConn.drainReader, hfeed, FrameReader.available, Nat.sub_zero, hpos,
        ↓reduceIte, take_all d.2 d.1 4096 hd hle]
    rw [hc']
    refine ⟨rfl, rfl, ?_, rfl⟩
    simp only
    by_cases hpos0 : 0 < c.readBufPos
    · simp [hpos0, hread]
    · have hzero : c.readBufPos = 0 := by omega
      have hnil : c.readBuf = [] := List.length_eq_zero_iff.mp (by omega)
      simp [hzero, hnil]

theorem ws_poll {reads : List TlsRead} {k : Nat} {c : WsConn} (h : WsInv reads k c)
    (ready : Bool) :
    WsInv reads (advance (atLineEnd reads) reads.length k ready) (c.pollCtrlLines ready) := by
  have hbuf : c.readBufPos < c.readBuf.length ↔ restOf (payloadOf reads k) ≠ [] := by
    rw [← h.rest, ne_eq, List.drop_eq_nil_iff]
    omega
  by_cases hlt : c.readBufPos < c.readBuf.length
  · have hgate : atLineEnd reads k = false := by simpa [atLineEnd] using hbuf.mp hlt
    have e : advance (atLineEnd reads) reads.length k ready = k := by simp [advance, hgate]
    rw [e, ws_poll_buffered hlt]
    exact wsInv_extract h
  · have hrest : restOf (payloadOf reads k) = [] := by
      by_contra hne
      exact hlt (hbuf.mpr hne)
    have hgate : atLineEnd reads k = true := by simpa [atLineEnd] using hrest
    cases ready with
    | false => simpa [advance, WsConn.pollCtrlLines, hlt] using h
    | true =>
      cases hq : c.queue with
      | nil =>
        have hk : reads.length ≤ k := List.drop_eq_nil_iff.mp (h.queue.symm.trans hq)
        simpa [advance, WsConn.pollCtrlLines, hlt, hq, Nat.not_lt.mpr hk] using h
      | cons r queue =>
        have hdrop := h.queue.symm.trans hq
        have hk : k < reads.length := by
          by_contra hn
          rw [List.drop_of_length_le (by omega)] at hdrop
          cases hdrop
        have e : advance (atLineEnd reads) reads.length k true = k + 1 := by
          simp [advance, hk, hgate]
        rw [e, ws_poll_read hlt hq]
        obtain ⟨hqueue, hreader, hunread, hout⟩ := drainReader_feed h (by omega) r queue
        have hp := payloadOf_succ hdrop
        constructor
        · simp only [WsConn.extract, hqueue]
          rw [← List.tail_drop, hdrop, List.tail_cons]
        · simp only [WsConn.extract, hreader, streamOf_succ hdrop, decode_append]
        · rw [extract_drop, hunread, hp, restOf_append, hrest, List.nil_append]
        · rw [hp, linesOf_append, hrest, List.nil_append, extract_out, hunread, hout, h.out]

/-- **WebSocket refines the reader behind gates at the line ends.** -/
theorem ws_refines (used : Bytes) (reads : List TlsRead) (polls : List Bool) :
    WsInv reads (advanceAll (atLineEnd reads) reads.length 0 polls)
      (polls.foldl WsConn.pollCtrlLines (WsConn.start used reads)) := by
  have start : WsInv reads 0 (WsConn.start used reads) :=
    ⟨rfl, rfl, List.drop_length, rfl⟩
  have all : ∀ k c, WsInv reads k c → WsInv reads (advanceAll (atLineEnd reads) reads.length k polls)
      (polls.foldl WsConn.pollCtrlLines c) := by
    induction polls with
    | nil => exact fun k c h => h
    | cons ready polls ih => exact fun k c h => ih _ _ (ws_poll h ready)
  exact all 0 _ start

/-! ## Delivery -/

/-- A control line as the server sends it. -/
structure CtrlLine where
  text : Bytes
  ctrl : kCtrlLinePrefix <+: text := by decide
  noLF : LF ∉ text := by decide
  noCR : ∀ h : text ≠ [], text.getLast h ≠ CR := by decide

/-- The stream that the server sends. -/
def sentStream (lines : List CtrlLine) : Bytes := Lines.join LF (lines.map (·.text))

/-- However the polls fall, the lines come out once, in order, and all of them after as many
polls with data as there are reads. -/
def DeliversAll (out : List Bool → List Bytes) (reads : List TlsRead) (lines : List CtrlLine) : Prop :=
  ∀ polls, out polls <+: lines.map (·.text) ∧
    (reads.length ≤ polls.count true → out polls = lines.map (·.text))

def tcpOut (reads : List TlsRead) (polls : List Bool) : List Bytes :=
  (polls.foldl TcpConn.pollCtrlLines { queue := reads }).out

def wsOut (used : Bytes) (reads : List TlsRead) (polls : List Bool) : List Bytes :=
  (polls.foldl WsConn.pollCtrlLines (WsConn.start used reads)).out

/-- After each read, the payload received so far is empty or ends at a line end. -/
def Aligned (reads : List TlsRead) : Prop :=
  ∀ k ≤ reads.length, payloadOf reads k = [] ∨ (payloadOf reads k).getLast? = some LF

theorem atLineEnd_iff (reads : List TlsRead) (k : Nat) :
    atLineEnd reads k = true ↔ payloadOf reads k = [] ∨ (payloadOf reads k).getLast? = some LF := by
  rw [← Lines.split_snd_eq_nil, atLineEnd, decide_eq_true_iff, restOf]

theorem finishLine_ctrl (l : CtrlLine) : finishLine l.text = some l.text := by
  have hne : l.text ≠ [] := by
    intro e
    have := l.ctrl.length_le
    rw [e] at this
    exact absurd this (by decide)
  have htrim : trimRight (· = CR) l.text = l.text :=
    trimRight_of_last fun hl => by simpa using l.noCR hl
  simp only [finishLine, htrim, hne, ↓reduceIte]

theorem split_sentStream (lines : List CtrlLine) :
    Lines.split LF (sentStream lines) = (lines.map (·.text), []) := by
  apply Lines.split_join
  intro l hl
  obtain ⟨c, _, rfl⟩ := List.mem_map.mp hl
  exact c.noLF

/-- Control lines are handed out as they are. -/
theorem filterMap_ctrl {lines : List CtrlLine} {ls : List Bytes}
    (h : ∀ l ∈ ls, l ∈ lines.map (·.text)) : ls.filterMap finishLine = ls := by
  have hsome : ∀ l ∈ ls, finishLine l = some l := by
    intro l hl
    obtain ⟨c, _, rfl⟩ := List.mem_map.mp (h l hl)
    exact finishLine_ctrl c
  rw [List.filterMap_congr hsome, List.filterMap_some]

theorem linesOf_sentStream (lines : List CtrlLine) :
    linesOf (sentStream lines) = lines.map (·.text) := by
  rw [linesOf, split_sentStream]
  exact filterMap_ctrl fun l hl => hl

theorem linesOf_prefix (s t : Bytes) : linesOf s <+: linesOf (s ++ t) := by
  rw [linesOf_append]
  exact List.prefix_append _ _

theorem streamOf_mono (reads : List TlsRead) {j k : Nat} (h : j ≤ k) :
    ∃ t, streamOf reads k = streamOf reads j ++ t := by
  have htake : reads.take k = reads.take j ++ (reads.drop j).take (k - j) := by
    rw [← List.take_add]
    congr
    omega
  exact ⟨(((reads.drop j).take (k - j)).map (·.data)).flatten, by simp [streamOf, htake]⟩

theorem payloadOf_mono (reads : List TlsRead) {j k : Nat} (h : j ≤ k) :
    ∃ t, payloadOf reads k = payloadOf reads j ++ t := by
  obtain ⟨t, ht⟩ := streamOf_mono reads h
  rw [payloadOf, payloadOf, ht, decode_append]
  exact ⟨_, rfl⟩

/-- An unfinished line has not been handed out: lines are missing before it is complete. -/
theorem linesOf_ne_of_rest {s t : Bytes} {lines : List CtrlLine} (h : s ++ t = sentStream lines)
    (hrest : restOf s ≠ []) : linesOf s ≠ lines.map (·.text) := by
  intro e
  have hsplit := Lines.split_append LF s t
  rw [h, split_sentStream, Prod.mk.injEq] at hsplit
  obtain ⟨hlines, hnil⟩ := hsplit
  have hself : linesOf s = (Lines.split LF s).1 :=
    filterMap_ctrl fun l hl => by rw [hlines]; exact List.mem_append_left _ hl
  -- all lines stand in `s`, so none is left for what follows
  have hnone : (Lines.split LF ((Lines.split LF s).2 ++ t)).1 = [] := by
    rw [← hself, e] at hlines
    simpa using hlines
  obtain ⟨hspec, _⟩ := Lines.split_spec LF ((Lines.split LF s).2 ++ t)
  rw [hnone, ← hnil, Lines.join_nil, List.append_nil, List.append_eq_nil_iff] at hspec
  exact hrest hspec.1

theorem tcp_delivers {lines : List CtrlLine} {reads : List TlsRead}
    (hs : streamOf reads reads.length = sentStream lines) :
    DeliversAll (tcpOut reads) reads lines := by
  intro polls
  have hinv := tcp_refines reads polls
  constructor
  · obtain ⟨t, ht⟩ := streamOf_mono reads (advanceAll_le (fun _ => true) polls (Nat.zero_le reads.length))
    rw [tcpOut, hinv.out, ← linesOf_sentStream, ← hs, ht]
    exact linesOf_prefix _ _
  · intro hp
    have hall := advanceAll_open (fun _ => true) (fun _ _ => rfl) 0 polls
      (Nat.zero_le reads.length) (by omega)
    rw [tcpOut, hinv.out, hall, hs, linesOf_sentStream]

theorem ws_delivers_iff {lines : List CtrlLine} {reads : List TlsRead} (used : Bytes)
    (hs : payloadOf reads reads.length = sentStream lines) :
    DeliversAll (wsOut used reads) reads lines ↔ Aligned reads := by
  constructor
  · intro h k hk
    rw [← atLineEnd_iff]
    by_contra hgate
    rw [Bool.not_eq_true] at hgate
    -- as many polls as there are reads do not pass the `k`-th
    have hout := (h (List.replicate reads.length true)).2 (by simp)
    have hinv := ws_refines used reads (List.replicate reads.length true)
    have hle := advanceAll_shut hgate reads.length 0 (List.replicate reads.length true)
      (Nat.zero_le k)
    obtain ⟨t, ht⟩ := payloadOf_mono reads hle
    obtain ⟨u, hu⟩ := payloadOf_mono reads hk
    have hne : linesOf (payloadOf reads k) ≠ lines.map (·.text) :=
      linesOf_ne_of_rest (hu.symm.trans hs) (by simpa [atLineEnd] using hgate)
    rw [wsOut, hinv.out] at hout
    have hpre := linesOf_prefix (payloadOf reads k) u
    rw [← hu, hs, linesOf_sentStream] at hpre
    have hpre' := linesOf_prefix (payloadOf reads
      (advanceAll (atLineEnd reads) reads.length 0 (List.replicate reads.length true))) t
    rw [← ht, hout] at hpre'
    exact hne (hpre.eq_of_length_le hpre'.length_le)
  · intro h polls
    have hinv := ws_refines used reads polls
    constructor
    · obtain ⟨t, ht⟩ := payloadOf_mono reads
        (advanceAll_le (atLineEnd reads) polls (Nat.zero_le reads.length))
      rw [wsOut, hinv.out, ← linesOf_sentStream, ← hs, ht]
      exact linesOf_prefix _ _
    · intro hp
      have hopen : ∀ k < reads.length, atLineEnd reads k = true := fun k hk =>
        (atLineEnd_iff reads k).mpr (h k (Nat.le_of_lt hk))
      have hall := advanceAll_open (atLineEnd reads) hopen 0 polls (Nat.zero_le _) (by omega)
      rw [wsOut, hinv.out, hall, hs, linesOf_sentStream]

/-- For every stream of control lines and every cut of it into reads and frames: the TCP
transport hands out every line, and the WebSocket transport does exactly when no read
leaves a line unfinished. -/
theorem polls_deliver_iff_aligned (lines : List CtrlLine) (used : Bytes)
    (tcpReads wsReads : List TlsRead) (frames : List Frame)
    (htcp : streamOf tcpReads tcpReads.length = sentStream lines)
    (hws : streamOf wsReads wsReads.length = frames.flatMap Frame.encode)
    (hdata : frames.flatMap Frame.data = sentStream lines) :
    DeliversAll (tcpOut tcpReads) tcpReads lines ∧
      (DeliversAll (wsOut used wsReads) wsReads lines ↔ Aligned wsReads) := by
  obtain ⟨q, _, hdec⟩ := decode_frames {} frames rfl
  have hpay : payloadOf wsReads wsReads.length = sentStream lines := by
    rw [payloadOf, hws, hdec, hdata]
  exact ⟨tcp_delivers htcp, ws_delivers_iff used hpay⟩

def logListLine : CtrlLine := { text := ascii "C log_list 6e1f" }

/-- One line: cut in the middle for TCP, and header and payload in a read each for WebSocket. -/
theorem polls_deliver_iff_aligned_one_line :
    DeliversAll (tcpOut [{ data := ascii "C log_" }, { data := ascii "list 6e1f\n" }])
      [{ data := ascii "C log_" }, { data := ascii "list 6e1f\n" }] [logListLine] ∧
    (DeliversAll (wsOut [] [{ data := [130, 16] }, { data := ascii "C log_list 6e1f\n" }])
      [{ data := [130, 16] }, { data := ascii "C log_list 6e1f\n" }] [logListLine] ↔
      Aligned [{ data := [130, 16] }, { data := ascii "C log_list 6e1f\n" }]) :=
  polls_deliver_iff_aligned [logListLine] [] [{ data := ascii "C log_" }, { data := ascii "list 6e1f\n" }]
    [{ data := [130, 16] }, { data := ascii "C log_list 6e1f\n" }]
    [{ payload := ascii "C log_list 6e1f\n" }] (by decide) (by decide) (by decide)

/-- The same frame in two reads, cut after `"C log_"`. -/
def halfLine : List TlsRead :=
  [{ data := [130, 16] ++ ascii "C log_" }, { data := ascii "list 6e1f\n" }]

/-- The reads carry one frame with one line, and three polls hand out nothing. -/
theorem half_line_stops_polling :
    streamOf halfLine halfLine.length = [({ payload := ascii "C log_list 6e1f\n" } : Frame)].flatMap
      Frame.encode ∧
    wsOut [] halfLine [true, true, true] = [] ∧
    ¬ DeliversAll (wsOut [] halfLine) halfLine [logListLine] := by
  have hout : wsOut [] halfLine [true, true, true] = [] := by decide
  refine ⟨by decide, hout, fun h => ?_⟩
  have hall := (h [true, true, true]).2 (by decide)
  rw [hout] at hall
  cases hall

end TrafficMonitor.PollCtrlLines
