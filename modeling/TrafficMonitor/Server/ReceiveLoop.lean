import TrafficMonitor.Protocol

/-!
# The server's receive loop

`runWireDataLoop` reads, inflates, checks the buffer limit, and cuts the buffer into
lines. What a line does is the subject of other modules; here a line is only recorded
as handed to its handler.

Proved here, for every inflater, limit and sequence of reads:

* `runWireDataLoop_of_fits`: while every read fits next to the unfinished line, the lines
  handed over are those of the stream read so far;
* `lines_handled_iff_fits`: all lines of a stream are handed over, and the client stays
  connected, exactly when every read fits.

The check runs before the buffer is cut, so a read of many short lines counts as one
long line: `burst_disconnects` is a stream of one-byte lines that is cut off.
-/

namespace TrafficMonitor.ReceiveLoop

/-- The inflater of a session, `ZlibInflater::feed`: the bytes that one read inflates to,
or `none` on a data error. Without compression the bytes are taken as they are. -/
structure Inflater (Z : Type*) where
  feed : Z → Bytes → Option (Bytes × Z)

def noInflater : Inflater Unit := ⟨fun z data => some (data, z)⟩

/-- `RecvFn`: bytes read, a transient timeout, or the end of the connection. -/
inductive Recv
  | bytes (data : Bytes)
  | timeout
  | disconnect
  deriving DecidableEq, Repr

/-- One turn of the loop: the flag and the two clocks checked at its top, and what
`recvFn` returns. -/
structure Turn where
  running : Bool := true
  elapsed : Nat := 0
  idleSec : Nat := 0
  recv : Recv
  deriving DecidableEq, Repr

/-- The loop ends at the top of this turn. -/
def Turn.expired (config : ServerConfig) (t : Turn) : Bool :=
  !t.running || kMaxSessionSeconds ≤ t.elapsed || config.idle_timeout_seconds ≤ t.idleSec

/-- The receive buffer, the inflater's state, and the lines handed over so far. -/
structure LoopState (Z : Type*) where
  buffer : Bytes := []
  inflater : Z
  handled : List Bytes := []
  deriving DecidableEq, Repr

variable {Z : Type*}

/-- Inflate, append, check the limit, hand over the complete lines; `none` is `break`. -/
def receive (config : ServerConfig) (inf : Inflater Z) (st : LoopState Z) (data : Bytes) :
    Option (LoopState Z) :=
  match inf.feed st.inflater data with
  | none => none
  | some (out, z) =>
    let buffer := st.buffer ++ out
    if buffer.length > config.max_recv_buffer_bytes then none
    else
      let t := Lines.split LF buffer
      some ⟨t.2, z, st.handled ++ t.1⟩

/-- The loop over a sequence of turns: its state, and whether it still runs. -/
def runWireDataLoop (config : ServerConfig) (inf : Inflater Z) :
    LoopState Z → List Turn → LoopState Z × Bool
  | st, [] => (st, true)
  | st, t :: ts =>
    if t.expired config then (st, false)
    else match t.recv with
      | .timeout => runWireDataLoop config inf st ts
      | .disconnect => (st, false)
      | .bytes data => match receive config inf st data with
        | none => (st, false)
        | some st' => runWireDataLoop config inf st' ts

/-! ## The stream that the reads carry -/

/-- The bytes that the reads of the turns inflate to, read by read. -/
def inflateAll (inf : Inflater Z) : Z → List Turn → Option (List Bytes)
  | _, [] => some []
  | z, t :: ts => match t.recv with
    | .bytes data => match inf.feed z data with
      | none => none
      | some (out, z') => (inflateAll inf z' ts).map (out :: ·)
    | _ => inflateAll inf z ts

/-- No turn ends the session by itself: the peer stays, and no clock runs out. -/
def Undisturbed (config : ServerConfig) (ts : List Turn) : Prop :=
  ∀ t ∈ ts, t.expired config = false ∧ t.recv ≠ .disconnect

/-- Every read fits: together with the unfinished line before it, it is not longer than
the receive limit. -/
def ReadsFit (limit : Nat) : Bytes → List Bytes → Prop
  | _, [] => True
  | rest, c :: cs => rest.length + c.length ≤ limit ∧ ReadsFit limit (Lines.feed LF rest c).2 cs

instance decidableReadsFit (limit : Nat) : ∀ rest cs, Decidable (ReadsFit limit rest cs)
  | _, [] => isTrue trivial
  | rest, c :: cs =>
    have := decidableReadsFit limit (Lines.feed LF rest c).2 cs
    inferInstanceAs (Decidable (_ ∧ _))

/-! ## One read -/

theorem receive_eq_some (config : ServerConfig) {inf : Inflater Z} {st st' : LoopState Z}
    {data out : Bytes} {z : Z} (hf : inf.feed st.inflater data = some (out, z)) :
    receive config inf st data = some st' ↔
      st.buffer.length + out.length ≤ config.max_recv_buffer_bytes ∧
        st' = ⟨(Lines.feed LF st.buffer out).2, z,
          st.handled ++ (Lines.feed LF st.buffer out).1⟩ := by
  simp only [receive, hf, Lines.feed, List.length_append]
  by_cases h : st.buffer.length + out.length ≤ config.max_recv_buffer_bytes
  · rw [if_neg (by omega)]
    simp [h, eq_comm]
  · rw [if_pos (by omega)]
    simp [h]

theorem receive_eq_none (config : ServerConfig) {inf : Inflater Z} {st : LoopState Z}
    {data out : Bytes} {z : Z} (hf : inf.feed st.inflater data = some (out, z))
    (h : config.max_recv_buffer_bytes < st.buffer.length + out.length) :
    receive config inf st data = none := by
  simp [receive, hf, h]

/-! ## All reads -/

variable (config : ServerConfig) (inf : Inflater Z)

/-- **While the reads fit** the loop goes on, and has handed over the lines of the stream. -/
theorem runWireDataLoop_of_fits (ts : List Turn) (st : LoopState Z) (cs : List Bytes)
    (hu : Undisturbed config ts) (hi : inflateAll inf st.inflater ts = some cs)
    (hfit : ReadsFit config.max_recv_buffer_bytes st.buffer cs) :
    ∃ z, runWireDataLoop config inf st ts =
      (⟨(Lines.feedAll LF st.buffer cs).2, z,
        st.handled ++ (Lines.feedAll LF st.buffer cs).1⟩, true) := by
  induction ts generalizing st cs with
  | nil =>
    cases hi
    exact ⟨st.inflater, by simp [runWireDataLoop, Lines.feedAll]⟩
  | cons t ts ih =>
    obtain ⟨hexp, hdis⟩ := hu t (by simp)
    have hu' : Undisturbed config ts := fun t ht => hu t (by simp [ht])
    cases hr : t.recv with
    | disconnect => exact absurd hr hdis
    | timeout =>
      simp only [inflateAll, hr] at hi
      simpa [runWireDataLoop, hexp, hr] using ih st cs hu' hi hfit
    | bytes data =>
      simp only [inflateAll, hr] at hi
      cases hf : inf.feed st.inflater data with
      | none => simp [hf] at hi
      | some p =>
        obtain ⟨out, z⟩ := p
        simp only [hf, Option.map_eq_some_iff] at hi
        obtain ⟨cs, hi, rfl⟩ := hi
        have hrec := (receive_eq_some config hf).mpr ⟨hfit.1, rfl⟩
        obtain ⟨z', hrun⟩ := ih ⟨(Lines.feed LF st.buffer out).2, z,
          st.handled ++ (Lines.feed LF st.buffer out).1⟩ cs hu' hi hfit.2
        refine ⟨z', ?_⟩
        simp [runWireDataLoop, hexp, hr, hrec, hrun, Lines.feedAll]

/-- **A read that does not fit** ends the loop. -/
theorem runWireDataLoop_of_not_fits (ts : List Turn) (st : LoopState Z) (cs : List Bytes)
    (hi : inflateAll inf st.inflater ts = some cs)
    (hfit : ¬ ReadsFit config.max_recv_buffer_bytes st.buffer cs) :
    (runWireDataLoop config inf st ts).2 = false := by
  induction ts generalizing st cs with
  | nil =>
    cases hi
    exact absurd trivial hfit
  | cons t ts ih =>
    unfold runWireDataLoop
    split
    · rfl
    cases hr : t.recv with
    | disconnect => rfl
    | timeout =>
      simp only [inflateAll, hr] at hi
      exact ih st cs hi hfit
    | bytes data =>
      simp only [inflateAll, hr] at hi
      cases hf : inf.feed st.inflater data with
      | none => simp [hf] at hi
      | some p =>
        obtain ⟨out, z⟩ := p
        simp only [hf, Option.map_eq_some_iff] at hi
        obtain ⟨cs, hi, rfl⟩ := hi
        by_cases hlen : st.buffer.length + out.length ≤ config.max_recv_buffer_bytes
        · have hrec := (receive_eq_some config hf).mpr ⟨hlen, rfl⟩
          simp only [hrec]
          exact ih _ cs hi fun h => hfit ⟨hlen, h⟩
        · simp only [receive_eq_none config hf (Nat.lt_of_not_le hlen)]

/-- All lines of the stream are handed over, in order, and the client stays connected. -/
def AllLinesHandled (config : ServerConfig) (inf : Inflater Z) (z : Z) (ts : List Turn)
    (lines : List Bytes) : Prop :=
  let r := runWireDataLoop config inf { inflater := z } ts
  r.1.handled = lines ∧ r.2 = true

/-- The loop hands over exactly the lines of a newline-terminated stream, and keeps the
client, if and only if every read fits next to the unfinished line before it. -/
theorem lines_handled_iff_fits (config : ServerConfig) (inf : Inflater Z) (z : Z)
    (ts : List Turn) (lines chunks : List Bytes) (hl : ∀ l ∈ lines, LF ∉ l)
    (hu : Undisturbed config ts) (hi : inflateAll inf z ts = some chunks)
    (hs : chunks.flatten = Lines.join LF lines) :
    AllLinesHandled config inf z ts lines ↔
      ReadsFit config.max_recv_buffer_bytes [] chunks := by
  constructor
  · intro h
    by_contra hfit
    have := runWireDataLoop_of_not_fits config inf ts { inflater := z } chunks hi hfit
    simp [AllLinesHandled, this] at h
  · intro hfit
    obtain ⟨z', hrun⟩ := runWireDataLoop_of_fits config inf ts { inflater := z } chunks hu hi hfit
    have hall : Lines.feedAll LF [] chunks = (lines, []) := by
      rw [Lines.feedAll_eq LF [] chunks (by simp), hs, List.nil_append, Lines.split_join LF _ hl]
    simp [AllLinesHandled, hrun, hall]

/-- Two reads of one short line each, cut inside the second line. -/
theorem lines_handled_iff_fits_two_lines :
    AllLinesHandled {} noInflater () [⟨true, 0, 0, .bytes (ascii "D a\nH")⟩,
      ⟨true, 1, 0, .timeout⟩, ⟨true, 2, 1, .bytes (ascii " b\n")⟩] [ascii "D a", ascii "H b"] ↔
    ReadsFit 1048576 [] [ascii "D a\nH", ascii " b\n"] :=
  lines_handled_iff_fits {} noInflater () _ [ascii "D a", ascii "H b"]
    [ascii "D a\nH", ascii " b\n"] (by decide) (by unfold Undisturbed; decide) rfl (by decide)

/-! ## A burst of short lines -/

/-- Reads of an uncompressed stream of one-byte lines: a first byte, a read that ends its
line, holds `n` more lines and begins one, and the last line end. -/
def burst (n : Nat) : List Bytes :=
  [ascii "a", LF :: Lines.join LF (List.replicate n (ascii "a")) ++ ascii "a", [LF]]

def burstLines (n : Nat) : List Bytes := ascii "a" :: (List.replicate n (ascii "a") ++ [ascii "a"])

private theorem burst_read_length (n : Nat) :
    (LF :: Lines.join LF (List.replicate n (ascii "a")) ++ ascii "a").length = 2 * n + 2 := by
  induction n with
  | zero => rfl
  | succ n ih =>
    have ha : (ascii "a").length = 1 := rfl
    simp only [List.replicate_succ, Lines.join_cons, List.cons_append, List.length_cons,
      List.length_append, ha] at ih ⊢
    omega

private theorem burst_lines_short (n : Nat) (l : Bytes) (h : l ∈ burstLines n) : l = ascii "a" := by
  simp only [burstLines, List.mem_cons, List.mem_append, List.mem_replicate, List.not_mem_nil,
    or_false] at h
  rcases h with h | h | h
  · exact h
  · exact h.2
  · exact h

private theorem burst_flatten (n : Nat) : (burst n).flatten = Lines.join LF (burstLines n) := by
  simp [burst, burstLines]

private theorem burst_not_fits (n : Nat) : ¬ ReadsFit (2 * n + 2) [] (burst n) := by
  have hrest : (Lines.feed LF [] (ascii "a")).2.length = 1 := rfl
  simp only [burst, ReadsFit, hrest, burst_read_length]
  omega

private theorem burst_read_le (n : Nat) (c : Bytes) (h : c ∈ burst n) : c.length ≤ 2 * n + 2 := by
  have ha : (ascii "a").length = 1 := rfl
  simp only [burst, List.mem_cons, List.not_mem_nil, or_false] at h
  rcases h with rfl | rfl | rfl
  · omega
  · exact Nat.le_of_eq (burst_read_length n)
  · simp only [List.length_cons, List.length_nil]
    omega

private theorem inflateAll_noInflater (cs : List Bytes) :
    inflateAll noInflater () (cs.map fun c => { recv := .bytes c }) = some cs := by
  induction cs with
  | nil => rfl
  | cons c cs ih => simp only [List.map_cons, inflateAll, noInflater] at ih ⊢; rw [ih]; rfl

/-- With a limit of 4096 bytes, a stream whose lines are all one byte long is cut off: the
second read fills 4096 bytes, and is a byte too long next to the unfinished first line. -/
theorem burst_disconnects :
    (∀ l ∈ burstLines 2047, LF ∉ l ∧ l.length ≤ 4096) ∧ (∀ c ∈ burst 2047, c.length ≤ 4096) ∧
    (burst 2047).flatten = Lines.join LF (burstLines 2047) ∧
    ¬ AllLinesHandled { max_recv_buffer_bytes := 4096 } noInflater ()
      ((burst 2047).map fun c => { recv := .bytes c }) (burstLines 2047) := by
  refine ⟨?_, burst_read_le 2047, burst_flatten 2047, ?_⟩
  · intro l hl
    rw [burst_lines_short 2047 l hl]
    decide
  · have := runWireDataLoop_of_not_fits { max_recv_buffer_bytes := 4096 } noInflater
      ((burst 2047).map fun c => { recv := .bytes c }) { inflater := () } (burst 2047)
      (inflateAll_noInflater _) (burst_not_fits 2047)
    exact fun h => Bool.false_ne_true (this.symm.trans h.2)

end TrafficMonitor.ReceiveLoop
