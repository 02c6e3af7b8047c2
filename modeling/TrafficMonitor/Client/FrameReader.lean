import TrafficMonitor.Basic.Bytes

/-!
# Frames from the server to the client

`Frame.encode` writes one unmasked frame as `WsServerStream::writeFrame` does, for any
opcode; `FrameReader` is the client's byte-driven parser with its payload buffer.

Proved here:

* `decode_append`: the parser does not see how its input is cut;
* `decode_frame`: a frame read from its first byte leaves the payload of a data frame, or
  nothing, and the parser at a frame boundary;
* `decode_frames`: the payloads of any sequence of frames come out in order;
* `feed_eq`: feeding appends what the parser decodes to the buffer;
* `take_all`: taking everything that is available leaves the buffer empty.
-/

namespace TrafficMonitor.Ws

open Bytes

def kOpcodeContinuation : Nat := 0x0
def kOpcodeBinary : Nat := 0x2

/-! ## The parser -/

inductive State
  | Byte0
  | Byte1
  | ExtLen16_Hi
  | ExtLen16_Lo
  | ExtLen64
  | Payload
  deriving DecidableEq, Repr

structure Parser where
  state : State := .Byte0
  opcode : Nat := 0
  fin : Bool := false
  payloadLen : Nat := 0
  extLenBytesRead : Nat := 0
  payloadBytesRead : Nat := 0
  deriving DecidableEq, Repr

/-- The length is known: on to the payload, or to the next frame if there is none. -/
def Parser.withLen (p : Parser) (n : Nat) : Parser :=
  { p with
    payloadLen := n
    payloadBytesRead := 0
    state := if n = 0 then .Byte0 else .Payload }

/-- Payload of these frames is kept; that of ping, pong and close frames is dropped. -/
def isData (opcode : Nat) : Bool := opcode = kOpcodeBinary || opcode = kOpcodeContinuation

/-- `processByte`: the parser afterwards, and the byte pushed to the payload buffer. -/
def Parser.processByte (p : Parser) (b : UInt8) : Parser × Option UInt8 :=
  match p.state with
  | .Byte0 => ({ p with fin := 128 ≤ b.toNat, opcode := b.toNat % 16, state := .Byte1 }, none)
  | .Byte1 =>
    let len7 := b.toNat % 128
    if len7 < 126 then (p.withLen len7, none)
    else if len7 = 126 then
      ({ p with payloadLen := 0, extLenBytesRead := 0, state := .ExtLen16_Hi }, none)
    else ({ p with payloadLen := 0, extLenBytesRead := 0, state := .ExtLen64 }, none)
  | .ExtLen16_Hi => ({ p with payloadLen := b.toNat * 256, state := .ExtLen16_Lo }, none)
  | .ExtLen16_Lo => (p.withLen (p.payloadLen + b.toNat), none)
  | .ExtLen64 =>
    let len := p.payloadLen * 256 % 2 ^ 64 + b.toNat
    let p := { p with payloadLen := len, extLenBytesRead := p.extLenBytesRead + 1 }
    (if p.extLenBytesRead = 8 then p.withLen len else p, none)
  | .Payload =>
    ({ p with
       payloadBytesRead := p.payloadBytesRead + 1
       state := if p.payloadBytesRead + 1 = p.payloadLen then .Byte0 else .Payload },
     if isData p.opcode then some b else none)

/-- The payload bytes of a piece of the stream, and the parser after it. -/
def decode : Parser → Bytes → Bytes × Parser
  | p, [] => ([], p)
  | p, b :: s =>
    let r := p.processByte b
    let d := decode r.1 s
    (r.2.toList ++ d.1, d.2)

theorem decode_append (p : Parser) (s t : Bytes) :
    decode p (s ++ t) =
      ((decode p s).1 ++ (decode (decode p s).2 t).1, (decode (decode p s).2 t).2) := by
  induction s generalizing p with
  | nil => rfl
  | cons b s ih => simp only [List.cons_append, decode, ih, List.append_assoc]

/-- A piece of the stream holds no more payload than bytes. -/
theorem length_decode_le (p : Parser) (s : Bytes) : (decode p s).1.length ≤ s.length := by
  induction s generalizing p with
  | nil => exact Nat.le_refl 0
  | cons b s ih =>
    have h := ih (p.processByte b).1
    have h1 : ((p.processByte b).2.toList).length ≤ 1 := by cases (p.processByte b).2 <;> simp
    simp only [decode, List.length_append, List.length_cons]
    omega

/-! ## The buffer -/

structure FrameReader where
  parser : Parser := {}
  buf : Bytes := []
  readPos : Nat := 0
  deriving DecidableEq, Repr

def FrameReader.processByte (r : FrameReader) (b : UInt8) : FrameReader :=
  let q := r.parser.processByte b
  { r with parser := q.1, buf := r.buf ++ q.2.toList }

def FrameReader.feed (r : FrameReader) (data : Bytes) : FrameReader := data.foldl .processByte r

def FrameReader.available (r : FrameReader) : Nat := r.buf.length - r.readPos

/-- `take`: up to `n` bytes, and the reader with its buffer compacted when half is read. -/
def FrameReader.take (r : FrameReader) (n : Nat) : Bytes × FrameReader :=
  let got := min n r.available
  let out := (r.buf.drop r.readPos).take got
  let pos := r.readPos + got
  if r.buf.length / 2 ≤ pos ∧ 0 < pos then (out, { r with buf := r.buf.drop pos, readPos := 0 })
  else (out, { r with readPos := pos })

theorem feed_eq (r : FrameReader) (data : Bytes) :
    r.feed data = { r with
      parser := (decode r.parser data).2
      buf := r.buf ++ (decode r.parser data).1 } := by
  induction data generalizing r with
  | nil => simp [FrameReader.feed, decode]
  | cons b data ih =>
    have h := ih (r.processByte b)
    simp only [FrameReader.feed, List.foldl_cons] at h ⊢
    rw [h]
    simp [FrameReader.processByte, decode]

theorem take_all (p : Parser) (buf : Bytes) (n : Nat) (hne : buf ≠ []) (hn : buf.length ≤ n) :
    (FrameReader.mk p buf 0).take n = (buf, ⟨p, [], 0⟩) := by
  have hpos := List.length_pos_iff.mpr hne
  simp only [FrameReader.take, FrameReader.available, Nat.sub_zero, Nat.min_eq_right hn,
    List.drop_zero, List.take_length, Nat.zero_add]
  rw [if_pos ⟨by omega, hpos⟩, List.drop_length]

/-! ## Frames -/

/-- A frame with its opcode and payload; the length fits the 64-bit length field. -/
structure Frame where
  fin : Bool := true
  opcode : Nat := kOpcodeBinary
  payload : Bytes
  opcode_lt : opcode < 16 := by decide
  len_lt : payload.length < 2 ^ 64 := by decide

/-- `k` bytes of `n`, the most significant first. -/
def lenBytes : Nat → Nat → Bytes
  | 0, _ => []
  | k + 1, n => UInt8.ofNat (n / 256 ^ k) :: lenBytes k n

def lenField (n : Nat) : Bytes :=
  if n < 126 then [UInt8.ofNat n]
  else if n ≤ 0xFFFF then 126 :: lenBytes 2 n
  else 127 :: lenBytes 8 n

/-- `writeFrame`: the header, and the payload after it. -/
def Frame.encode (f : Frame) : Bytes :=
  UInt8.ofNat ((if f.fin then 128 else 0) + f.opcode) :: (lenField f.payload.length ++ f.payload)

/-- What the reader keeps of the frame. -/
def Frame.data (f : Frame) : Bytes := if isData f.opcode then f.payload else []

theorem decode_cons_none {p q : Parser} {b : UInt8} (s : Bytes) (h : p.processByte b = (q, none)) :
    decode p (b :: s) = decode q s := by
  simp [decode, h]

/-- `(n >> 8 * (k + 1)) << 8 | (n >> 8 * k) & 0xFF` is `n >> 8 * k`. -/
theorem next_byte (n k : Nat) (hn : n < 2 ^ 64) :
    n / 256 ^ (k + 1) * 256 % 2 ^ 64 + (UInt8.ofNat (n / 256 ^ k)).toNat = n / 256 ^ k := by
  have e : n / 256 ^ (k + 1) = n / 256 ^ k / 256 := by rw [Nat.pow_succ, Nat.div_div_eq_div_mul]
  have hle : n / 256 ^ k ≤ n := Nat.div_le_self ..
  rw [e, UInt8.toNat_ofNat']
  omega

/-- The rest of a long length field. -/
theorem decode_lenBytes (k n : Nat) (p : Parser) (s : Bytes) (hn : n < 2 ^ 64)
    (hs : p.state = .ExtLen64) (hr : p.extLenBytesRead + (k + 1) = 8)
    (hl : p.payloadLen = n / 256 ^ (k + 1)) :
    ∃ q : Parser, q.opcode = p.opcode ∧
      decode p (lenBytes (k + 1) n ++ s) = decode (q.withLen n) s := by
  induction k generalizing p with
  | zero =>
    have hb := next_byte n 0 hn
    rw [← hl] at hb
    simp only [Nat.pow_zero, Nat.div_one] at hb
    refine ⟨{ p with extLenBytesRead := p.extLenBytesRead + 1 }, rfl, ?_⟩
    rw [lenBytes, List.cons_append, lenBytes, List.nil_append]
    apply decode_cons_none
    simp only [Parser.processByte, hs, Nat.pow_zero, Nat.div_one, hb, hr, ↓reduceIte]
    rfl
  | succ k ih =>
    have hb := next_byte n (k + 1) hn
    rw [← hl] at hb
    have hne : p.extLenBytesRead + 1 ≠ 8 := by omega
    obtain ⟨q, hq, hd⟩ := ih
      { p with payloadLen := n / 256 ^ (k + 1), extLenBytesRead := p.extLenBytesRead + 1 } hs
      (by simp only; omega) rfl
    refine ⟨q, hq, ?_⟩
    rw [← hd, lenBytes, List.cons_append]
    apply decode_cons_none
    simp only [Parser.processByte, hs, hb, hne, ↓reduceIte]

/-- The length field, after the first byte of the frame. -/
theorem decode_lenField (p : Parser) (n : Nat) (s : Bytes) (hp : p.state = .Byte1)
    (hn : n < 2 ^ 64) :
    ∃ q : Parser, q.opcode = p.opcode ∧
      decode p (lenField n ++ s) = decode (q.withLen n) s := by
  unfold lenField
  split
  · rename_i h
    refine ⟨p, rfl, ?_⟩
    apply decode_cons_none
    have e : (UInt8.ofNat n).toNat % 128 = n := by rw [UInt8.toNat_ofNat']; omega
    simp only [Parser.processByte, hp, e, h, ↓reduceIte]
  split
  · rename_i h
    refine ⟨{ p with extLenBytesRead := 0, payloadLen := n / 256 * 256, state := .ExtLen16_Lo },
      rfl, ?_⟩
    have e126 : (126 : UInt8).toNat % 128 = 126 := rfl
    have ehi : (UInt8.ofNat (n / 256)).toNat = n / 256 := by rw [UInt8.toNat_ofNat']; omega
    have elo : n / 256 * 256 + (UInt8.ofNat n).toNat = n := by rw [UInt8.toNat_ofNat']; omega
    simp only [lenBytes, Nat.pow_one, Nat.pow_zero, Nat.div_one, List.cons_append, List.nil_append]
    rw [decode_cons_none (q := { p with
      payloadLen := 0, extLenBytesRead := 0, state := .ExtLen16_Hi })]
    · rw [decode_cons_none (q := { p with
        payloadLen := n / 256 * 256, extLenBytesRead := 0, state := .ExtLen16_Lo })]
      · apply decode_cons_none
        simp only [Parser.processByte, elo]
      · simp only [Parser.processByte, ehi]
    · simp only [Parser.processByte, hp, e126]
      rfl
  · obtain ⟨q, hq, hd⟩ := decode_lenBytes 7 n
      { p with payloadLen := 0, extLenBytesRead := 0, state := .ExtLen64 } s hn rfl rfl
      (by simp only; omega)
    refine ⟨q, hq, ?_⟩
    rw [← hd, List.cons_append]
    apply decode_cons_none
    have e127 : (127 : UInt8).toNat % 128 = 127 := rfl
    simp only [Parser.processByte, hp, e127]
    rfl

/-- The payload, which the parser has to the end. -/
theorem decode_payload (p : Parser) (s : Bytes) (hp : p.state = .Payload) (hne : s ≠ [])
    (hlen : p.payloadBytesRead + s.length = p.payloadLen) :
    ∃ q : Parser, q.state = .Byte0 ∧
      decode p s = (if isData p.opcode then s else [], q) := by
  induction s generalizing p with
  | nil => exact absurd rfl hne
  | cons b s ih =>
    simp only [List.length_cons] at hlen
    by_cases hs : s = []
    · subst hs
      refine ⟨(p.processByte b).1, ?_, ?_⟩
      · simp only [List.length_nil] at hlen
        simp [Parser.processByte, hp, hlen]
      · simp only [decode, Parser.processByte, hp]
        split <;> rfl
    · have hpos := List.length_pos_iff.mpr hs
      have hcont : ¬ p.payloadBytesRead + 1 = p.payloadLen := by omega
      obtain ⟨q, hq, hd⟩ := ih
        { p with payloadBytesRead := p.payloadBytesRead + 1, state := .Payload } rfl hs
        (by simp only; omega)
      refine ⟨q, hq, ?_⟩
      simp only [decode, Parser.processByte, hp, hcont, ↓reduceIte, hd]
      split <;> rfl

/-- **One frame.** -/
theorem decode_frame (p : Parser) (f : Frame) (hp : p.state = .Byte0) :
    ∃ q : Parser, q.state = .Byte0 ∧ decode p f.encode = (f.data, q) := by
  have hop := f.opcode_lt
  have ho : (UInt8.ofNat ((if f.fin then 128 else 0) + f.opcode)).toNat % 16 = f.opcode := by
    rw [UInt8.toNat_ofNat']
    split <;> omega
  let p' : Parser := ((p.processByte (UInt8.ofNat ((if f.fin then 128 else 0) + f.opcode))).1)
  have hp' : p' = { p with
      fin := 128 ≤ (UInt8.ofNat ((if f.fin then 128 else 0) + f.opcode)).toNat
      opcode := f.opcode
      state := .Byte1 } := by
    simp only [p', Parser.processByte, hp, ho]
  obtain ⟨q, hq, hd⟩ := decode_lenField p' f.payload.length f.payload (by rw [hp']) f.len_lt
  have hstart : decode p f.encode = decode (q.withLen f.payload.length) f.payload := by
    rw [← hd, Frame.encode]
    apply decode_cons_none
    simp only [p', Parser.processByte, hp]
  have hop' : q.opcode = f.opcode := by rw [hq, hp']
  by_cases hempty : f.payload = []
  · refine ⟨q.withLen 0, rfl, ?_⟩
    rw [hstart, hempty, Frame.data, hempty]
    simp [decode]
  · have hne : f.payload.length ≠ 0 := fun h => hempty (List.length_eq_zero_iff.mp h)
    obtain ⟨r, hr, hpay⟩ := decode_payload (q.withLen f.payload.length) f.payload
      (by simp [Parser.withLen, hne]) hempty (by simp [Parser.withLen])
    refine ⟨r, hr, ?_⟩
    rw [hstart, hpay]
    simp only [Parser.withLen, hop', Frame.data]

/-- **All frames.** -/
theorem decode_frames (p : Parser) (fs : List Frame) (hp : p.state = .Byte0) :
    ∃ q, q.state = .Byte0 ∧ decode p (fs.flatMap Frame.encode) = (fs.flatMap Frame.data, q) := by
  induction fs generalizing p with
  | nil => exact ⟨p, hp, rfl⟩
  | cons f fs ih =>
    obtain ⟨q, hq, hf⟩ := decode_frame p f hp
    obtain ⟨q', hq', hfs⟩ := ih q hq
    exact ⟨q', hq', by simp only [List.flatMap_cons, decode_append, hf, hfs]⟩

end TrafficMonitor.Ws
