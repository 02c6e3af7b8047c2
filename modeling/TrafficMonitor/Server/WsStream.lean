import TrafficMonitor.Basic.Tls
import TrafficMonitor.Client.FrameReader

/-!
# Frames from the client to the server

`buildClientFrame` is the client's encoder. `WsServerStream` is the server's side of the
connection: `fillBuf` reads one masked frame from the TLS stream, and `recv` and `readExact`
hand its payload out as a byte stream.

Proved here:

* `length_readHeader_le`, `unread_fillFrame`: a frame that `fillBuf` skips has been read, so that
  its recursion ends.
-/

namespace TrafficMonitor.WsServer

open Bytes Tls Ws

def kOpcodeClose : Nat := 0x8
def kOpcodePing : Nat := 0x9
def kOpcodePong : Nat := 0xA

/-! ## Frames -/

structure Mask where
  bytes : Bytes
  length_eq : bytes.length = 4 := by decide

/-- `src[i] ^ maskKey[i & 3]`; the key of a frame without a mask is zero. -/
def applyMask (maskKey payload : Bytes) : Bytes :=
  payload.mapIdx fun i b => b ^^^ maskKey.getD (i % 4) 0

/-- The second byte of the header with the mask bit, and the extended length. -/
def lengthBytes (bit n : Nat) : Bytes :=
  if n < 126 then [UInt8.ofNat (bit + n)]
  else if n ≤ 0xFFFF then UInt8.ofNat (bit + 126) :: lenBytes 2 n
  else UInt8.ofNat (bit + 127) :: lenBytes 8 n

/-- A frame with `FIN=1`. Frames of the client carry a mask. -/
def frameBytes (opcode : Nat) (mask : Option Mask) (payload : Bytes) : Bytes :=
  UInt8.ofNat (128 + opcode) ::
    (lengthBytes (if mask.isSome then 128 else 0) payload.length ++
      mask.elim [] Mask.bytes ++ mask.elim payload fun m => applyMask m.bytes payload)

def buildClientFrame (payload : Bytes) (maskKey : Mask) : Bytes :=
  frameBytes kOpcodeBinary (some maskKey) payload

/-! ## `WsServerStream` -/

/-- The sanity limit of a frame. -/
def frameLimit : Nat := 2 * 1024 * 1024

structure WsServerStream where
  buf : Bytes := []
  bufPos : Nat := 0
  timedOut : Bool := false
  /-- what the TLS connection still holds -/
  tls : List Event
  deriving DecidableEq, Repr

/-- `payLen = (payLen << 8) | ext[i]`. -/
def beNat (ext : Bytes) : Nat := ext.foldl (fun n b => n * 256 % 2 ^ 64 + b.toNat) 0

/-- `sslReadBlock` of a field of the header; nothing if the connection ends inside. -/
def readField (n : Nat) (es : List Event) : Option Bytes × List Event :=
  let r := sslReadBlock n es
  (if r.1.length = n then some r.1 else none, r.2)

def readLength (len7 : Nat) (es : List Event) : Option Nat × List Event :=
  if len7 = 126 then
    let r := readField 2 es
    (r.1.map beNat, r.2)
  else if len7 = 127 then
    let r := readField 8 es
    (r.1.map beNat, r.2)
  else (some len7, es)

def readMask (masked : Bool) (es : List Event) : Option Bytes × List Event :=
  if masked then readField 4 es else (some [0, 0, 0, 0], es)

structure Header where
  masked : Bool
  maskKey : Bytes
  payLen : Nat
  deriving DecidableEq, Repr

/-- `(b1 & 0x80) != 0`. -/
def maskBit (b1 : UInt8) : Bool := 128 ≤ b1.toNat

/-- The header after its first byte. -/
def readHeader (es : List Event) : Option Header × List Event :=
  match readField 1 es with
  | (none, es) => (none, es)
  | (some b1, es) =>
    let b1 := b1.headD 0
    match readLength (b1.toNat % 128) es with
    | (none, es) => (none, es)
    | (some payLen, es) =>
      match readMask (maskBit b1) es with
      | (none, es) => (none, es)
      | (some maskKey, es) => (some ⟨maskBit b1, maskKey, payLen⟩, es)

/-- How `fillBuf` goes on after a frame: it returns, or it reads the next frame. -/
inductive Fill
  | ret (ok : Bool)
  | again
  deriving DecidableEq, Repr

/-- `fillBuf` after the buffer has been compacted, up to the recursive call. -/
def WsServerStream.fillFrame (s : WsServerStream) : Fill × WsServerStream :=
  match sslRead 1 s.tls with
  | (.timedOut, es) => (.ret false, { s with timedOut := true, tls := es })
  | (.closed, es) => (.ret false, { s with tls := es })
  | (.data b0, es) =>
    let opcode := (b0.headD 0).toNat % 16
    match readHeader es with
    | (none, es) => (.ret false, { s with tls := es })
    | (some h, es) =>
      if frameLimit < h.payLen then (.ret false, { s with tls := es })
      else
        let r := sslReadBlock h.payLen es
        -- the buffer has been resized before the payload is read
        if r.1.length ≠ h.payLen then
          (.ret false, { s with
            buf := s.buf ++ r.1 ++ List.replicate (h.payLen - r.1.length) 0
            tls := r.2 })
        else
          let payload := if h.masked then applyMask h.maskKey r.1 else r.1
          if opcode = kOpcodeClose then
            (.ret false, { s with buf := s.buf ++ payload, tls := r.2 })
          else if opcode = kOpcodePing ∨ opcode = kOpcodePong then
            (.again, { s with tls := r.2 })
          else
            let buf := s.buf ++ payload
            (.ret (s.bufPos < buf.length), { s with buf := buf, tls := r.2 })

/-- The state in which `fillBuf` reads a frame. -/
def WsServerStream.compact (s : WsServerStream) : WsServerStream :=
  { buf := s.buf.drop s.bufPos, bufPos := 0, timedOut := false, tls := s.tls }

/-- The symbols that have not been read. -/
def WsServerStream.unread (s : WsServerStream) : Nat := (symbols s.tls).length

theorem length_sslRead_data {n : Nat} {es es' : List Event} {s : Bytes} (hn : 0 < n)
    (h : sslRead n es = (.data s, es')) : (symbols es').length < (symbols es).length := by
  cases es with
  | nil => cases h
  | cons e es =>
    cases e with
    | timeout => cases h
    | shutdown => cases h
    | record b bs =>
      injection h with _ hes
      rw [← hes]
      simp only [symbols_pushBack, symbols_cons, Event.symbols, List.length_append,
        length_ofBytes, List.length_drop, List.length_cons]
      omega

theorem length_readField_le (n : Nat) (es : List Event) :
    (symbols (readField n es).2).length ≤ (symbols es).length := length_sslReadBlock_le n es

theorem length_readLength_le (len7 : Nat) (es : List Event) :
    (symbols (readLength len7 es).2).length ≤ (symbols es).length := by
  unfold readLength
  split
  · exact length_readField_le ..
  · split
    · exact length_readField_le ..
    · exact Nat.le_refl _

theorem length_readMask_le (masked : Bool) (es : List Event) :
    (symbols (readMask masked es).2).length ≤ (symbols es).length := by
  unfold readMask
  split
  · exact length_readField_le ..
  · exact Nat.le_refl _

theorem length_readHeader_le (es : List Event) :
    (symbols (readHeader es).2).length ≤ (symbols es).length := by
  have h1 := length_readField_le 1 es
  fun_cases readHeader es with
  | case1 es' h => simpa only [h] using h1
  | case2 b1s es' hb b1 es'' hl =>
    have h2 := length_readLength_le (b1.toNat % 128) es'
    rw [hb] at h1
    rw [hl] at h2
    exact Nat.le_trans h2 h1
  | case3 b1s es' hb b1 payLen es'' hl es''' hm =>
    have h2 := length_readLength_le (b1.toNat % 128) es'
    have h3 := length_readMask_le (maskBit b1) es''
    rw [hb] at h1
    rw [hl] at h2
    rw [hm] at h3
    exact Nat.le_trans h3 (Nat.le_trans h2 h1)
  | case4 b1s es' hb b1 payLen es'' hl maskKey es''' hm =>
    have h2 := length_readLength_le (b1.toNat % 128) es'
    have h3 := length_readMask_le (maskBit b1) es''
    rw [hb] at h1
    rw [hl] at h2
    rw [hm] at h3
    exact Nat.le_trans h3 (Nat.le_trans h2 h1)

/-- A frame that `fillBuf` skips has been read. -/
theorem unread_fillFrame {s s' : WsServerStream} (h : s.fillFrame = (.again, s')) :
    s'.unread < s.unread := by
  unfold WsServerStream.fillFrame at h
  split at h
  · cases h
  · cases h
  · rename_i b0 es hread
    have h1 := length_sslRead_data (by decide) hread
    have h2 := length_readHeader_le es
    simp only at h
    split at h
    · cases h
    · rename_i hd es' hhead
      rw [hhead] at h2
      have h3 := length_sslReadBlock_le hd.payLen es'
      split at h
      · cases h
      split at h
      · cases h
      split at h
      · cases h
      split at h
      · injection h with _ hs
        rw [← hs]
        simp only [WsServerStream.unread] at *
        omega
      · cases h

/-- `fillBuf`: up to one frame with a payload for the buffer. -/
def WsServerStream.fillBuf (s : WsServerStream) : Bool × WsServerStream :=
  match _h : s.compact.fillFrame with
  | (.ret ok, s') => (ok, s')
  | (.again, s') => s'.fillBuf
termination_by s.unread
decreasing_by exact unread_fillFrame (s := s.compact) _h

/-- The bytes in the buffer that have not been handed out. -/
def WsServerStream.pending (s : WsServerStream) : Bytes := s.buf.drop s.bufPos

/-- `recv`: the return value and the bytes copied. -/
def WsServerStream.recv (s : WsServerStream) (maxLen : Int) : Int × Bytes × WsServerStream :=
  if maxLen ≤ 0 then (0, [], s)
  else
    let r := if s.buf.length ≤ s.bufPos then s.fillBuf else (true, s)
    if r.1 = false then (if r.2.timedOut then 0 else -1, [], r.2)
    else
      let take := min maxLen.toNat (r.2.buf.length - r.2.bufPos)
      (take, r.2.pending.take take, { r.2 with bufPos := r.2.bufPos + take })

/-- The loop of `readExact` with `n` bytes to go: success, and the bytes copied. Each round copies
at least one byte, so that `n` rounds are enough. -/
def WsServerStream.readLoop : Nat → Nat → WsServerStream → Bool × Bytes × WsServerStream
  | _, 0, s => (true, [], s)
  | 0, _ + 1, s => (false, [], s)
  | rounds + 1, n + 1, s =>
    let r := if s.buf.length ≤ s.bufPos then s.fillBuf else (true, s)
    if r.1 = false then (false, [], r.2)
    else
      let take := min (r.2.buf.length - r.2.bufPos) (n + 1)
      let next := readLoop rounds (n + 1 - take) { r.2 with bufPos := r.2.bufPos + take }
      (next.1, r.2.pending.take take ++ next.2.1, next.2.2)

def WsServerStream.readExact (s : WsServerStream) (n : Nat) : Bool × Bytes × WsServerStream :=
  WsServerStream.readLoop n n s

end TrafficMonitor.WsServer
