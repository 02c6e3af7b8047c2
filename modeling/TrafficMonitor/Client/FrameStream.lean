import TrafficMonitor.Client.FrameReader

/-!
# The payload stream of the frame reader

The reader is fed the stream of frames in pieces of any size, and `take` is called in
between with any sizes. `received fs k` is the payload of the data frames in the first `k`
bytes of the frames `fs`, with the part of a frame that is still arriving.

Proved here:

* `take_eq`: the compaction of the buffer drops exactly what has been handed out;
* `decode_take`: what the parser makes of the first `k` bytes of a stream of frames;
* `pending_run`: what is handed out, with what is left to take, is the received payload;
* `handed_out_received`: the reader hands out the received payload, and nothing else.
-/

namespace TrafficMonitor.Ws

open Bytes

/-! ## The received payload -/

/-- The bytes of a frame before its payload. -/
def Frame.headerLen (f : Frame) : Nat := 1 + (lenField f.payload.length).length

/-- The payload in the first `k` bytes of the frame. -/
def Frame.received (f : Frame) (k : Nat) : Bytes := f.data.take (k - f.headerLen)

/-- The payload in the first `k` bytes of the frames. -/
def received : List Frame → Nat → Bytes
  | [], _ => []
  | f :: fs, k => f.received k ++ received fs (k - f.encode.length)

theorem Frame.length_encode (f : Frame) : f.encode.length = f.headerLen + f.payload.length := by
  simp only [Frame.encode, Frame.headerLen, List.length_cons, List.length_append]
  omega

theorem Frame.received_of_le (f : Frame) {k : Nat} (h : f.encode.length ≤ k) :
    f.received k = f.data := by
  apply List.take_of_length_le
  have hl := f.length_encode
  have hd : f.data.length ≤ f.payload.length := by unfold Frame.data; split <;> simp
  omega

@[simp] theorem received_zero (fs : List Frame) : received fs 0 = [] := by
  induction fs with
  | nil => rfl
  | cons f fs ih => simp [received, Frame.received, ih]

/-- Complete frames come with their whole payload. -/
theorem received_all (fs : List Frame) {k : Nat} (h : (fs.flatMap Frame.encode).length ≤ k) :
    received fs k = fs.flatMap Frame.data := by
  induction fs generalizing k with
  | nil => rfl
  | cons f fs ih =>
    rw [List.flatMap_cons, List.length_append] at h
    rw [received, f.received_of_le (by omega), ih (by omega), List.flatMap_cons]

/-! ## A piece of a frame -/

/-- The header leaves the length and the opcode with the parser, and nothing in the buffer. -/
theorem decode_header (p : Parser) (f : Frame) (hp : p.state = .Byte0) :
    ∃ q : Parser, q.opcode = f.opcode ∧
      decode p (f.encode.take f.headerLen) = ([], q.withLen f.payload.length) := by
  have hop := f.opcode_lt
  have ho : (UInt8.ofNat ((if f.fin then 128 else 0) + f.opcode)).toNat % 16 = f.opcode := by
    rw [UInt8.toNat_ofNat']
    split <;> omega
  have hhead : f.encode.take f.headerLen =
      UInt8.ofNat ((if f.fin then 128 else 0) + f.opcode) :: lenField f.payload.length := by
    rw [Frame.encode, Frame.headerLen, Nat.add_comm, List.take_succ_cons, List.take_left]
  let p' : Parser := { p with
    fin := 128 ≤ (UInt8.ofNat ((if f.fin then 128 else 0) + f.opcode)).toNat
    opcode := f.opcode
    state := .Byte1 }
  obtain ⟨q, hq, hd⟩ := decode_lenField p' f.payload.length [] rfl f.len_lt
  refine ⟨q, hq, ?_⟩
  rw [hhead, decode_cons_none (q := p')]
  · rw [← List.append_nil (lenField _), hd]
    rfl
  · simp only [p', Parser.processByte, hp, ho]

/-- Nothing comes out of a part of a piece that has nothing in it. -/
theorem decode_prefix_nil {p : Parser} {s t : Bytes} (h : (decode p (s ++ t)).1 = []) :
    (decode p s).1 = [] := by
  rw [decode_append] at h
  exact (List.append_eq_nil_iff.mp h).1

/-- A payload that is still arriving. -/
theorem decode_payload_part (p : Parser) (s : Bytes) (hp : s ≠ [] → p.state = .Payload)
    (hlen : p.payloadBytesRead + s.length ≤ p.payloadLen) :
    (decode p s).1 = if isData p.opcode then s else [] := by
  induction s generalizing p with
  | nil => simp [decode]
  | cons b s ih =>
    have hs := hp (List.cons_ne_nil b s)
    simp only [List.length_cons] at hlen
    let q : Parser := { p with
      payloadBytesRead := p.payloadBytesRead + 1
      state := if p.payloadBytesRead + 1 = p.payloadLen then .Byte0 else .Payload }
    have hq : s ≠ [] → q.state = .Payload := by
      intro hne
      have hpos := List.length_pos_iff.mpr hne
      exact if_neg (by omega)
    have h := ih q hq (by simp only [q]; omega)
    simp only [decode, Parser.processByte, hs]
    rw [h]
    simp only [q]
    split <;> rfl

/-- **A part of a frame.** -/
theorem decode_take_frame (p : Parser) (f : Frame) (hp : p.state = .Byte0) {k : Nat}
    (hk : k ≤ f.encode.length) : (decode p (f.encode.take k)).1 = f.received k := by
  obtain ⟨q, hq, hd⟩ := decode_header p f hp
  by_cases hkh : k ≤ f.headerLen
  · -- the header is not complete
    rw [Frame.received, Nat.sub_eq_zero_of_le hkh, List.take_zero]
    apply decode_prefix_nil (t := (f.encode.take f.headerLen).drop k)
    have hcat : f.encode.take k ++ (f.encode.take f.headerLen).drop k =
        f.encode.take f.headerLen := by
      conv_rhs => rw [← List.take_append_drop k (f.encode.take f.headerLen)]
      rw [List.take_take, Nat.min_eq_left hkh]
    rw [hcat, hd]
  · obtain ⟨j, rfl⟩ : ∃ j, k = f.headerLen + j := ⟨k - f.headerLen, by omega⟩
    have hpay : f.encode.drop f.headerLen = f.payload := by
      rw [Frame.encode, Frame.headerLen, Nat.add_comm, List.drop_succ_cons, List.drop_left]
    have hlen := f.length_encode
    have hpos : f.payload.length ≠ 0 := by omega
    have hpart := decode_payload_part (q.withLen f.payload.length) (f.payload.take j)
      (fun _ => by simp [Parser.withLen, hpos])
      (by simp only [Parser.withLen, List.length_take]; omega)
    rw [List.take_add, hpay, decode_append, hd, List.nil_append, hpart, Frame.received,
      Nat.add_sub_cancel_left, Frame.data]
    simp only [Parser.withLen, hq]
    split <;> simp

/-- **A part of a stream of frames**, cut anywhere. -/
theorem decode_take (p : Parser) (fs : List Frame) (hp : p.state = .Byte0) (k : Nat) :
    (decode p ((fs.flatMap Frame.encode).take k)).1 = received fs k := by
  induction fs generalizing p k with
  | nil => simp [decode, received]
  | cons f fs ih =>
    rw [List.flatMap_cons, List.take_append, received]
    by_cases hk : k ≤ f.encode.length
    · rw [Nat.sub_eq_zero_of_le hk, List.take_zero, List.append_nil, received_zero,
        List.append_nil]
      exact decode_take_frame p f hp hk
    · obtain ⟨q, hq, hd⟩ := decode_frame p f hp
      rw [List.take_of_length_le (by omega), decode_append, hd, f.received_of_le (by omega), ih q hq]

/-! ## Feeding and taking -/

/-- A call of the reader. -/
inductive Call
  | feed (data : Bytes)
  | take (n : Nat)
  deriving DecidableEq, Repr

/-- The bytes that a call hands out, and the reader after it. -/
def FrameReader.call (r : FrameReader) : Call → Bytes × FrameReader
  | .feed data => ([], r.feed data)
  | .take n => r.take n

/-- The bytes that a sequence of calls hands out, and the reader after it. -/
def FrameReader.calls (r : FrameReader) : List Call → Bytes × FrameReader
  | [] => ([], r)
  | c :: cs =>
    let out := r.call c
    let outs := out.2.calls cs
    (out.1 ++ outs.1, outs.2)

/-- The bytes from the network that a sequence of calls feeds. -/
def fed : List Call → Bytes
  | [] => []
  | .feed data :: cs => data ++ fed cs
  | .take _ :: cs => fed cs

/-- The bytes that are ready to read. -/
def FrameReader.pending (r : FrameReader) : Bytes := r.buf.drop r.readPos

/-- What every reader meets: the read position is in the buffer. -/
def FrameReader.WellFormed (r : FrameReader) : Prop := r.readPos ≤ r.buf.length

theorem FrameReader.length_pending (r : FrameReader) : r.pending.length = r.available :=
  List.length_drop

/-- **One `take`.** It hands out the first bytes that are ready, and keeps the others. -/
theorem take_eq (r : FrameReader) (n : Nat) :
    (r.take n).1 = r.pending.take n ∧ (r.take n).2.pending = r.pending.drop n ∧
      (r.take n).2.parser = r.parser ∧ (r.WellFormed → (r.take n).2.WellFormed) := by
  have hout : (r.buf.drop r.readPos).take (min n r.available) = r.pending.take n := by
    rw [← r.length_pending, FrameReader.pending, List.take_eq_take_iff]
    omega
  have hdrop : r.buf.drop (r.readPos + min n r.available) = r.pending.drop n := by
    rw [← List.drop_drop, ← r.length_pending, FrameReader.pending]
    rcases Nat.le_total n (r.buf.drop r.readPos).length with h | h
    · rw [Nat.min_eq_left h]
    · rw [Nat.min_eq_right h, List.drop_length, List.drop_of_length_le h]
  have havail : min n r.available ≤ r.buf.length - r.readPos := Nat.min_le_right ..
  simp only [FrameReader.take]
  split
  · refine ⟨hout, hdrop, rfl, fun _ => ?_⟩
    exact Nat.zero_le _
  · refine ⟨hout, hdrop, rfl, fun hr => ?_⟩
    simp only [FrameReader.WellFormed] at hr ⊢
    omega

theorem pending_feed (r : FrameReader) (data : Bytes) (hr : r.WellFormed) :
    (r.feed data).pending = r.pending ++ (decode r.parser data).1 := by
  rw [feed_eq]
  exact List.drop_append_of_le_length hr

/-- **One call.** What is handed out, with what is left, grows by what the call decodes. -/
theorem pending_call (r : FrameReader) (c : Call) (hr : r.WellFormed) :
    (r.call c).2.WellFormed ∧ (r.call c).2.parser = (decode r.parser (fed [c])).2 ∧
      (r.call c).1 ++ (r.call c).2.pending = r.pending ++ (decode r.parser (fed [c])).1 := by
  cases c with
  | feed data =>
    simp only [FrameReader.call, fed, List.append_nil, List.nil_append]
    refine ⟨?_, by rw [feed_eq], pending_feed r data hr⟩
    rw [feed_eq]
    exact Nat.le_trans hr (by simp)
  | take n =>
    obtain ⟨hout, hpend, hpar, hwf⟩ := take_eq r n
    simp only [FrameReader.call, fed, decode, List.append_nil]
    exact ⟨hwf hr, hpar, by rw [hout, hpend, List.take_append_drop]⟩

/-- **Any calls.** -/
theorem pending_calls (r : FrameReader) (cs : List Call) (hr : r.WellFormed) :
    (r.calls cs).1 ++ (r.calls cs).2.pending = r.pending ++ (decode r.parser (fed cs)).1 := by
  induction cs generalizing r with
  | nil => simp [FrameReader.calls, fed, decode]
  | cons c cs ih =>
    obtain ⟨hwf, hpar, hout⟩ := pending_call r c hr
    have hfed : fed (c :: cs) = fed [c] ++ fed cs := by cases c <;> simp [fed]
    simp only [FrameReader.calls]
    rw [List.append_assoc, ih _ hwf, hpar, ← List.append_assoc, hout, hfed, decode_append,
      List.append_assoc]

/-- **A run.** The bytes fed are the beginning of a stream of frames. -/
theorem pending_run {fs : List Frame} {cs : List Call}
    (h : fed cs <+: fs.flatMap Frame.encode) :
    (FrameReader.calls {} cs).1 ++ (FrameReader.calls {} cs).2.pending =
      received fs (fed cs).length := by
  rw [pending_calls {} cs (Nat.le_refl 0), ← decode_take {} fs rfl, ← List.prefix_iff_eq_take.mp h]
  rfl

/-- **The payload stream.** Whatever frames the server writes, however the bytes of the stream
are cut into pieces and whichever calls of `take` come in between: the bytes handed out are the
first bytes of the payload received so far, and the next `take` hands out the next ones, as
many as it asks for or as there are. -/
theorem handed_out_received (fs : List Frame) (cs : List Call) (n : Nat)
    (h : fed cs <+: fs.flatMap Frame.encode) :
    let out := (FrameReader.calls {} cs).1
    let r := (FrameReader.calls {} cs).2
    out <+: received fs (fed cs).length ∧
      (r.take n).1 = ((received fs (fed cs).length).drop out.length).take n ∧
      r.available = (received fs (fed cs).length).length - out.length := by
  have hrun := pending_run h
  refine ⟨⟨_, hrun⟩, ?_, ?_⟩
  · rw [← hrun, List.drop_left]
    exact (take_eq _ n).1
  · rw [← hrun, List.length_append, Nat.add_sub_cancel_left]
    exact (FrameReader.length_pending _).symm

/-- A ping between two data frames, and a stream that stops inside the second. -/
theorem handed_out_received_ping :
    let cs := [.feed [130, 2, 7], .take 1, .feed [8, 137, 3, 1, 2, 3, 130], .feed [2, 9]]
    (FrameReader.calls {} cs).1 = [7] ∧ ((FrameReader.calls {} cs).2.take 5).1 = [8, 9] := by
  have h := handed_out_received [⟨true, 2, [7, 8], by decide, by decide⟩,
    ⟨true, 9, [1, 2, 3], by decide, by decide⟩, ⟨true, 2, [9, 9], by decide, by decide⟩]
    [.feed [130, 2, 7], .take 1, .feed [8, 137, 3, 1, 2, 3, 130], .feed [2, 9]] 5 (by decide)
  exact ⟨by decide, h.2.1⟩

end TrafficMonitor.Ws
