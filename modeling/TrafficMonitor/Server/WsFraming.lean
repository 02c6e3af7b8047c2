import TrafficMonitor.Server.WsStream

/-!
# Frames of a WebSocket client at the server

What the connection carries is a list of items: data frames, ping and pong frames and read
timeouts, up to the first close frame or the end of the connection.

Proved here:

* `readHeader_bytes`: the header is read back, for each of the three length encodings;
* `unmask`: the payload is unmasked with the key that masked it;
* `fillFrame_frame`, `fillFrame_over`: what one frame does to the stream;
* `refilled_fillBuf`: a refill of the empty buffer reads control frames and the item after them.
-/

namespace TrafficMonitor.WsServer

open Bytes Tls Ws

/-! ## What the client sends -/

/-- What the connection carries before the first close frame: data frames from
`buildClientFrame`, ping and pong frames, and read timeouts between the frames. -/
inductive Item
  | data (payload : Bytes) (maskKey : Mask) (len_le : payload.length ≤ frameLimit)
  | ping (payload : Bytes) (mask : Option Mask) (len_lt : payload.length < 2 ^ 64)
  | pong (payload : Bytes) (mask : Option Mask) (len_lt : payload.length < 2 ^ 64)
  | timeout

def Item.symbols : Item → List Symbol
  | .data payload maskKey _ => ofBytes (buildClientFrame payload maskKey)
  | .ping payload mask _ => ofBytes (frameBytes kOpcodePing mask payload)
  | .pong payload mask _ => ofBytes (frameBytes kOpcodePong mask payload)
  | .timeout => [.timeout]

/-- The data that the item carries. -/
def Item.payload : Item → Bytes
  | .data payload _ _ => payload
  | _ => []

/-- What ends the data: the first close frame, or the end of the connection. -/
inductive Ending
  | close (payload : Bytes) (mask : Option Mask) (len_lt : payload.length < 2 ^ 64)
  | shutdown

def Ending.symbols : Ending → List Symbol
  | .close payload mask _ => ofBytes (frameBytes kOpcodeClose mask payload)
  | .shutdown => [.shutdown]

/-! ## The header -/

private theorem beNat_lenBytes_from (k n : Nat) (hn : n < 2 ^ 64) :
    (lenBytes k n).foldl (fun m b => m * 256 % 2 ^ 64 + b.toNat) (n / 256 ^ k) = n := by
  induction k with
  | zero => simp [lenBytes]
  | succ k ih => rw [lenBytes, List.foldl_cons, next_byte n k hn, ih]

theorem beNat_lenBytes {k n : Nat} (hn : n < 2 ^ 64) (hk : n < 256 ^ k) :
    beNat (lenBytes k n) = n := by
  have h := beNat_lenBytes_from k n hn
  rwa [Nat.div_eq_of_lt hk] at h

theorem length_lenBytes (k n : Nat) : (lenBytes k n).length = k := by
  induction k with
  | zero => rfl
  | succ k ih => rw [lenBytes, List.length_cons, ih]

theorem readField_bytes {es : List Event} {s : Bytes} {rest : List Symbol} {n : Nat}
    (hn : s.length = n) (h : symbols es = ofBytes s ++ rest) :
    ∃ es', readField n es = (some s, es') ∧ symbols es' = rest := by
  obtain ⟨es', hr, hs⟩ := sslReadBlock_bytes h
  subst hn
  exact ⟨es', by simp [readField, hr], hs⟩

/-- The second byte says whether there is a mask, and the length or how it is encoded. -/
theorem lengthBytes_eq (masked : Bool) (n : Nat) (hn : n < 2 ^ 64) :
    ∃ b ext, lengthBytes (if masked then 128 else 0) n = b :: ext ∧
      maskBit b = masked ∧
      ∀ es rest, symbols es = ofBytes ext ++ rest →
        ∃ es', readLength (b.toNat % 128) es = (some n, es') ∧ symbols es' = rest := by
  have hbit : ∀ m < 128,
      (UInt8.ofNat ((if masked then 128 else 0) + m)).toNat = (if masked then 128 else 0) + m := by
    intro m hm
    rw [UInt8.toNat_ofNat']
    split <;> omega
  have hmask : ∀ m < 128, maskBit (UInt8.ofNat ((if masked then 128 else 0) + m)) = masked := by
    intro m hm
    rw [maskBit, hbit m hm]
    cases masked <;> simp; omega
  have hmod : ∀ m < 128, ((if masked then 128 else 0) + m) % 128 = m := by
    intro m hm
    split <;> omega
  unfold lengthBytes
  split
  · rename_i h
    refine ⟨_, _, rfl, hmask n (by omega), fun es rest hes => ?_⟩
    refine ⟨es, ?_, hes⟩
    rw [hbit n (by omega), hmod n (by omega), readLength, if_neg (by omega), if_neg (by omega)]
  split
  · rename_i h
    refine ⟨_, _, rfl, hmask 126 (by decide), fun es rest hes => ?_⟩
    obtain ⟨es', hr, hs⟩ := readField_bytes (length_lenBytes 2 n) hes
    refine ⟨es', ?_, hs⟩
    rw [hbit 126 (by decide), hmod 126 (by decide), readLength, if_pos rfl, hr]
    simp [beNat_lenBytes hn (k := 2) (by omega)]
  · refine ⟨_, _, rfl, hmask 127 (by decide), fun es rest hes => ?_⟩
    obtain ⟨es', hr, hs⟩ := readField_bytes (length_lenBytes 8 n) hes
    refine ⟨es', ?_, hs⟩
    rw [hbit 127 (by decide), hmod 127 (by decide), readLength, if_neg (by decide), if_pos rfl, hr]
    simp [beNat_lenBytes hn (k := 8) (by omega)]

/-- The key that the server reads. -/
def keyOf (mask : Option Mask) : Bytes := mask.elim [0, 0, 0, 0] Mask.bytes

theorem readMask_bytes {es : List Event} {rest : List Symbol} (mask : Option Mask)
    (h : symbols es = ofBytes (mask.elim [] Mask.bytes) ++ rest) :
    ∃ es', readMask mask.isSome es = (some (keyOf mask), es') ∧ symbols es' = rest := by
  cases mask with
  | none => exact ⟨es, rfl, h⟩
  | some m =>
    obtain ⟨es', hr, hs⟩ := readField_bytes m.length_eq h
    exact ⟨es', by simpa [readMask, keyOf] using hr, hs⟩

/-- **The header.** -/
theorem readHeader_bytes {es : List Event} {rest : List Symbol} (mask : Option Mask) {n : Nat}
    (hn : n < 2 ^ 64)
    (h : symbols es = ofBytes (lengthBytes (if mask.isSome then 128 else 0) n ++
      mask.elim [] Mask.bytes) ++ rest) :
    ∃ es', readHeader es = (some ⟨mask.isSome, keyOf mask, n⟩, es') ∧ symbols es' = rest := by
  obtain ⟨b, ext, hlen, hmasked, hread⟩ := lengthBytes_eq mask.isSome n hn
  rw [hlen, List.cons_append, ← List.singleton_append, ofBytes_append, ofBytes_append,
    List.append_assoc, List.append_assoc] at h
  obtain ⟨es₁, h₁, hs₁⟩ := readField_bytes (n := 1) rfl h
  obtain ⟨es₂, h₂, hs₂⟩ := hread es₁ _ hs₁
  obtain ⟨es₃, h₃, hs₃⟩ := readMask_bytes mask hs₂
  refine ⟨es₃, ?_, hs₃⟩
  simp only [readHeader, h₁, List.headD_cons, h₂]
  rw [hmasked, h₃]

/-- Masking twice changes nothing. -/
theorem applyMask_applyMask (maskKey payload : Bytes) :
    applyMask maskKey (applyMask maskKey payload) = payload := by
  apply List.ext_getElem
  · simp [applyMask]
  · intro i h₁ h₂
    simp only [applyMask, List.getElem_mapIdx]
    rw [UInt8.xor_assoc, UInt8.xor_self, UInt8.xor_zero]

theorem length_applyMask (maskKey payload : Bytes) :
    (applyMask maskKey payload).length = payload.length := List.length_mapIdx

/-- What follows the header of a frame. -/
def masked (mask : Option Mask) (payload : Bytes) : Bytes :=
  mask.elim payload fun m => applyMask m.bytes payload

theorem length_masked (mask : Option Mask) (payload : Bytes) :
    (masked mask payload).length = payload.length := by
  cases mask with
  | none => rfl
  | some m => exact length_applyMask ..

theorem unmask (mask : Option Mask) (payload : Bytes) :
    (if mask.isSome then applyMask (keyOf mask) (masked mask payload) else masked mask payload) =
      payload := by
  cases mask with
  | none => rfl
  | some m => exact applyMask_applyMask m.bytes payload

/-! ## One frame -/

section

variable {s : WsServerStream} {opcode : Nat} {mask : Option Mask} {payload : Bytes}
  {rest : List Symbol}

/-- The start of a frame, up to its payload. -/
private theorem fillFrame_header (hop : opcode < 16) (hlen : payload.length < 2 ^ 64)
    (h : symbols s.tls = ofBytes (frameBytes opcode mask payload) ++ rest) :
    ∃ es es', sslRead 1 s.tls = (.data [UInt8.ofNat (128 + opcode)], es) ∧
      (UInt8.ofNat (128 + opcode)).toNat % 16 = opcode ∧
      readHeader es = (some ⟨mask.isSome, keyOf mask, payload.length⟩, es') ∧
      symbols es' = ofBytes (masked mask payload) ++ rest := by
  rw [frameBytes, ofBytes_cons, List.cons_append] at h
  obtain ⟨es, hr, hs⟩ := sslRead_byte h
  rw [ofBytes_append, List.append_assoc] at hs
  obtain ⟨es', hr', hs'⟩ := readHeader_bytes mask hlen hs
  refine ⟨es, es', hr, ?_, hr', hs'⟩
  rw [UInt8.toNat_ofNat']
  omega

/-- **A frame over the limit.** Nothing of its payload is read. -/
theorem fillFrame_over (hop : opcode < 16) (hlen : payload.length < 2 ^ 64)
    (hlimit : frameLimit < payload.length)
    (h : symbols s.tls = ofBytes (frameBytes opcode mask payload) ++ rest) :
    ∃ s', s.fillFrame = (.ret false, s') ∧ s'.timedOut = s.timedOut ∧
      symbols s'.tls = ofBytes (masked mask payload) ++ rest := by
  obtain ⟨es, es', hr, hop', hr', hs'⟩ := fillFrame_header hop hlen h
  refine ⟨{ s with tls := es' }, ?_, rfl, hs'⟩
  simp only [WsServerStream.fillFrame, hr, hr', hlimit, ↓reduceIte]

/-- **A frame within the limit.** -/
theorem fillFrame_frame (hop : opcode < 16) (hlimit : payload.length ≤ frameLimit)
    (h : symbols s.tls = ofBytes (frameBytes opcode mask payload) ++ rest) :
    ∃ es, symbols es = rest ∧ s.fillFrame =
      if opcode = kOpcodeClose then
        (.ret false, { s with buf := s.buf ++ payload, tls := es })
      else if opcode = kOpcodePing ∨ opcode = kOpcodePong then (.again, { s with tls := es })
      else
        (.ret (s.bufPos < (s.buf ++ payload).length),
          { s with buf := s.buf ++ payload, tls := es }) := by
  have hlim : frameLimit < 2 ^ 64 := by decide
  obtain ⟨es, es', hr, hop', hr', hs'⟩ := fillFrame_header hop (by omega) h
  obtain ⟨es'', hr'', hs''⟩ := sslReadBlock_bytes hs'
  rw [length_masked] at hr''
  refine ⟨es'', hs'', ?_⟩
  simp only [WsServerStream.fillFrame, hr, hr', Nat.not_lt.mpr hlimit, ↓reduceIte, hr'',
    length_masked, ne_eq, not_true_eq_false, unmask, List.headD_cons, hop']

end

/-! ## A refill -/

/-- What `fillBuf` takes a frame for that it can go on with. -/
def Item.Fits : Item → Prop
  | .data payload _ _ => payload ≠ []
  | .ping payload _ _ => payload.length ≤ frameLimit
  | .pong payload _ _ => payload.length ≤ frameLimit
  | .timeout => True

def Item.isControl : Item → Bool
  | .ping .. => true
  | .pong .. => true
  | _ => false

def wire (items : List Item) : List Symbol := items.flatMap Item.symbols

def payloads (items : List Item) : Bytes := items.flatMap Item.payload

/-- The items that a refill of the empty buffer reads: control frames, and what comes then. -/
def refillReads : List Item → List Item
  | [] => []
  | i :: items => if i.isControl then i :: refillReads items else [i]

@[simp] theorem wire_cons (i : Item) (items : List Item) :
    wire (i :: items) = i.symbols ++ wire items := rfl

@[simp] theorem payloads_cons (i : Item) (items : List Item) :
    payloads (i :: items) = i.payload ++ payloads items := rfl

theorem wire_append (is js : List Item) : wire (is ++ js) = wire is ++ wire js :=
  List.flatMap_append

theorem payloads_append (is js : List Item) : payloads (is ++ js) = payloads is ++ payloads js :=
  List.flatMap_append

theorem WsServerStream.pending_eq_nil {s : WsServerStream} :
    s.pending = [] ↔ s.buf.length ≤ s.bufPos := List.drop_eq_nil_iff

theorem fillBuf_of_ret {s s' : WsServerStream} {ok : Bool}
    (h : s.compact.fillFrame = (.ret ok, s')) : s.fillBuf = (ok, s') := by
  rw [WsServerStream.fillBuf]
  split
  · rename_i h'
    rw [h] at h'
    injection h' with hr hs
    injection hr with hr
    rw [hr, hs]
  · rename_i h'
    rw [h] at h'
    injection h' with hr
    cases hr

theorem fillBuf_of_again {s s' : WsServerStream} (h : s.compact.fillFrame = (.again, s')) :
    s.fillBuf = s'.fillBuf := by
  rw [WsServerStream.fillBuf]
  split
  · rename_i h'
    rw [h] at h'
    injection h' with hr
    cases hr
  · rename_i h'
    rw [h] at h'
    injection h' with _ hs
    rw [hs]

section

variable {s : WsServerStream} {rest : List Symbol}

theorem fillBuf_timeout (h : symbols s.tls = .timeout :: rest) :
    ∃ s', s.fillBuf = (false, s') ∧ s'.timedOut = true ∧ s'.pending = s.pending ∧
      symbols s'.tls = rest := by
  obtain ⟨es, hr, hs⟩ : ∃ es, sslRead 1 s.compact.tls = (.timedOut, es) ∧ symbols es = rest :=
    sslRead_timeout h
  refine ⟨{ s.compact with timedOut := true, tls := es }, fillBuf_of_ret ?_, rfl, rfl, hs⟩
  simp only [WsServerStream.fillFrame, hr]

theorem fillBuf_data {payload : Bytes} {maskKey : Mask} (hlimit : payload.length ≤ frameLimit)
    (hp : s.pending = [])
    (h : symbols s.tls = ofBytes (buildClientFrame payload maskKey) ++ rest) :
    ∃ s', s.fillBuf = (decide (payload ≠ []), s') ∧ s'.timedOut = false ∧
      s'.pending = payload ∧ symbols s'.tls = rest := by
  obtain ⟨es, hs, hf⟩ := fillFrame_frame (s := s.compact) (by decide) hlimit h
  rw [if_neg (by decide), if_neg (by decide)] at hf
  have hbuf : s.compact.buf = [] := hp
  rw [hbuf, List.nil_append] at hf
  refine ⟨{ s.compact with buf := payload, tls := es }, (fillBuf_of_ret hf).trans ?_, rfl, rfl, hs⟩
  congr 1
  rw [decide_eq_decide]
  exact List.length_pos_iff

theorem fillBuf_control {opcode : Nat} {mask : Option Mask} {payload : Bytes}
    (hop : opcode = kOpcodePing ∨ opcode = kOpcodePong) (hlimit : payload.length ≤ frameLimit)
    (h : symbols s.tls = ofBytes (frameBytes opcode mask payload) ++ rest) :
    ∃ s' : WsServerStream, s.fillBuf = s'.fillBuf ∧ s'.pending = s.pending ∧
      symbols s'.tls = rest := by
  have hlt : opcode < 16 := by rcases hop with rfl | rfl <;> decide
  have hclose : opcode ≠ kOpcodeClose := by rcases hop with rfl | rfl <;> decide
  obtain ⟨es, hs, hf⟩ := fillFrame_frame (s := s.compact) hlt hlimit h
  rw [if_neg hclose, if_pos hop] at hf
  exact ⟨_, fillBuf_of_again hf, rfl, hs⟩

theorem fillBuf_over {opcode : Nat} {mask : Option Mask} {payload : Bytes} (hop : opcode < 16)
    (hlen : payload.length < 2 ^ 64) (hlimit : frameLimit < payload.length)
    (h : symbols s.tls = ofBytes (frameBytes opcode mask payload) ++ rest) :
    ∃ s', s.fillBuf = (false, s') ∧ s'.timedOut = false ∧ rest.length ≤ s'.unread ∧
      s'.unread < (ofBytes (frameBytes opcode mask payload) ++ rest).length := by
  obtain ⟨s', hf, ht, hs⟩ := fillFrame_over (s := s.compact) hop hlen hlimit h
  refine ⟨s', fillBuf_of_ret hf, ht, ?_, ?_⟩
  · rw [WsServerStream.unread, hs, List.length_append]
    exact Nat.le_add_left ..
  · rw [WsServerStream.unread, hs, List.length_append, List.length_append, length_ofBytes,
      length_ofBytes, frameBytes, List.length_cons, List.length_append]
    simp only [masked]
    omega

theorem fillBuf_ending {e : Ending} (h : symbols s.tls = e.symbols ++ rest) :
    ∃ s', s.fillBuf = (false, s') ∧ s'.timedOut = false ∧
      s'.unread < (e.symbols ++ rest).length := by
  cases e with
  | shutdown =>
    obtain ⟨es, hr, hs⟩ : ∃ es, sslRead 1 s.compact.tls = (.closed, es) ∧ symbols es = rest :=
      sslRead_shutdown h
    refine ⟨{ s.compact with tls := es }, fillBuf_of_ret ?_, rfl, ?_⟩
    · simp only [WsServerStream.fillFrame, hr]
    · simp [WsServerStream.unread, hs, Ending.symbols]
  | close payload mask hlen =>
    by_cases hlimit : payload.length ≤ frameLimit
    · obtain ⟨es, hs, hf⟩ := fillFrame_frame (s := s.compact) (by decide) hlimit h
      rw [if_pos rfl] at hf
      refine ⟨_, fillBuf_of_ret hf, rfl, ?_⟩
      simp only [WsServerStream.unread, hs, Ending.symbols, frameBytes, ofBytes_cons,
        List.cons_append, List.length_cons, List.length_append]
      omega
    · obtain ⟨s', hf, ht, -, hu⟩ := fillBuf_over (by decide) hlen (Nat.lt_of_not_le hlimit) h
      exact ⟨s', hf, ht, hu⟩

end

/-- What `fillBuf` does with the items it reads; `tail` is the ending and what follows it. -/
inductive Refilled (tail : List Symbol) (read left : List Item) : Bool × WsServerStream → Prop
  | data {s' : WsServerStream} (fits : ∀ i ∈ read, i.Fits) (waited : .timeout ∉ read)
      (ne : payloads read ≠ []) (pending : s'.pending = payloads read)
      (tls : symbols s'.tls = wire left ++ tail) : Refilled tail read left (true, s')
  | timeout {s' : WsServerStream} (fits : ∀ i ∈ read, i.Fits) (waited : .timeout ∈ read)
      (payload : payloads read = []) (timedOut : s'.timedOut = true) (pending : s'.pending = [])
      (tls : symbols s'.tls = wire left ++ tail) : Refilled tail read left (false, s')
  | ended {s' : WsServerStream} (fits : ∀ i ∈ read, i.Fits) (waited : .timeout ∉ read)
      (payload : payloads read = []) (left_eq : left = []) (timedOut : s'.timedOut = false)
      (unread : s'.unread < tail.length) : Refilled tail read left (false, s')
  | bad {s' : WsServerStream} (i : Item) (mem : i ∈ read) (bad : ¬ i.Fits)
      (timedOut : s'.timedOut = false) (unread : tail.length ≤ s'.unread) :
      Refilled tail read left (false, s')

/-- A control frame in front changes nothing. -/
theorem Refilled.cons {tail : List Symbol} {read left : List Item} {r : Bool × WsServerStream}
    (h : Refilled tail read left r) {i : Item} (hi : i.isControl) (hfit : i.Fits) :
    Refilled tail (i :: read) left r := by
  have hne : .timeout ≠ i := by rintro rfl; cases hi
  have hpay : payloads (i :: read) = payloads read := by
    cases i <;> first | rfl | cases hi
  have hall : (∀ j ∈ read, j.Fits) → ∀ j ∈ i :: read, j.Fits :=
    fun hr => List.forall_mem_cons.mpr ⟨hfit, hr⟩
  have hmem : .timeout ∈ i :: read ↔ .timeout ∈ read := by
    rw [List.mem_cons, or_iff_right hne]
  cases h with
  | data fits waited ne pending tls =>
    exact .data (hall fits) (mt hmem.mp waited) (by rwa [hpay]) (by rwa [hpay]) tls
  | timeout fits waited payload timedOut pending tls =>
    exact .timeout (hall fits) (hmem.mpr waited) (by rwa [hpay]) timedOut pending tls
  | ended fits waited payload left_eq timedOut unread =>
    exact .ended (hall fits) (mt hmem.mp waited) (by rwa [hpay]) left_eq timedOut unread
  | bad j mem bad timedOut unread =>
    exact .bad j (List.mem_cons_of_mem _ mem) bad timedOut unread

/-- **One refill.** -/
theorem refilled_fillBuf {s : WsServerStream} {items : List Item} {e : Ending}
    {rest : List Symbol} (hp : s.pending = [])
    (h : symbols s.tls = wire items ++ (e.symbols ++ rest)) :
    Refilled (e.symbols ++ rest) (refillReads items) (items.drop (refillReads items).length)
      s.fillBuf := by
  induction items generalizing s with
  | nil =>
    obtain ⟨s', hf, ht, hu⟩ := fillBuf_ending h
    rw [hf]
    exact .ended (by simp [refillReads]) (by simp [refillReads]) rfl rfl ht hu
  | cons i items ih =>
    rw [wire_cons, List.append_assoc] at h
    -- a control frame, whichever it is
    have hcontrol : ∀ opcode mask payload, (opcode = kOpcodePing ∨ opcode = kOpcodePong) →
        payload.length < 2 ^ 64 → i.symbols = ofBytes (frameBytes opcode mask payload) →
        i.isControl = true → (i.Fits ↔ payload.length ≤ frameLimit) →
        Refilled (e.symbols ++ rest) (i :: refillReads items)
          (items.drop (refillReads items).length) s.fillBuf := by
      intro opcode mask payload hop hlen hi hctl hfit
      rw [hi] at h
      by_cases hlimit : payload.length ≤ frameLimit
      · obtain ⟨s', hf, hp', hs'⟩ := fillBuf_control hop hlimit h
        rw [hf]
        exact (ih (hp'.trans hp) hs').cons hctl (hfit.mpr hlimit)
      · have hlt : opcode < 16 := by rcases hop with rfl | rfl <;> decide
        obtain ⟨s', hf, ht, hu, -⟩ := fillBuf_over hlt hlen (Nat.lt_of_not_le hlimit) h
        rw [hf]
        refine .bad i (List.mem_cons_self ..) (mt hfit.mp hlimit) ht ?_
        rw [List.length_append] at hu
        omega
    cases i with
    | data payload maskKey hlimit =>
      obtain ⟨s', hf, ht, hp', hs'⟩ := fillBuf_data hlimit hp h
      have hu : (e.symbols ++ rest).length ≤ s'.unread := by
        rw [WsServerStream.unread, hs']
        exact (List.suffix_append (wire items) _).length_le
      rw [hf]
      by_cases hne : payload = []
      · rw [decide_eq_false (not_not.mpr hne)]
        exact .bad (.data payload maskKey hlimit) (List.mem_cons_self ..) (not_not.mpr hne) ht hu
      · rw [decide_eq_true hne]
        refine .data ?_ ?_ ?_ ?_ hs'
        · simpa [refillReads, Item.isControl, Item.Fits] using hne
        · simp [refillReads, Item.isControl]
        · simpa [refillReads, Item.isControl, payloads, Item.payload] using hne
        · simpa [refillReads, Item.isControl, payloads, Item.payload] using hp'
    | ping payload mask hlen =>
      exact hcontrol kOpcodePing mask payload (.inl rfl) hlen rfl rfl Iff.rfl
    | pong payload mask hlen =>
      exact hcontrol kOpcodePong mask payload (.inr rfl) hlen rfl rfl Iff.rfl
    | timeout =>
      obtain ⟨s', hf, ht, hp', hs'⟩ := fillBuf_timeout h
      rw [hf]
      refine .timeout ?_ ?_ rfl ht (hp'.trans hp) hs'
      · simp [refillReads, Item.isControl, Item.Fits]
      · simp [refillReads, Item.isControl]

end TrafficMonitor.WsServer
