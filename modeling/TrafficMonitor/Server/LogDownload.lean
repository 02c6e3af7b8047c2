import TrafficMonitor.Client.Control
import TrafficMonitor.Server.CtrlChannel

/-!
# Downloading a log file

The client's transfer (`logGet`), the server's router and the download endpoint, which
waits until its entry is done and reassembles what was routed to it.

Proved here, for every file, file name and interleaving of the connection's lines:

* `bodiesFor_sublist`, `pieceOf_chunk`: the endpoint reads each chunk line back to the
  piece it was made from;
* `isEnd_begin_iff`, `isEnd_chunk_iff`: a begin line ends the response when the file name
  begins with `end`, and a chunk line when its base64 text does;
* `intact_iff`: a download that succeeds is the hashed file, complete and of the announced
  size, exactly when no such line was routed before the endpoint woke up, or all chunks
  were and the file did not change while it was read.

The endpoint checks neither the announced size nor the digest: `grown_log_is_accepted`.
-/

namespace TrafficMonitor.LogDownload

open Bytes Control CtrlChannel

/-! ## The endpoint -/

/-- 504, 404, or the body. -/
inductive Reply
  | timeout
  | clientError
  | ok (body : Bytes)
  deriving DecidableEq, Repr

def kMaxDownload : Nat := 50 * 1024 * 1024

/-- The bytes of one chunk: the decoded block less one byte per trailing `=`. -/
def decodeChunk (b64 : Bytes) : Bytes :=
  match Base64.decodeBlock b64 with
  | none => []
  | some raw => raw.take (raw.length - (b64.reverse.takeWhile (· = Base64.PAD)).length)

/-- What one collected line adds to the file. The announced size only sizes a reservation. -/
def pieceOf (line : Bytes) : Bytes :=
  match stripPrefix (ascii "get ") line with
  | none => []
  | some rest => match Lines.cut SP rest with
    | none => []
    | some (_, fields) => match Lines.cut SP fields with
      | none => []
      | some (word, arg) => if word = ascii "chunk" then decodeChunk arg else []

/-- The endpoint, on the entry it finds when it wakes up. -/
def download (resp : LogCmdResponse) : Reply :=
  if !resp.done then .timeout
  else if resp.isError then .clientError
  else .ok ((resp.lines.flatMap pieceOf).take kMaxDownload)

/-! ## Transfers -/

/-- A transfer of one file: the client's state, the request, and what reading the file
gives. -/
structure Transfer where
  client : Client
  reqId : ReqId
  filename : LogName
  file : FileRead
  size : Nat
  active : client.logger.active = true
  opened : client.logger.fopen filename.text = some file
  sized : file.size = some size
  short : file.body.length ≤ kMaxDownload

/-- The lines that the server reads from what the client sent. -/
def receivedLines (sent : List Bytes) : List Bytes := (Lines.split LF sent.flatten).1

def Transfer.sent (t : Transfer) : List Bytes :=
  (processCtrlLine t.client (CtrlCommand.log_get t.reqId t.filename).line).2

/-- The lines of a connection that the server has routed when the endpoint wakes up: those
for this request are among the lines of the transfer, in their order. -/
structure Delivery (t : Transfer) where
  conn : List Bytes
  own : (bodiesFor t.reqId.text conn).Sublist (bodiesFor t.reqId.text (receivedLines t.sent))

/-- The endpoint's answer. -/
def Delivery.reply {t : Transfer} (d : Delivery t) (ch : ClientCtrlChannel) : Reply :=
  match (d.conn.foldl ClientCtrlChannel.routeLine (ch.registerPending t.reqId.text)).pending
      t.reqId.text with
  | none => .timeout
  | some resp => download resp

/-- The chunk lines of the transfer. -/
def Transfer.chunks (t : Transfer) : List Bytes :=
  (rawChunks t.file.body).map (chunkText t.reqId.text)

/-- All chunk lines have been routed to the request. -/
def Delivery.Complete {t : Transfer} (d : Delivery t) : Prop :=
  t.chunks.Sublist (bodiesFor t.reqId.text d.conn)

/-- A body returned with success is the file as hashed, of the announced size, and no chunk
was missing. -/
def Delivery.Intact {t : Transfer} (d : Delivery t) (ch : ClientCtrlChannel) : Prop :=
  ∀ body, d.reply ch = .ok body →
    t.file.hashed = some body ∧ t.size = body.length ∧ d.Complete

/-- A line that the router takes for the end has been routed. -/
def Delivery.EndSeen {t : Transfer} (d : Delivery t) : Prop :=
  ∃ body ∈ bodiesFor t.reqId.text d.conn, isEnd body = true

/-! ## The pieces of a file -/

theorem freadAll_flatten (n fuel : Nat) (s : Bytes) (hn : 0 < n) (hf : s.length ≤ fuel) :
    (freadAll n fuel s).flatten = s := by
  induction fuel generalizing s with
  | zero =>
    rw [List.length_eq_zero_iff.mp (Nat.le_zero.mp hf)]
    rfl
  | succ fuel ih =>
    by_cases hs : s = []
    · simp [freadAll, hs]
    · have hpos := List.length_pos_iff.mpr hs
      have := ih (s.drop n) (by rw [List.length_drop]; omega)
      simp [freadAll, hs, this]

theorem rawChunks_flatten (s : Bytes) : (rawChunks s).flatten = s :=
  freadAll_flatten kRawChunk s.length s (by decide) (Nat.le_refl _)

theorem freadAll_ne_nil {n fuel : Nat} {s raw : Bytes} (hn : 0 < n) (h : raw ∈ freadAll n fuel s) :
    raw ≠ [] := by
  induction fuel generalizing s with
  | zero => simp [freadAll] at h
  | succ fuel ih =>
    by_cases hs : s = []
    · simp [freadAll, hs] at h
    · simp only [freadAll, hs, ↓reduceIte, List.mem_cons] at h
      rcases h with rfl | h
      · simp [hs, Nat.ne_of_gt hn]
      · exact ih h

/-- **Chunk round trip.** -/
theorem decodeChunk_encodeBlock (raw : Bytes) : decodeChunk (Base64.encodeBlock raw) = raw := by
  simp [decodeChunk, Base64.decodeBlock_encodeBlock, Base64.takeWhile_pad_reverse]

/-! ## The texts of a transfer -/

/-- The digest field of a begin line. -/
def digestText (sha256 : Bytes → Bytes) (hashed : Option Bytes) : Bytes :=
  hashed.elim [] fun s => hex (sha256 s)

theorem beginText_eq (sha256 : Bytes → Bytes) (reqId filename : Bytes) (size : Nat)
    (hashed : Option Bytes) :
    beginText sha256 reqId filename size hashed =
      ascii "get" ++ spaced [reqId, ascii "begin", filename, decimal size,
        digestText sha256 hashed] := by
  have h1 : ascii "get " = ascii "get" ++ [SP] := rfl
  have h2 : ascii " begin " = SP :: ascii "begin" ++ [SP] := rfl
  simp [beginText, spaced, digestText, h1, h2]

theorem chunkText_eq (reqId raw : Bytes) :
    chunkText reqId raw =
      ascii "get" ++ spaced [reqId, ascii "chunk", Base64.encodeBlock raw] := by
  have h1 : ascii "get " = ascii "get" ++ [SP] := rfl
  have h2 : ascii " chunk " = SP :: ascii "chunk" ++ [SP] := rfl
  simp [chunkText, spaced, h1, h2]

theorem endText_eq (reqId : Bytes) :
    endText reqId = ascii "get" ++ spaced [reqId, ascii "end"] := by
  have h1 : ascii "get " = ascii "get" ++ [SP] := rfl
  have h2 : ascii " end" = SP :: ascii "end" := rfl
  simp [endText, spaced, h1, h2]

/-- A reply to a file request: its family, the request id, and at least one more field. -/
theorem get_text (reqId word : Bytes) (fields : List Bytes) (hr : SP ∉ reqId) :
    subtype (ascii "get" ++ spaced (reqId :: word :: fields)) = ascii "get" ∧
      replyId (ascii "get" ++ spaced (reqId :: word :: fields)) = some reqId ∧
      fromBlank (ascii "get" ++ spaced (reqId :: word :: fields)) =
        spaced (reqId :: word :: fields) := by
  have h : SP ∉ ascii "get" := by decide
  have e : spaced (reqId :: word :: fields) = SP :: (reqId ++ SP :: (word ++ spaced fields)) := by
    simp [spaced]
  rw [e]
  exact ⟨subtype_append _ h, replyId_append _ h hr, fromBlank_append _ h⟩

/-- The router ends the response at a file line when a token after the first begins with
`end`. -/
theorem isEnd_get (reqId word : Bytes) (fields : List Bytes) (hr : SP ∉ reqId)
    (hf : ∀ t ∈ word :: fields, SP ∉ t) :
    isEnd (ascii "get" ++ spaced (reqId :: word :: fields)) = true ↔
      ∃ t ∈ reqId :: word :: fields, ascii "end" <+: t := by
  obtain ⟨hsub, _, hblank⟩ := get_text reqId word fields hr
  have e : ascii " end" = SP :: ascii "end" := rfl
  have htok := hasSub_token (ascii "end") (reqId :: word :: fields) (by decide) (by
    intro t ht
    rcases List.mem_cons.mp ht with rfl | ht
    · exact hr
    · exact hf t ht)
  have hget : (ascii "get" = ascii "list") = False ∧ (ascii "get" = ascii "del") = False ∧
      (ascii "get" = ascii "del_all") = False ∧ (ascii "get" = ascii "err") = False := by
    refine ⟨?_, ?_, ?_, ?_⟩ <;> exact eq_false (by decide)
  simp only [isEnd, isError, hsub, hblank, e, hget, Bool.or_eq_true, Bool.and_eq_true, htok,
    decide_false, Bool.false_eq_true, or_false, false_or, and_true, decide_true]

/-- Hexadecimal text does not begin with `end`. -/
theorem not_end_of_hex {s : Bytes} (h : ∀ c ∈ s, isHexDigit c = true) : ¬ ascii "end" <+: s := by
  intro hp
  exact absurd (h 110 (hp.subset (by decide))) (by decide)

theorem generateReqId_not_end (buf : Bytes) (h : buf.length = 8) :
    ¬ ascii "end" <+: (generateReqId buf h).text :=
  not_end_of_hex fun _ hc => isHexDigit_of_mem_hex hc

theorem not_mem_digestText {c : UInt8} (h : isHexDigit c = false) (sha256 : Bytes → Bytes)
    (hashed : Option Bytes) : c ∉ digestText sha256 hashed := by
  cases hashed with
  | none => simp [digestText]
  | some s => exact fun hc => Bool.false_ne_true (h.symm.trans (isHexDigit_of_mem_hex hc))

/-- A begin line ends the response exactly when the file name begins with `end`. -/
theorem isEnd_begin_iff (sha256 : Bytes → Bytes) (reqId : ReqId) (f : LogName) (size : Nat)
    (hashed : Option Bytes) (hr : ¬ ascii "end" <+: reqId.text) :
    isEnd (beginText sha256 reqId.text f.text size hashed) = true ↔ ascii "end" <+: f.text := by
  have hdec : ¬ ascii "end" <+: decimal size := not_end_of_hex fun c hc => by
    simp [isHexDigit, isDigit_of_mem_decimal hc]
  have hdig : ¬ ascii "end" <+: digestText sha256 hashed := by
    cases hashed with
    | none => simp [digestText, ascii]
    | some s => exact not_end_of_hex fun _ hc => isHexDigit_of_mem_hex hc
  have hbegin : ¬ ascii "end" <+: ascii "begin" := by decide
  rw [beginText_eq, isEnd_get _ _ _ reqId.not_mem_SP]
  · simp [hr, hdec, hdig, hbegin]
  · simp only [List.mem_cons, List.not_mem_nil, or_false, forall_eq_or_imp, forall_eq]
    exact ⟨by decide, f.not_mem (by decide), not_mem_decimal (by decide) size,
      not_mem_digestText (by decide) sha256 hashed⟩

/-- A chunk line ends the response exactly when its base64 text begins with `end`. -/
theorem isEnd_chunk_iff (reqId : ReqId) (raw : Bytes) (hr : ¬ ascii "end" <+: reqId.text) :
    isEnd (chunkText reqId.text raw) = true ↔ ascii "end" <+: Base64.encodeBlock raw := by
  have hchunk : ¬ ascii "end" <+: ascii "chunk" := by decide
  rw [chunkText_eq, isEnd_get _ _ _ reqId.not_mem_SP]
  · simp [hr, hchunk]
  · simp only [List.mem_cons, List.not_mem_nil, or_false, forall_eq_or_imp, forall_eq]
    exact ⟨by decide, Base64.not_mem_encodeBlock (by decide) raw⟩

/-! ## What the endpoint reads from each line -/

theorem pieceOf_get (reqId word : Bytes) (rest : Bytes) (hr : SP ∉ reqId) (hw : SP ∉ word) :
    pieceOf (ascii "get" ++ SP :: (reqId ++ SP :: (word ++ SP :: rest))) =
      if word = ascii "chunk" then decodeChunk rest else [] := by
  have e : ascii "get" ++ SP :: (reqId ++ SP :: (word ++ SP :: rest)) =
      ascii "get " ++ (reqId ++ SP :: (word ++ SP :: rest)) := rfl
  simp only [pieceOf, e, stripPrefix_append, Lines.cut_append SP reqId _ hr,
    Lines.cut_append SP word rest hw]

theorem pieceOf_begin (t : Transfer) :
    pieceOf (beginText t.client.sha256 t.reqId.text t.filename.text t.size t.file.hashed) = [] := by
  rw [beginText_eq]
  have h := pieceOf_get t.reqId.text (ascii "begin")
    (t.filename.text ++ spaced [decimal t.size, digestText t.client.sha256 t.file.hashed])
    t.reqId.not_mem_SP (by decide)
  rw [if_neg (by decide)] at h
  simpa [spaced] using h

theorem pieceOf_chunk (reqId : ReqId) (raw : Bytes) : pieceOf (chunkText reqId.text raw) = raw := by
  rw [chunkText_eq]
  have h := pieceOf_get reqId.text (ascii "chunk") (Base64.encodeBlock raw) reqId.not_mem_SP (by decide)
  rw [if_pos rfl, decodeChunk_encodeBlock] at h
  simpa [spaced] using h

theorem pieceOf_end (reqId : ReqId) : pieceOf (endText reqId.text) = [] := by
  have e : endText reqId.text = ascii "get " ++ (reqId.text ++ SP :: ascii "end") := by
    simp only [endText, List.append_assoc]
    rfl
  have hend : Lines.cut SP (ascii "end") = none := by decide
  simp only [pieceOf, e, stripPrefix_append, Lines.cut_append SP reqId.text _ reqId.not_mem_SP, hend]

/-! ## The lines of the transfer -/

/-- All texts of a transfer, as it is when every write succeeds. -/
def Transfer.texts (t : Transfer) : List Bytes :=
  beginText t.client.sha256 t.reqId.text t.filename.text t.size t.file.hashed ::
    (t.chunks ++ [endText t.reqId.text])

theorem sendChunks_prefix (writeOk : Nat → Bool) (reqId : Bytes) (k : Nat) (raws : List Bytes) :
    ∃ ts, (sendChunks writeOk reqId k raws).1 = ts.map respLine ∧
      ts <+: raws.map (chunkText reqId) ∧
      ((sendChunks writeOk reqId k raws).2 = true → ts = raws.map (chunkText reqId)) := by
  induction raws generalizing k with
  | nil => exact ⟨[], rfl, List.nil_prefix, fun _ => rfl⟩
  | cons raw raws ih =>
    unfold sendChunks
    split
    · obtain ⟨ts, he, hp, hall⟩ := ih (k + 1)
      refine ⟨chunkText reqId raw :: ts, by simp [he], ?_, fun h => ?_⟩
      · simpa [List.cons_prefix_cons] using hp
      · rw [List.map_cons, hall h]
    · refine ⟨[chunkText reqId raw], rfl, ?_, fun h => by cases h⟩
      simp [List.cons_prefix_cons]

/-- What the client sends is a first part of the transfer, or the refusal of the name. -/
theorem sent_cases (t : Transfer) :
    (badFilename t.filename.text ∧ t.sent =
      [sendErr t.reqId.text (ascii "bad_filename") (ascii "invalid-or-missing-filename")]) ∨
    (¬ badFilename t.filename.text ∧ ∃ ts, t.sent = ts.map respLine ∧ ts <+: t.texts) := by
  have h := processCtrlLine_three t.client (ascii "log_get") t.reqId t.filename.text (by decide)
    (by decide) (by decide) (by decide)
  have e : (CtrlCommand.log_get t.reqId t.filename).line =
      kCtrlLinePrefix ++ (ascii "log_get" ++ SP :: (t.reqId.text ++ SP :: t.filename.text)) := by
    simp only [CtrlCommand.line, List.append_assoc]
    rfl
  rw [← e, if_neg (by decide : ascii "log_get" ≠ ascii "log_delete"), if_pos rfl] at h
  by_cases hbad : badFilename t.filename.text
  · left
    rw [if_pos hbad] at h
    exact ⟨hbad, by rw [Transfer.sent, h]⟩
  · right
    rw [if_neg hbad] at h
    refine ⟨hbad, ?_⟩
    obtain ⟨ts, hts, hp, hall⟩ := sendChunks_prefix t.client.writeOk t.reqId.text 1
      (rawChunks t.file.body)
    have hsent : t.sent = respLine
        (beginText t.client.sha256 t.reqId.text t.filename.text t.size t.file.hashed) ::
        ts.map respLine ++ if (sendChunks t.client.writeOk t.reqId.text 1 (rawChunks t.file.body)).2
          then [respLine (endText t.reqId.text)] else [] := by
      rw [Transfer.sent, h]
      simp only [logGet, t.active, t.opened, t.sized, hts, Bool.not_true, Bool.false_eq_true,
        ↓reduceIte]
    cases hok : (sendChunks t.client.writeOk t.reqId.text 1 (rawChunks t.file.body)).2 with
    | true =>
      refine ⟨t.texts, ?_, List.prefix_rfl⟩
      rw [hsent, hok, hall hok]
      simp [Transfer.texts, Transfer.chunks]
    | false =>
      refine ⟨beginText t.client.sha256 t.reqId.text t.filename.text t.size t.file.hashed :: ts,
        ?_, ?_⟩
      · rw [hsent, hok]
        simp
      · rw [Transfer.texts, List.cons_prefix_cons]
        exact ⟨rfl, hp.trans (List.prefix_append _ _)⟩

/-- Every text of a transfer is a reply to a file request. -/
theorem text_form {t : Transfer} {text : Bytes} (h : text ∈ t.texts) :
    ∃ word fields, text = ascii "get" ++ spaced (t.reqId.text :: word :: fields) := by
  simp only [Transfer.texts, Transfer.chunks, List.mem_cons, List.mem_append, List.mem_map,
    List.not_mem_nil, or_false] at h
  rcases h with rfl | ⟨raw, _, rfl⟩ | rfl
  · exact ⟨_, _, beginText_eq ..⟩
  · exact ⟨_, _, chunkText_eq ..⟩
  · exact ⟨_, _, endText_eq ..⟩

theorem lf_not_mem_get {ts : List Bytes} (h : ∀ t ∈ ts, LF ∉ t) :
    LF ∉ ascii "get" ++ spaced ts := by
  simp only [spaced, List.mem_append, List.mem_flatMap, List.mem_cons, not_exists, not_and, not_or]
  exact ⟨by decide, fun t ht => ⟨by decide, h t ht⟩⟩

theorem lf_not_mem_text {t : Transfer} {text : Bytes} (h : text ∈ t.texts) : LF ∉ text := by
  have hreq : LF ∉ t.reqId.text := t.reqId.not_mem (by decide)
  simp only [Transfer.texts, Transfer.chunks, List.mem_cons, List.mem_append, List.mem_map,
    List.not_mem_nil, or_false] at h
  rcases h with rfl | ⟨raw, _, rfl⟩ | rfl
  · rw [beginText_eq]
    apply lf_not_mem_get
    simp only [List.mem_cons, List.not_mem_nil, or_false, forall_eq_or_imp, forall_eq]
    exact ⟨hreq, by decide, t.filename.not_mem (by decide), not_mem_decimal (by decide) _,
      not_mem_digestText (by decide) _ _⟩
  · rw [chunkText_eq]
    apply lf_not_mem_get
    simp only [List.mem_cons, List.not_mem_nil, or_false, forall_eq_or_imp, forall_eq]
    exact ⟨hreq, by decide, Base64.not_mem_encodeBlock (by decide) raw⟩
  · rw [endText_eq]
    apply lf_not_mem_get
    simp only [List.mem_cons, List.not_mem_nil, or_false, forall_eq_or_imp, forall_eq]
    exact ⟨hreq, by decide⟩

/-- The server reads back the texts that were written as lines. -/
theorem receivedLines_respLine (ts : List Bytes) (h : ∀ t ∈ ts, LF ∉ t) :
    receivedLines (ts.map respLine) = ts.map (kLogRespLinePrefix ++ ·) := by
  have hp : LF ∉ kLogRespLinePrefix := by decide
  have e : (ts.map respLine).flatten = Lines.join LF (ts.map (kLogRespLinePrefix ++ ·)) := by
    rw [← List.flatMap_def, Lines.join, List.flatMap_map]
    rfl
  rw [receivedLines, e, Lines.split_join]
  intro l hl
  obtain ⟨t, ht, rfl⟩ := List.mem_map.mp hl
  simp only [List.mem_append, not_or]
  exact ⟨hp, h t ht⟩

/-- The texts of a file reply all reach the entry of their request. -/
theorem bodiesFor_texts (reqId : ReqId) (ts : List Bytes)
    (h : ∀ t ∈ ts, ∃ word fields, t = ascii "get" ++ spaced (reqId.text :: word :: fields)) :
    bodiesFor reqId.text (ts.map (kLogRespLinePrefix ++ ·)) = ts := by
  refine bodiesFor_routed fun t ht => ?_
  obtain ⟨word, fields, rfl⟩ := h t ht
  have hget : ascii "get" ++ spaced (reqId.text :: word :: fields) =
      ascii "get" ++ SP :: (reqId.text ++ SP :: (word ++ spaced fields)) := by
    simp [spaced]
  rw [hget]
  exact routed_of_family (by decide) reqId.not_mem_SP ⟨_, _, rfl, by decide, by decide⟩ _

/-- **The lines of a transfer** that reach its entry are among its texts, in order. -/
theorem bodiesFor_sublist (t : Transfer) (hbad : ¬ badFilename t.filename.text) :
    (bodiesFor t.reqId.text (receivedLines t.sent)).Sublist t.texts := by
  rcases sent_cases t with ⟨h, _⟩ | ⟨_, ts, hsent, hp⟩
  · exact absurd h hbad
  · have hmem : ∀ text ∈ ts, text ∈ t.texts := fun text h => hp.subset h
    rw [hsent, receivedLines_respLine ts fun text h => lf_not_mem_text (hmem text h),
      bodiesFor_texts t.reqId ts fun text h => text_form (hmem text h)]
    exact hp.sublist

/-! ## Downloads -/

theorem reply_eq {t : Transfer} (d : Delivery t) (ch : ClientCtrlChannel) :
    d.reply ch = download ⟨bodiesFor t.reqId.text d.conn, (bodiesFor t.reqId.text d.conn).any isEnd,
      (bodiesFor t.reqId.text d.conn).any isError⟩ := by
  rw [Delivery.reply, collected]

/-- The only line of a refusal that reaches an entry is the error. -/
theorem isError_of_refusal {reqId : ReqId} {code msg l : Bytes} (hcode : LF ∉ code) (hmsg : LF ∉ msg)
    (h : l ∈ bodiesFor reqId.text (receivedLines [sendErr reqId.text code msg])) :
    isError l = true := by
  have hreq : LF ∉ reqId.text := reqId.not_mem (by decide)
  have hp : LF ∉ ascii "err " ∧ LF ≠ SP := by decide
  have hlf : LF ∉ ascii "err " ++ reqId.text ++ [SP] ++ code ++ [SP] ++ msg := by
    simp [hp, hreq, hcode, hmsg]
  have hlines := receivedLines_respLine [ascii "err " ++ reqId.text ++ [SP] ++ code ++ [SP] ++ msg]
    (by simpa using hlf)
  have hsent : receivedLines [sendErr reqId.text code msg] =
      [kLogRespLinePrefix ++ (ascii "err " ++ reqId.text ++ [SP] ++ code ++ [SP] ++ msg)] := hlines
  rw [hsent, bodiesFor] at h
  obtain ⟨line, hline, hroute⟩ := List.mem_filterMap.mp (List.mem_of_mem_filter h)
  rw [List.mem_singleton.mp hline, routedBody, stripPrefix_append] at hroute
  obtain ⟨rfl, _⟩ := Option.filter_eq_some_iff.mp hroute |>.imp_left Option.some.inj
  have e : ascii "err " ++ reqId.text ++ [SP] ++ code ++ [SP] ++ msg =
      ascii "err" ++ SP :: (reqId.text ++ [SP] ++ code ++ [SP] ++ msg) := by
    simp only [List.append_assoc]
    rfl
  rw [isError, e, subtype_append _ (by decide)]
  decide

/-- A file name that the client refuses is never answered with success. -/
theorem reply_of_bad {t : Transfer} (d : Delivery t) (ch : ClientCtrlChannel)
    (hbad : badFilename t.filename.text) (body : Bytes) : d.reply ch ≠ .ok body := by
  have herr : ∀ l ∈ bodiesFor t.reqId.text d.conn, isError l = true := by
    rcases sent_cases t with ⟨_, hsent⟩ | ⟨h, _⟩
    · intro l hl
      have hl := d.own.subset hl
      rw [hsent] at hl
      exact isError_of_refusal (by decide) (by decide) hl
    · exact absurd hbad h
  rw [reply_eq, download]
  cases hend : (bodiesFor t.reqId.text d.conn).any isEnd with
  | false => simp
  | true =>
    obtain ⟨l, hl, _⟩ := List.any_eq_true.mp hend
    have hany : (bodiesFor t.reqId.text d.conn).any isError = true :=
      List.any_eq_true.mpr ⟨l, hl, herr l hl⟩
    simp [hany]

/-- No text of a transfer is an error. -/
theorem isError_text {t : Transfer} {text : Bytes} (h : text ∈ t.texts) : isError text = false := by
  obtain ⟨word, fields, rfl⟩ := text_form h
  rw [isError, (get_text _ word fields t.reqId.not_mem_SP).1]
  decide

/-- The chunk lines are the ones that add bytes. -/
theorem filter_texts (t : Transfer) : t.texts.filter (fun l => pieceOf l ≠ []) = t.chunks := by
  have hchunks : t.chunks.filter (fun l => pieceOf l ≠ []) = t.chunks := by
    rw [List.filter_eq_self]
    intro l hl
    obtain ⟨raw, hraw, rfl⟩ := List.mem_map.mp hl
    simpa [pieceOf_chunk] using freadAll_ne_nil (by decide) hraw
  simp only [Transfer.texts, List.filter_cons, List.filter_append, hchunks, pieceOf_begin,
    pieceOf_end, List.filter_nil]
  simp

theorem flatMap_filter_pieceOf (ls : List Bytes) :
    (ls.filter fun l => pieceOf l ≠ []).flatMap pieceOf = ls.flatMap pieceOf := by
  induction ls with
  | nil => rfl
  | cons l ls ih =>
    by_cases h : pieceOf l = []
    · simpa [List.filter_cons, h] using ih
    · simp only [List.filter_cons, h, ne_eq, not_false_eq_true, decide_true, ↓reduceIte,
        List.flatMap_cons, ih]

theorem flatMap_chunks (t : Transfer) : t.chunks.flatMap pieceOf = t.file.body := by
  have e : ∀ raw ∈ rawChunks t.file.body, pieceOf (chunkText t.reqId.text raw) = id raw :=
    fun raw _ => pieceOf_chunk t.reqId raw
  rw [Transfer.chunks, List.flatMap_map, List.flatMap_congr e, List.flatMap_id, rawChunks_flatten]

/-- With all chunk lines routed, the endpoint reassembles what the client read. -/
theorem pieces_of_complete {t : Transfer} (d : Delivery t) (hbad : ¬ badFilename t.filename.text)
    (hc : d.Complete) : (bodiesFor t.reqId.text d.conn).flatMap pieceOf = t.file.body := by
  have hown := d.own.trans (bodiesFor_sublist t hbad)
  have hle := hown.filter fun l => decide (pieceOf l ≠ [])
  have hge := hc.filter fun l => decide (pieceOf l ≠ [])
  have hself : t.chunks.filter (fun l => decide (pieceOf l ≠ [])) = t.chunks := by
    rw [← filter_texts t, List.filter_filter]
    simp
  rw [filter_texts] at hle
  rw [hself] at hge
  rw [← flatMap_filter_pieceOf, hle.antisymm hge, flatMap_chunks]

/-- A download that succeeds is the hashed file exactly when the client refuses the name,
or no line that looks like the end was routed before the endpoint woke up, or all chunks
were and the file read is the file hashed and measured. -/
theorem intact_iff (t : Transfer) (d : Delivery t) (ch : ClientCtrlChannel) :
    d.Intact ch ↔ badFilename t.filename.text ∨ ¬ d.EndSeen ∨
      (d.Complete ∧ t.file.hashed = some t.file.body ∧ t.size = t.file.body.length) := by
  by_cases hbad : badFilename t.filename.text
  · simp only [hbad, true_or, iff_true]
    exact fun body h => absurd h (reply_of_bad d ch hbad body)
  have hmem : ∀ l ∈ bodiesFor t.reqId.text d.conn, l ∈ t.texts :=
    fun l hl => (d.own.trans (bodiesFor_sublist t hbad)).subset hl
  have herr : (bodiesFor t.reqId.text d.conn).any isError = false := by
    rw [List.any_eq_false]
    intro l hl
    simp [isError_text (hmem l hl)]
  have hend : (bodiesFor t.reqId.text d.conn).any isEnd = true ↔ d.EndSeen := List.any_eq_true
  simp only [hbad, false_or]
  constructor
  · intro h
    by_cases hseen : d.EndSeen
    · right
      have hreply : d.reply ch =
          .ok (((bodiesFor t.reqId.text d.conn).flatMap pieceOf).take kMaxDownload) := by
        rw [reply_eq, download]
        simp [herr, hend.mpr hseen]
      obtain ⟨hhash, hsize, hc⟩ := h _ hreply
      rw [pieces_of_complete d hbad hc, List.take_of_length_le t.short] at hhash hsize
      exact ⟨hc, hhash, hsize⟩
    · exact .inl hseen
  · rintro (hseen | ⟨hc, hhash, hsize⟩) body hbody
    · have hany : (bodiesFor t.reqId.text d.conn).any isEnd = false := by
        rw [← Bool.not_eq_true, hend]
        exact hseen
      rw [reply_eq, download, hany] at hbody
      cases hbody
    · have hbody' : body = t.file.body := by
        rw [reply_eq, download] at hbody
        simp only [herr, Bool.false_eq_true, ↓reduceIte] at hbody
        split at hbody
        · cases hbody
        · rw [pieces_of_complete d hbad hc, List.take_of_length_le t.short] at hbody
          exact (Reply.ok.inj hbody).symm
      subst hbody'
      exact ⟨hhash, hsize, hc⟩

/-! ## A log that grows while it is sent -/

def dayLog : Bytes := ascii "ntm-client-2026-01-01.log"

/-- The log held one line when it was measured and hashed, and two when it was read. -/
def grownLog : Transfer where
  client :=
    { logger :=
        { active := true
          logDir := ascii "/var/log/ntm"
          dir := [{ name := dayLog
                    contents := some ⟨some 2, some (ascii "a\n"), ascii "a\nb\n"⟩ }] }
      auto_update := false
      updates := []
      sha256 := id
      writeOk := fun _ => true }
  reqId := generateReqId [0, 0, 0, 0, 0, 0, 0, 0] rfl
  filename := ⟨dayLog, by decide⟩
  file := ⟨some 2, some (ascii "a\n"), ascii "a\nb\n"⟩
  size := 2
  active := rfl
  opened := rfl
  sized := rfl
  short := by decide

/-- Every line of the transfer arrives, and nothing else. -/
def grownLogDelivery : Delivery grownLog where
  conn := receivedLines grownLog.sent
  own := List.Sublist.refl _

/-- The endpoint answers success with a body that is neither the hashed one nor of the
announced size. -/
theorem grown_log_is_accepted :
    grownLogDelivery.reply {} = .ok (ascii "a\nb\n") ∧ grownLog.file.hashed = some (ascii "a\n") ∧
      ¬ grownLogDelivery.Intact {} := by
  have hreply : grownLogDelivery.reply {} = .ok (ascii "a\nb\n") := by decide +kernel
  refine ⟨hreply, rfl, fun h => ?_⟩
  exact absurd (h _ hreply).2.1 (by decide)

end TrafficMonitor.LogDownload
