import TrafficMonitor.Server.LogDownload
import TrafficMonitor.Server.LogEndpoints
import TrafficMonitor.Server.ReplyRouting

/-!
# Deleting a log file

A delete request through the endpoint, the client's dispatcher, the router and the answer.
The client reports a file that it did not remove with a `del` line whose third token is
`err`; the router marks an entry as an error for `err` lines only.

Proved here, for every request, client state and interleaving of the connection's lines:

* `deleteFile_iff`: when the client removes the file;
* `outcome_cases`: the four replies of the client;
* `truthful_iff`: the answer is success only for a removed file, and an error for an error
  reply or for none, exactly unless the report that the file was not removed arrives.
-/

namespace TrafficMonitor.LogDelete

open Bytes Control CtrlChannel Dashboard LogDownload LogEndpoints

/-- A request, with the channel that the handler looks up and the client behind it. -/
structure DeleteRequest where
  clientId : Bytes
  filename : Bytes
  channel : Option ClientCtrlChannel
  reqId : ReqId
  client : Client

namespace DeleteRequest

/-- The handler sends the command. -/
def sends (r : DeleteRequest) : Bool :=
  validClientId r.clientId && admitsFilename r.filename && r.channel.isSome

/-- The client's log directory afterwards, and the lines it answers with. -/
def outcome (r : DeleteRequest) : FileLogger × List Bytes :=
  if r.sends then
    processCtrlLine r.client (ascii "C log_delete " ++ r.reqId.text ++ ascii " " ++ r.filename)
  else (r.client.logger, [])

/-- The client removed the file. -/
def Removed (r : DeleteRequest) : Prop :=
  (∃ e ∈ r.client.logger.dir, e.name = r.filename) ∧ ∀ e ∈ r.outcome.1.dir, e.name ≠ r.filename

/-- The bodies that answer the request, when they all arrive. -/
def replies (r : DeleteRequest) : List Bytes :=
  bodiesFor r.reqId.text (receivedLines r.outcome.2)

end DeleteRequest

/-- The lines of the connection that the server routes before the handler's wait ends. -/
structure Exchange (r : DeleteRequest) where
  conn : List Bytes
  own : (bodiesFor r.reqId.text conn).Sublist r.replies

variable {r : DeleteRequest}

def Exchange.response (x : Exchange r) : Response :=
  deleteLog r.clientId r.filename (r.channel.bind fun ch =>
    (x.conn.foldl ClientCtrlChannel.routeLine (ch.registerPending r.reqId.text)).pending
      r.reqId.text)

/-- An error reply of the protocol: `err <req_id> ...` or `del <req_id> err ...`. -/
def isErrorReply (reqId body : Bytes) : Bool :=
  isError body || (ascii "del " ++ reqId ++ ascii " err ").isPrefixOf body

/-- Success is answered for a removed file only, and an error for an error reply or for none. -/
def Exchange.Truthful (x : Exchange r) : Prop :=
  (x.response.status = 200 → r.Removed) ∧
    ((∃ body ∈ r.replies, isErrorReply r.reqId.text body = true) ∨
      bodiesFor r.reqId.text x.conn = [] → x.response.status ≠ 200)

/-! ## The client's side -/

/-- The client finds the file in its log directory and can remove it. -/
def Removable (l : FileLogger) (name : Bytes) : Prop :=
  ascii "ntm-client-" <+: name ∧ 12 ≤ name.length ∧ l.logDir ≠ [] ∧
    ∃ e ∈ l.dir, e.name = name ∧ e.removable = true

instance decidableRemovable (l : FileLogger) (name : Bytes) : Decidable (Removable l name) :=
  inferInstanceAs (Decidable (_ ∧ _))

/-- **When the client removes the file.** -/
theorem deleteFile_eq (l : FileLogger) {name : Bytes} (hn : admitsFilename name = true) :
    l.deleteFile name =
      if Removable l name then ({ l with dir := l.dir.filter fun e => e.name ≠ name }, true)
      else (l, false) := by
  have hslash : ¬(47 ∈ name ∨ 92 ∈ name) :=
    not_or.mpr ⟨LogName.not_mem ⟨name, hn⟩ (by decide), LogName.not_mem ⟨name, hn⟩ (by decide)⟩
  have hany : (l.dir.any fun e => decide (e.name = name) && e.removable) = true ↔
      ∃ e ∈ l.dir, e.name = name ∧ e.removable = true := by
    simp [List.any_eq_true]
  rw [FileLogger.deleteFile, if_neg hslash]
  split
  next hbad =>
    rw [if_neg]
    rintro ⟨hp, hlen, -, -⟩
    exact hbad.elim (fun h => h hp) (by omega)
  next hgood =>
    rw [not_or, not_not, Nat.not_lt] at hgood
    split
    next hdir => rw [if_neg fun h => h.2.2.1 hdir]
    next hdir =>
      split
      next h => rw [if_pos ⟨hgood.1, hgood.2, hdir, hany.mp h⟩]
      next h => rw [if_neg fun hr => h (hany.mpr hr.2.2.2)]

/-! ## The replies -/

def okText (r : DeleteRequest) : Bytes :=
  ascii "del" ++ SP :: (r.reqId.text ++ SP :: (ascii "ok " ++ r.filename))

def missText (r : DeleteRequest) : Bytes :=
  ascii "del" ++ SP :: (r.reqId.text ++ SP :: (ascii "err " ++ r.filename ++ ascii " not-found"))

def refusalText (r : DeleteRequest) (code msg : Bytes) : Bytes :=
  ascii "err" ++ SP :: (r.reqId.text ++ SP :: (code ++ SP :: msg))

/-- **The client's replies.** -/
theorem outcome_cases (hs : r.sends = true) :
    (hasSub (ascii "..") r.filename = true ∧ r.outcome =
      (r.client.logger,
        [respLine (refusalText r (ascii "bad_filename") (ascii "invalid-or-missing-filename"))])) ∨
    (hasSub (ascii "..") r.filename = false ∧ r.client.logger.active = false ∧ r.outcome =
      (r.client.logger,
        [respLine (refusalText r (ascii "unavailable") (ascii "file-logging-not-active"))])) ∨
    (hasSub (ascii "..") r.filename = false ∧ r.client.logger.active = true ∧
      r.outcome = ((r.client.logger.deleteFile r.filename).1,
        [respLine (if (r.client.logger.deleteFile r.filename).2 then okText r else missText r)])) := by
  simp only [DeleteRequest.sends, Bool.and_eq_true] at hs
  have hadm := hs.1.2
  have hbad : badFilename r.filename ↔ hasSub (ascii "..") r.filename = true := by
    have hne : r.filename ≠ [] := by
      simp only [admitsFilename, Bool.and_eq_true, decide_eq_true_eq] at hadm
      exact hadm.1
    have h47 : 47 ∉ r.filename := LogName.not_mem ⟨r.filename, hadm⟩ (by decide)
    have h92 : 92 ∉ r.filename := LogName.not_mem ⟨r.filename, hadm⟩ (by decide)
    simp [badFilename, hne, h47, h92]
  have hline := processCtrlLine_three r.client (ascii "log_delete") r.reqId r.filename (by decide)
    (by decide) (by decide) (by decide)
  rw [if_pos rfl] at hline
  have e : ascii "C log_delete " ++ r.reqId.text ++ ascii " " ++ r.filename =
      kCtrlLinePrefix ++ (ascii "log_delete" ++ SP :: (r.reqId.text ++ SP :: r.filename)) := by
    simp only [List.append_assoc]
    rfl
  rw [DeleteRequest.outcome, if_pos (by simp [DeleteRequest.sends, hs]), e, hline]
  have herr : ∀ code msg, sendErr r.reqId.text code msg = respLine (refusalText r code msg) := by
    intro code msg
    simp only [sendErr, refusalText, List.append_assoc]
    rfl
  by_cases hdots : hasSub (ascii "..") r.filename = true
  · left
    rw [if_pos (hbad.mpr hdots), herr]
    exact ⟨hdots, rfl⟩
  · right
    rw [if_neg (mt hbad.mp hdots), logDelete]
    rw [Bool.not_eq_true] at hdots
    cases hact : r.client.logger.active with
    | false => exact .inl ⟨hdots, rfl, by rw [notActive, herr]; rfl⟩
    | true =>
      refine .inr ⟨hdots, rfl, ?_⟩
      simp only [Bool.not_true, Bool.false_eq_true, if_false]
      split
      · simp only [okText, List.append_assoc]
        rfl
      · simp only [missText, List.append_assoc]
        rfl

/-! ## The answer -/

theorem admits_of_sends (hs : r.sends = true) : admitsFilename r.filename = true := by
  simp only [DeleteRequest.sends, Bool.and_eq_true] at hs
  exact hs.1.2

/-- A reply of one line: its family, the request id and a rest without a line end. -/
theorem replies_of_outcome {l : FileLogger} {family rest : Bytes}
    (h : r.outcome = (l, [respLine (family ++ SP :: (r.reqId.text ++ SP :: rest))]))
    (hf : family = ascii "del" ∨ family = ascii "err") (hrest : LF ∉ rest) :
    r.replies = [family ++ SP :: (r.reqId.text ++ SP :: rest)] := by
  have hid : LF ∉ r.reqId.text := r.reqId.not_mem (by decide)
  have hlf : LF ∉ family ++ SP :: (r.reqId.text ++ SP :: rest) := by
    have hfam : LF ∉ family ∧ LF ≠ SP := by
      rcases hf with rfl | rfl <;> decide
    simp [hfam, hid, hrest]
  have hlines := receivedLines_respLine [family ++ SP :: (r.reqId.text ++ SP :: rest)]
    (by simpa using hlf)
  rw [List.map_singleton] at hlines
  rw [DeleteRequest.replies, h, hlines]
  refine bodiesFor_routed fun b hb => ?_
  rw [List.mem_singleton.mp hb]
  refine routed_of_family ?_ r.reqId.not_mem_SP ?_ rest
  · rcases hf with rfl | rfl <;> decide
  · rcases hf with rfl | rfl <;> exact ⟨_, _, rfl, by decide, by decide⟩

/-- The status, when the command was sent. -/
theorem status_eq (hs : r.sends = true) (x : Exchange r) :
    x.response.status = (deleteReply r.filename
      ⟨bodiesFor r.reqId.text x.conn, (bodiesFor r.reqId.text x.conn).any isEnd,
        (bodiesFor r.reqId.text x.conn).any isError⟩).status := by
  simp only [DeleteRequest.sends, Bool.and_eq_true] at hs
  obtain ⟨⟨hid, hname⟩, hch⟩ := hs
  obtain ⟨ch, hch⟩ := Option.isSome_iff_exists.mp hch
  rw [Exchange.response, hch, Option.bind_some, collected]
  simp only [deleteLog, hid, hname, Bool.not_true, Bool.false_eq_true, if_false]

theorem status_of_not_sends (hs : r.sends = false) (x : Exchange r) : x.response.status ≠ 200 := by
  unfold Exchange.response deleteLog
  simp only [DeleteRequest.sends, Bool.and_eq_false_iff] at hs
  split
  · decide
  split
  · decide
  next hid hname =>
  rw [Bool.not_eq_true, Bool.not_eq_false'] at hid hname
  have hch : r.channel = none := by
    cases hc : r.channel with
    | none => rfl
    | some ch => simp [hid, hname, hc] at hs
  simp only [hch, Option.bind_none]
  decide

/-- Without a line for the request, the wait ends by its timeout. -/
theorem status_of_no_reply (hs : r.sends = true) (x : Exchange r)
    (hno : bodiesFor r.reqId.text x.conn = []) : x.response.status = 504 := by
  rw [status_eq hs, hno]
  rfl

/-- The status for an entry of one line. -/
theorem status_of_reply (hs : r.sends = true) (x : Exchange r) {body : Bytes}
    (hb : bodiesFor r.reqId.text x.conn = [body]) (hend : isEnd body = true) :
    x.response.status = 200 ↔ isError body = false := by
  rw [status_eq hs, hb, deleteReply]
  simp only [List.any_cons, List.any_nil, Bool.or_false, hend, Bool.not_true, Bool.false_or,
    List.head?_cons, Option.any_some]
  cases isError body with
  | false => simp [Response.setContent]
  | true =>
    cases hasSub (ascii "not-found") body <;> simp [Response.error, Response.setContent]

/-- What the router makes of the three kinds of reply. -/
theorem kind_of_reply (r : DeleteRequest) (code msg : Bytes) :
    (isEnd (okText r) = true ∧ isError (okText r) = false ∧
        isErrorReply r.reqId.text (okText r) = false) ∧
      (isEnd (missText r) = true ∧ isError (missText r) = false) ∧
      (isEnd (refusalText r code msg) = true ∧ isError (refusalText r code msg) = true) := by
  have hdel : ∀ rest, subtype (ascii "del" ++ SP :: rest) = ascii "del" :=
    fun rest => subtype_append rest (by decide)
  have herr : ∀ rest, subtype (ascii "err" ++ SP :: rest) = ascii "err" :=
    fun rest => subtype_append rest (by decide)
  have hno : (decide (ascii "del" = ascii "err")) = false := by decide
  refine ⟨⟨?_, ?_, ?_⟩, ⟨?_, ?_⟩, ?_, ?_⟩
  · simp [isEnd, okText, hdel]
  · simp [isError, okText, hdel, hno]
  · have e : ascii "del " ++ r.reqId.text ++ ascii " err " =
        ascii "del" ++ SP :: (r.reqId.text ++ (SP :: 101 :: ascii "rr ")) := by
      simp only [List.append_assoc]
      rfl
    have hok : okText r =
        ascii "del" ++ SP :: (r.reqId.text ++ (SP :: 111 :: (ascii "k " ++ r.filename))) := rfl
    have hpre : ¬(ascii "del " ++ r.reqId.text ++ ascii " err " <+: okText r) := by
      rw [e, hok, List.prefix_append_right_inj, List.cons_prefix_cons,
        List.prefix_append_right_inj, List.cons_prefix_cons, List.cons_prefix_cons]
      exact fun h => absurd h.2.2.1 (by decide)
    rw [isErrorReply, isError, okText, hdel, hno, Bool.false_or, Bool.eq_false_iff]
    exact fun h => hpre (List.isPrefixOf_iff_prefix.mp h)
  · simp [isEnd, missText, hdel]
  · simp [isError, missText, hdel, hno]
  · simp [isEnd, isError, refusalText, herr]
  · simp [isError, refusalText, herr]

/-- A refusal is truthful: it is an error for the router, too. -/
theorem truthful_of_refusal (hs : r.sends = true) (x : Exchange r) {l : FileLogger}
    {code msg : Bytes} (h : r.outcome = (l, [respLine (refusalText r code msg)]))
    (hlf : LF ∉ code ++ SP :: msg) : x.Truthful := by
  have hne : x.response.status ≠ 200 := by
    have hown := x.own
    rw [replies_of_outcome h (.inr rfl) hlf] at hown
    rcases List.sublist_singleton.mp hown with hb | hb
    · rw [status_of_no_reply hs x hb]
      decide
    · obtain ⟨-, -, hend, herr⟩ := kind_of_reply r code msg
      rw [Ne, status_of_reply hs x hb hend]
      exact fun hfalse => absurd (herr.symm.trans hfalse) (by decide)
  exact ⟨fun h => absurd h hne, fun _ => hne⟩

/-- **Truthful deletes.** Unless the client's report that it did not remove the file arrives. -/
theorem truthful_iff (r : DeleteRequest) (x : Exchange r) :
    x.Truthful ↔ r.client.logger.active = false ∨ hasSub (ascii "..") r.filename = true ∨
      Removable r.client.logger r.filename ∨ bodiesFor r.reqId.text x.conn = [] := by
  cases hs : r.sends with
  | false =>
    have hno : bodiesFor r.reqId.text x.conn = [] := by
      have hown := x.own
      rw [DeleteRequest.replies, DeleteRequest.outcome, hs] at hown
      exact List.sublist_nil.mp hown
    have hne := status_of_not_sends hs x
    exact iff_of_true ⟨fun h => absurd h hne, fun _ => hne⟩ (.inr (.inr (.inr hno)))
  | true =>
  have hadm := admits_of_sends hs
  rcases outcome_cases hs with ⟨hdots, ho⟩ | ⟨-, hact, ho⟩ | ⟨hdots, hact, ho⟩
  · exact iff_of_true (truthful_of_refusal hs x ho (by decide)) (.inr (.inl hdots))
  · exact iff_of_true (truthful_of_refusal hs x ho (by decide)) (.inl hact)
  have hname : LF ∉ r.filename := LogName.not_mem ⟨r.filename, hadm⟩ (by decide)
  obtain ⟨⟨hokEnd, hokErr, hok⟩, ⟨hmissEnd, hmissErr⟩, -⟩ := kind_of_reply r [] []
  rw [deleteFile_eq _ hadm] at ho
  by_cases hrem : Removable r.client.logger r.filename
  · rw [if_pos hrem] at ho
    have hrep : r.replies = [okText r] :=
      replies_of_outcome ho (.inl rfl) (by simp [hname, show LF ∉ ascii "ok " by decide])
    refine iff_of_true ⟨fun _ => ?_, ?_⟩ (.inr (.inr (.inl hrem)))
    · obtain ⟨e, he, hen, -⟩ := hrem.2.2.2
      refine ⟨⟨e, he, hen⟩, fun e he => ?_⟩
      rw [ho] at he
      simpa using (List.mem_filter.mp he).2
    · rintro (⟨body, hbody, herr⟩ | hno)
      · rw [hrep, List.mem_singleton] at hbody
        rw [hbody, hok] at herr
        cases herr
      · rw [status_of_no_reply hs x hno]
        decide
  · rw [if_neg hrem] at ho
    have hrep : r.replies = [missText r] :=
      replies_of_outcome ho (.inl rfl) (by
        simp [hname, show LF ∉ ascii "err " by decide, show LF ∉ ascii " not-found" by decide])
    have hown := x.own
    rw [hrep] at hown
    rcases List.sublist_singleton.mp hown with hno | hb
    · have hne : x.response.status ≠ 200 := by
        rw [status_of_no_reply hs x hno]
        decide
      exact iff_of_true ⟨fun h => absurd h hne, fun _ => hne⟩ (.inr (.inr (.inr hno)))
    · have h200 := (status_of_reply hs x hb hmissEnd).mpr hmissErr
      refine iff_of_false (fun ht => ?_) ?_
      · obtain ⟨⟨e, he, hen⟩, hgone⟩ := ht.1 h200
        rw [ho] at hgone
        exact hgone e he hen
      · rw [hact, hdots, hb]
        simp [hrem]

/-! ## A file that is not there -/

/-- The client logs to an empty directory. -/
def missingFile : DeleteRequest where
  clientId := hex (List.replicate 32 0)
  filename := ascii "ntm-client-2026-01-01.log"
  channel := some {}
  reqId := generateReqId [1, 2, 3, 4, 5, 6, 7, 8] rfl
  client :=
    { logger := { active := true, logDir := ascii "/var/log/ntm", dir := [] }
      auto_update := false
      updates := []
      sha256 := id
      writeOk := fun _ => true }

/-- The client's reply arrives. -/
def missingFileExchange : Exchange missingFile where
  conn := receivedLines missingFile.outcome.2
  own := List.Sublist.refl _

/-- The client answers that the file was not found, and the endpoint answers success. -/
theorem missing_file_is_deleted :
    missingFileExchange.response.status = 200 ∧ missingFile.client.logger.dir = [] ∧
      missingFile.replies =
        [ascii "del 0102030405060708 err ntm-client-2026-01-01.log not-found"] ∧
      ¬missingFileExchange.Truthful := by
  have hstatus : missingFileExchange.response.status = 200 := by decide +kernel
  refine ⟨hstatus, rfl, by decide +kernel, fun h => ?_⟩
  obtain ⟨⟨e, he, -⟩, -⟩ := h.1 hstatus
  cases he

end TrafficMonitor.LogDelete
