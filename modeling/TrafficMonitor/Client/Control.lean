import TrafficMonitor.Protocol
import TrafficMonitor.Basic.Base64

/-!
# Control commands

The `C`-lines that the dashboard's handlers emit (`CtrlCommand.line`) and the client's
dispatcher for them (`processCtrlLine`), with the log directory, the file reads and the
updater as the client finds them.

Proved here, for every client state and every command:

* `processCtrlLine_two`, `processCtrlLine_three`: what the tokenizer makes of a command
  with a request id, and of one with a file name besides;
* `answered_iff`: a command is answered with a line of its family exactly when it is
  not `update_now`.

The branch of `update_now` stands behind the return that a missing third token takes,
and the emitted command has two tokens: `update_now_dropped`.
-/

namespace TrafficMonitor.Control

open Bytes

/-! ## The client's side -/

inductive LogLevel | Info | Warn | Err
  deriving DecidableEq, Repr

def LogLevel.text : LogLevel → Bytes
  | .Info => ascii "Info"
  | .Warn => ascii "Warn"
  | .Err => ascii "Err"

/-- What reading one open file gives: its size (`none` when `ftell` fails), the bytes that
the second handle reads for the digest (`none` when it does not open), and the bytes that
the first handle reads afterwards. The file may grow in between. -/
structure FileRead where
  size : Option Nat
  hashed : Option Bytes
  body : Bytes
  deriving DecidableEq, Repr

/-- An entry of the log directory; `contents` is `none` when `fopen` fails. -/
structure DirEntry where
  name : Bytes
  regular : Bool := true
  size : Nat := 0
  removable : Bool := true
  contents : Option FileRead := none
  deriving DecidableEq, Repr

structure FileLogger where
  active : Bool
  level : LogLevel := .Info
  logDir : Bytes
  dir : List DirEntry
  deriving DecidableEq, Repr

structure FileInfo where
  name : Bytes
  size : Nat
  mtime : Bytes
  deriving DecidableEq, Repr

/-- `name.rfind("ntm-client-", 0) == 0 && name.size() >= 11 && name ends with ".log"` -/
def isLogName (name : Bytes) : Bool :=
  (ascii "ntm-client-").isPrefixOf name && 11 ≤ name.length &&
    name.drop (name.length - 4) = ascii ".log"

def FileLogger.listFiles (l : FileLogger) : List FileInfo :=
  if l.logDir = [] then []
  else
    let infos := (l.dir.filter fun e => e.regular && isLogName e.name).map fun e =>
      { name := e.name, size := e.size,
        mtime := if 21 ≤ e.name.length then (e.name.drop 11).take 10 else ascii "unknown" }
    infos.mergeSort fun a b => decide (b.name ≤ a.name)

/-- `deleteFile`: the directory afterwards, and whether the file was removed. -/
def FileLogger.deleteFile (l : FileLogger) (name : Bytes) : FileLogger × Bool :=
  if 47 ∈ name ∨ 92 ∈ name then (l, false)
  else if ¬ ascii "ntm-client-" <+: name ∨ name.length < 12 then (l, false)
  else if l.logDir = [] then (l, false)
  else if l.dir.any fun e => e.name = name && e.removable then
    ({ l with dir := l.dir.filter fun e => e.name ≠ name }, true)
  else (l, false)

/-- `deleteAllFiles`, less the file of the day that it opens again. -/
def FileLogger.deleteAllFiles (l : FileLogger) : FileLogger × Nat :=
  if l.logDir = [] then (l, 0)
  else
    let gone := fun e : DirEntry => e.regular && isLogName e.name && e.removable
    ({ l with dir := l.dir.filter fun e => !gone e }, (l.dir.filter gone).length)

/-- `std::fopen((logDir() + "/" + filename).c_str(), "rb")` -/
def FileLogger.fopen (l : FileLogger) (filename : Bytes) : Option FileRead :=
  (l.dir.find? fun e => e.name = cStr filename).bind (·.contents)

/-- A callback of `doOneCheckCycle`. -/
inductive UpdateEvent
  | onStage (s : Bytes)
  | onError (s m : Bytes)
  | onNoop (r : Bytes)
  | onDone (v : Bytes)
  deriving DecidableEq, Repr

def UpdateEvent.tail : UpdateEvent → Bytes
  | .onStage s => ascii "stage " ++ s
  | .onError s m => ascii "err " ++ s ++ [SP] ++ m
  | .onNoop r => ascii "noop " ++ r
  | .onDone v => ascii "done " ++ v

/-- What the dispatcher reads: the file logger, the configuration, the callbacks that an
update cycle would make, the digest, and which of the call's writes succeed. -/
structure Client where
  logger : FileLogger
  auto_update : Bool
  updates : List UpdateEvent
  sha256 : Bytes → Bytes
  writeOk : Nat → Bool

/-- One `L`-line as it is written. -/
def respLine (text : Bytes) : Bytes := kLogRespLinePrefix ++ text ++ [LF]

def sendErr (reqId code msg : Bytes) : Bytes :=
  respLine (ascii "err " ++ reqId ++ [SP] ++ code ++ [SP] ++ msg)

def notActive (reqId : Bytes) : Bytes :=
  sendErr reqId (ascii "unavailable") (ascii "file-logging-not-active")

/-- `C set_loglevel <level>`: a text that is no level counts as `Info`. -/
def setLoglevel (c : Client) (text : Bytes) : FileLogger × List Bytes :=
  let level :=
    if text = ascii "Warn" then LogLevel.Warn
    else if text = ascii "Err" then LogLevel.Err
    else LogLevel.Info
  ({ c.logger with level := level }, [respLine (ascii "ack set_loglevel " ++ level.text)])

def logList (c : Client) (reqId : Bytes) : FileLogger × List Bytes :=
  if !c.logger.active then (c.logger, [notActive reqId])
  else
    let files := c.logger.listFiles
    (c.logger,
      respLine (ascii "list " ++ reqId ++ ascii " begin " ++ decimal files.length) ::
        files.map (fun f => respLine (ascii "list " ++ reqId ++ ascii " file " ++ f.name ++ [SP] ++
          decimal f.size ++ [SP] ++ f.mtime)) ++
        [respLine (ascii "list " ++ reqId ++ ascii " end")])

def logDeleteAll (c : Client) (reqId : Bytes) : FileLogger × List Bytes :=
  if !c.logger.active then (c.logger, [notActive reqId])
  else
    let r := c.logger.deleteAllFiles
    (r.1, [respLine (ascii "del_all " ++ reqId ++ ascii " ok " ++ decimal r.2)])

def logDelete (c : Client) (reqId filename : Bytes) : FileLogger × List Bytes :=
  if !c.logger.active then (c.logger, [notActive reqId])
  else
    let r := c.logger.deleteFile filename
    if r.2 then (r.1, [respLine (ascii "del " ++ reqId ++ ascii " ok " ++ filename)])
    else (r.1, [respLine (ascii "del " ++ reqId ++ ascii " err " ++ filename ++ ascii " not-found")])

def kRawChunk : Nat := 32768

/-- The pieces that repeated `fread`s of `n` bytes give; `fuel` bounds their number. -/
def freadAll (n : Nat) : Nat → Bytes → List Bytes
  | 0, _ => []
  | fuel + 1, s => if s = [] then [] else s.take n :: freadAll n fuel (s.drop n)

def rawChunks (s : Bytes) : List Bytes := freadAll kRawChunk s.length s

/-- The texts of a transfer, less the prefix `"L "` and the line end. -/
def beginText (sha256 : Bytes → Bytes) (reqId filename : Bytes) (size : Nat)
    (hashed : Option Bytes) : Bytes :=
  ascii "get " ++ reqId ++ ascii " begin " ++ filename ++ [SP] ++ decimal size ++ [SP] ++
    hashed.elim [] fun s => hex (sha256 s)

def chunkText (reqId raw : Bytes) : Bytes :=
  ascii "get " ++ reqId ++ ascii " chunk " ++ Base64.encodeBlock raw

def endText (reqId : Bytes) : Bytes := ascii "get " ++ reqId ++ ascii " end"

/-- The chunk lines, up to and including the first whose write fails; `k` writes were made
before. The flag says that none failed. -/
def sendChunks (writeOk : Nat → Bool) (reqId : Bytes) : Nat → List Bytes → List Bytes × Bool
  | _, [] => ([], true)
  | k, raw :: raws =>
    if writeOk k then
      let r := sendChunks writeOk reqId (k + 1) raws
      (respLine (chunkText reqId raw) :: r.1, r.2)
    else ([respLine (chunkText reqId raw)], false)

def logGet (c : Client) (reqId filename : Bytes) : FileLogger × List Bytes :=
  if !c.logger.active then (c.logger, [notActive reqId])
  else match c.logger.fopen filename with
    | none => (c.logger, [sendErr reqId (ascii "not_found") (ascii "file-not-found")])
    | some fr => match fr.size with
      | none => (c.logger, [sendErr reqId (ascii "io_error") (ascii "cannot-stat-file")])
      | some size =>
        let r := sendChunks c.writeOk reqId 1 (rawChunks fr.body)
        (c.logger, respLine (beginText c.sha256 reqId filename size fr.hashed) :: r.1 ++
          if r.2 then [respLine (endText reqId)] else [])

def updateNow (c : Client) (reqId : Bytes) : FileLogger × List Bytes :=
  if !c.auto_update then
    (c.logger, [respLine (ascii "upd " ++ reqId ++ ascii " noop auto_update_disabled")])
  else
    (c.logger, respLine (ascii "upd " ++ reqId ++ ascii " ack") ::
      c.updates.map fun e => respLine (ascii "upd " ++ reqId ++ [SP] ++ e.tail))

def badFilename (filename : Bytes) : Prop :=
  filename = [] ∨ 47 ∈ filename ∨ 92 ∈ filename ∨ hasSub (ascii "..") filename

instance (filename : Bytes) : Decidable (badFilename filename) :=
  inferInstanceAs (Decidable (_ ∨ _))

/-- The client's dispatcher: the file logger afterwards, and the lines handed to
`deflateAndWrite` in order. -/
def processCtrlLine (c : Client) (line : Bytes) : FileLogger × List Bytes :=
  match stripPrefix kCtrlLinePrefix line with
  | none => (c.logger, [])
  | some body =>
    match stripPrefix (ascii "set_loglevel ") body with
    | some level => setLoglevel c level
    | none =>
      match Lines.cut SP body with
      | none => (c.logger, [])
      | some (cmd, rest) =>
        let second := Lines.cut SP rest
        let reqId := (second.map Prod.fst).getD rest
        if reqId = [] ∨ reqId.length > kCtrlReqIdMaxLen then (c.logger, [])
        else if cmd = ascii "log_list" then logList c reqId
        else if cmd = ascii "log_delete_all" then logDeleteAll c reqId
        else match second with
          -- "Remaining commands need a filename argument."
          | none => (c.logger, [])
          | some (_, filename) =>
            if badFilename filename then
              (c.logger,
                [sendErr reqId (ascii "bad_filename") (ascii "invalid-or-missing-filename")])
            else if cmd = ascii "log_delete" then logDelete c reqId filename
            else if cmd = ascii "log_get" then logGet c reqId filename
            else if cmd = ascii "update_now" then updateNow c reqId
            else (c.logger, [])

/-! ## The server's side -/

/-- A request id as the protocol document defines it. -/
structure ReqId where
  text : Bytes
  nonempty : text ≠ []
  short : text.length ≤ kCtrlReqIdMaxLen
  printable : ∀ c ∈ text, 33 ≤ c ∧ c ≤ 126

/-- A character that is not printable is in no request id. -/
theorem ReqId.not_mem (r : ReqId) {c : UInt8} (h : ¬ (33 ≤ c ∧ c ≤ 126)) : c ∉ r.text := fun hc =>
  h (r.printable c hc)

/-- `generateReqId`: eight random bytes in hexadecimal. -/
def generateReqId (buf : Bytes) (h : buf.length = 8) : ReqId where
  text := hex buf
  nonempty := by
    intro e
    have := congrArg List.length e
    simp [h] at this
  short := by simp [h, kCtrlReqIdMaxLen]
  printable := by
    intro c hc
    have := isHexDigit_of_mem_hex hc
    simp only [isHexDigit, isDigit, Bool.or_eq_true, Bool.and_eq_true, decide_eq_true_eq,
      UInt8.le_iff_toNat_le] at this ⊢
    simp only [UInt8.reduceToNat] at this ⊢
    omega

/-- The whitelist of the endpoints that take a file name. -/
def admitsFilename (filename : Bytes) : Bool :=
  filename ≠ [] && filename.all fun c => isAlnum c || c = 45 || c = 95 || c = 46

structure LogName where
  text : Bytes
  admitted : admitsFilename text = true

/-- A character off the whitelist is in no admitted name. -/
theorem LogName.not_mem (f : LogName) {c : UInt8}
    (h : (isAlnum c || c = 45 || c = 95 || c = 46) = false) : c ∉ f.text := by
  intro hc
  have hall := f.admitted
  simp only [admitsFilename, Bool.and_eq_true, List.all_eq_true] at hall
  exact Bool.false_ne_true (h.symm.trans (hall.2 c hc))

/-- The commands that the dashboard's handlers emit. -/
inductive CtrlCommand
  | set_loglevel (level : LogLevel)
  | log_list (reqId : ReqId)
  | log_delete_all (reqId : ReqId)
  | update_now (reqId : ReqId)
  | log_get (reqId : ReqId) (filename : LogName)
  | log_delete (reqId : ReqId) (filename : LogName)

/-- The text that a handler passes to `writeCtrlLine`. -/
def CtrlCommand.line : CtrlCommand → Bytes
  | .set_loglevel level => ascii "C set_loglevel " ++ level.text
  | .log_list r => ascii "C log_list" ++ ascii " " ++ r.text
  | .log_delete_all r => ascii "C log_delete_all " ++ r.text
  | .update_now r => ascii "C update_now " ++ r.text
  | .log_get r f => ascii "C log_get " ++ r.text ++ ascii " " ++ f.text
  | .log_delete r f => ascii "C log_delete " ++ r.text ++ ascii " " ++ f.text

/-- An `L`-line of one family that carries the request id. -/
def IsReply (family reqId l : Bytes) : Prop :=
  kLogRespLinePrefix ++ family ++ [SP] ++ reqId ++ [SP] <+: l

instance (family reqId l : Bytes) : Decidable (IsReply family reqId l) :=
  inferInstanceAs (Decidable (_ <+: _))

/-- The documented replies to a command: its own family, or the generic error. -/
def CtrlCommand.Reply (l : Bytes) : CtrlCommand → Prop
  | .set_loglevel level => l = respLine (ascii "ack set_loglevel " ++ level.text)
  | .log_list r => IsReply (ascii "list") r.text l ∨ IsReply (ascii "err") r.text l
  | .log_delete_all r => IsReply (ascii "del_all") r.text l ∨ IsReply (ascii "err") r.text l
  | .update_now r => IsReply (ascii "upd") r.text l
  | .log_get r _ => IsReply (ascii "get") r.text l ∨ IsReply (ascii "err") r.text l
  | .log_delete r _ => IsReply (ascii "del") r.text l ∨ IsReply (ascii "err") r.text l

/-- The client sends a reply to the command. -/
def Answered (c : Client) (cmd : CtrlCommand) : Prop :=
  ∃ l ∈ (processCtrlLine c cmd.line).2, cmd.Reply l

/-! ## The tokenizer -/

theorem ReqId.not_mem_SP (r : ReqId) : SP ∉ r.text := r.not_mem (by decide)

/-- Two texts that agree up to a first blank have the same first token. -/
theorem stripPrefix_other_token {p cmd : Bytes} (rest : Bytes) (hp : SP ∉ p) (hc : SP ∉ cmd)
    (hne : cmd ≠ p) : stripPrefix (p ++ [SP]) (cmd ++ SP :: rest) = none := by
  cases h : stripPrefix (p ++ [SP]) (cmd ++ SP :: rest) with
  | none => rfl
  | some t =>
    have e := stripPrefix_eq_some.mp h
    rw [List.append_assoc, List.singleton_append] at e
    have hcut := Lines.cut_append SP cmd rest hc
    rw [e, Lines.cut_append SP p t hp] at hcut
    exact absurd (Prod.mk.inj (Option.some.inj hcut)).1.symm hne

private theorem set_loglevel_token : ascii "set_loglevel " = ascii "set_loglevel" ++ [SP] := rfl

/-- A command with a request id and nothing after it. -/
theorem processCtrlLine_two (c : Client) (cmd : Bytes) (r : ReqId) (hc : SP ∉ cmd)
    (hne : cmd ≠ ascii "set_loglevel") :
    processCtrlLine c (kCtrlLinePrefix ++ (cmd ++ SP :: r.text)) =
      if cmd = ascii "log_list" then logList c r.text
      else if cmd = ascii "log_delete_all" then logDeleteAll c r.text
      else (c.logger, []) := by
  have hset := stripPrefix_other_token r.text (by decide) hc hne
  have hlen : ¬ (r.text = [] ∨ r.text.length > kCtrlReqIdMaxLen) :=
    not_or.mpr ⟨r.nonempty, Nat.not_lt.mpr r.short⟩
  rw [← set_loglevel_token] at hset
  simp only [processCtrlLine, stripPrefix_append, hset, Lines.cut_append SP cmd r.text hc,
    Lines.cut_eq_none.mpr r.not_mem_SP, Option.map_none, Option.getD_none, hlen, ↓reduceIte]

/-- A command with a request id and a file name. -/
theorem processCtrlLine_three (c : Client) (cmd : Bytes) (r : ReqId) (filename : Bytes)
    (hc : SP ∉ cmd) (hne : cmd ≠ ascii "set_loglevel") (hlist : cmd ≠ ascii "log_list")
    (hall : cmd ≠ ascii "log_delete_all") :
    processCtrlLine c (kCtrlLinePrefix ++ (cmd ++ SP :: (r.text ++ SP :: filename))) =
      if badFilename filename then
        (c.logger, [sendErr r.text (ascii "bad_filename") (ascii "invalid-or-missing-filename")])
      else if cmd = ascii "log_delete" then logDelete c r.text filename
      else if cmd = ascii "log_get" then logGet c r.text filename
      else if cmd = ascii "update_now" then updateNow c r.text
      else (c.logger, []) := by
  have hset := stripPrefix_other_token (r.text ++ SP :: filename) (by decide) hc hne
  have hlen : ¬ (r.text = [] ∨ r.text.length > kCtrlReqIdMaxLen) :=
    not_or.mpr ⟨r.nonempty, Nat.not_lt.mpr r.short⟩
  rw [← set_loglevel_token] at hset
  simp only [processCtrlLine, stripPrefix_append, hset, Lines.cut_append SP cmd _ hc,
    Lines.cut_append SP r.text filename r.not_mem_SP, Option.map_some, Option.getD_some, hlen,
    hlist, hall, ↓reduceIte]

/-! ## What each handler answers -/

/-- A line made of the family, the request id and anything else is a reply. -/
theorem isReply_of_eq {reqId l : Bytes} (family tail : Bytes)
    (h : l = respLine (family ++ [SP] ++ reqId ++ [SP] ++ tail)) : IsReply family reqId l := by
  refine ⟨tail ++ [LF], ?_⟩
  simp only [h, respLine, List.append_assoc]

theorem sendErr_isReply (reqId code msg : Bytes) :
    IsReply (ascii "err") reqId (sendErr reqId code msg) := by
  apply isReply_of_eq (ascii "err") (code ++ [SP] ++ msg)
  simp only [sendErr, List.append_assoc]
  rfl

theorem setLoglevel_ack (c : Client) (level : LogLevel) :
    (setLoglevel c level.text).2 = [respLine (ascii "ack set_loglevel " ++ level.text)] := by
  cases level <;> rfl

theorem logList_answers (c : Client) (reqId : Bytes) : ∃ l ∈ (logList c reqId).2,
    IsReply (ascii "list") reqId l ∨ IsReply (ascii "err") reqId l := by
  unfold logList
  split
  · exact ⟨notActive reqId, List.mem_cons_self, .inr (sendErr_isReply ..)⟩
  · refine ⟨_, List.mem_append_left _ List.mem_cons_self, .inl ?_⟩
    apply isReply_of_eq (ascii "list") (ascii "begin " ++ decimal c.logger.listFiles.length)
    simp only [List.append_assoc]
    rfl

theorem logDeleteAll_answers (c : Client) (reqId : Bytes) : ∃ l ∈ (logDeleteAll c reqId).2,
    IsReply (ascii "del_all") reqId l ∨ IsReply (ascii "err") reqId l := by
  unfold logDeleteAll
  split
  · exact ⟨notActive reqId, List.mem_cons_self, .inr (sendErr_isReply ..)⟩
  · refine ⟨_, List.mem_cons_self, .inl ?_⟩
    apply isReply_of_eq (ascii "del_all") (ascii "ok " ++ decimal c.logger.deleteAllFiles.2)
    simp only [List.append_assoc]
    rfl

theorem logDelete_answers (c : Client) (reqId filename : Bytes) :
    ∃ l ∈ (logDelete c reqId filename).2,
      IsReply (ascii "del") reqId l ∨ IsReply (ascii "err") reqId l := by
  simp only [logDelete]
  split
  · exact ⟨notActive reqId, List.mem_cons_self, .inr (sendErr_isReply ..)⟩
  split
  · refine ⟨_, List.mem_cons_self, .inl ?_⟩
    apply isReply_of_eq (ascii "del") (ascii "ok " ++ filename)
    simp only [List.append_assoc]
    rfl
  · refine ⟨_, List.mem_cons_self, .inl ?_⟩
    apply isReply_of_eq (ascii "del") (ascii "err " ++ filename ++ ascii " not-found")
    simp only [List.append_assoc]
    rfl

theorem logGet_answers (c : Client) (reqId filename : Bytes) :
    ∃ l ∈ (logGet c reqId filename).2,
      IsReply (ascii "get") reqId l ∨ IsReply (ascii "err") reqId l := by
  simp only [logGet]
  split
  · exact ⟨notActive reqId, List.mem_cons_self, .inr (sendErr_isReply ..)⟩
  split
  · exact ⟨_, List.mem_cons_self, .inr (sendErr_isReply ..)⟩
  split
  · exact ⟨_, List.mem_cons_self, .inr (sendErr_isReply ..)⟩
  · rename_i fr _ _ size _
    refine ⟨_, List.mem_append_left _ List.mem_cons_self, .inl ?_⟩
    apply isReply_of_eq (ascii "get") (ascii "begin " ++ filename ++ [SP] ++ decimal size ++ [SP] ++
      (fr.hashed.elim [] fun s => hex (c.sha256 s)))
    simp only [beginText, List.append_assoc]
    rfl

/-! ## Every command but one -/

/-- A command with a file name is answered by its handler, or with `bad_filename`. -/
private theorem answered_of_handler {c : Client} {r : ReqId} {filename : Bytes} {family : Bytes}
    {handler out : FileLogger × List Bytes}
    (h : ∃ l ∈ handler.2, IsReply family r.text l ∨ IsReply (ascii "err") r.text l)
    (hout : out = if badFilename filename then
        (c.logger, [sendErr r.text (ascii "bad_filename") (ascii "invalid-or-missing-filename")])
      else handler) :
    ∃ l ∈ out.2, IsReply family r.text l ∨ IsReply (ascii "err") r.text l := by
  subst hout
  split
  · exact ⟨_, List.mem_cons_self, .inr (sendErr_isReply ..)⟩
  · exact h

/-- `update_now` leaves the client silent, and as it was. -/
theorem processCtrlLine_update_now (c : Client) (r : ReqId) :
    processCtrlLine c (CtrlCommand.update_now r).line = (c.logger, []) := by
  have h := processCtrlLine_two c (ascii "update_now") r (by decide) (by decide)
  rw [if_neg (by decide), if_neg (by decide)] at h
  exact h

/-- The client answers a command of the dashboard exactly when it is not `update_now`. -/
theorem answered_iff (c : Client) (cmd : CtrlCommand) :
    Answered c cmd ↔ ∀ r, cmd ≠ .update_now r := by
  cases cmd with
  | set_loglevel level =>
    refine ⟨fun _ r e => CtrlCommand.noConfusion e, fun _ => ?_⟩
    have h : processCtrlLine c (CtrlCommand.set_loglevel level).line = setLoglevel c level.text := by
      have e : (CtrlCommand.set_loglevel level).line =
          kCtrlLinePrefix ++ (ascii "set_loglevel " ++ level.text) := rfl
      simp only [processCtrlLine, e, stripPrefix_append]
    exact ⟨_, by rw [h, setLoglevel_ack]; exact List.mem_cons_self, rfl⟩
  | log_list r =>
    refine ⟨fun _ r e => CtrlCommand.noConfusion e, fun _ => ?_⟩
    have h := processCtrlLine_two c (ascii "log_list") r (by decide) (by decide)
    rw [if_pos rfl] at h
    obtain ⟨l, hl, hr⟩ := logList_answers c r.text
    exact ⟨l, by rw [← h] at hl; exact hl, hr⟩
  | log_delete_all r =>
    refine ⟨fun _ r e => CtrlCommand.noConfusion e, fun _ => ?_⟩
    have h := processCtrlLine_two c (ascii "log_delete_all") r (by decide) (by decide)
    rw [if_neg (by decide), if_pos rfl] at h
    obtain ⟨l, hl, hr⟩ := logDeleteAll_answers c r.text
    exact ⟨l, by rw [← h] at hl; exact hl, hr⟩
  | update_now r =>
    refine ⟨fun h => ?_, fun h => absurd rfl (h r)⟩
    obtain ⟨l, hl, _⟩ := h
    rw [processCtrlLine_update_now] at hl
    cases hl
  | log_get r f =>
    refine ⟨fun _ r e => CtrlCommand.noConfusion e, fun _ => ?_⟩
    have h := processCtrlLine_three c (ascii "log_get") r f.text (by decide) (by decide) (by decide)
      (by decide)
    rw [if_neg (by decide : ascii "log_get" ≠ ascii "log_delete"), if_pos rfl] at h
    have e : (CtrlCommand.log_get r f).line =
        kCtrlLinePrefix ++ (ascii "log_get" ++ SP :: (r.text ++ SP :: f.text)) := by
      simp only [CtrlCommand.line, List.append_assoc]
      rfl
    rw [← e] at h
    exact answered_of_handler (logGet_answers c r.text f.text) h
  | log_delete r f =>
    refine ⟨fun _ r e => CtrlCommand.noConfusion e, fun _ => ?_⟩
    have h := processCtrlLine_three c (ascii "log_delete") r f.text (by decide) (by decide)
      (by decide) (by decide)
    rw [if_pos rfl] at h
    have e : (CtrlCommand.log_delete r f).line =
        kCtrlLinePrefix ++ (ascii "log_delete" ++ SP :: (r.text ++ SP :: f.text)) := by
      simp only [CtrlCommand.line, List.append_assoc]
      rfl
    rw [← e] at h
    exact answered_of_handler (logDelete_answers c r.text f.text) h

/-- A client with auto-update on, and the request id of eight zero bytes: no line is sent. -/
theorem update_now_dropped :
    ¬ Answered ⟨⟨true, .Info, ascii "/var/log/ntm", []⟩, true,
      [.onNoop (ascii "no_update_available")], id, fun _ => true⟩
      (.update_now (generateReqId [0, 0, 0, 0, 0, 0, 0, 0] rfl)) := by
  rintro ⟨l, hl, _⟩
  rw [processCtrlLine_update_now] at hl
  cases hl

end TrafficMonitor.Control
