import TrafficMonitor.Client.Control
import TrafficMonitor.Server.CtrlChannel
import TrafficMonitor.Server.Dashboard

/-!
# The log endpoints of the dashboard (`web_dashboard.cpp`)

What the handlers of `/api/admin/clients/:client_id/logs` and `.../loglevel` answer, as
functions of what they find in the client's control channel when their wait ends.
-/

namespace TrafficMonitor.LogEndpoints

open Bytes Control CtrlChannel Dashboard

/-- One character of `jsonEsc`. -/
def escByte (c : UInt8) : Bytes :=
  if c = QUOTE then [BACKSLASH, QUOTE]
  else if c = BACKSLASH then [BACKSLASH, BACKSLASH]
  else if c = LF then [BACKSLASH, 110]
  else if c = CR then [BACKSLASH, 114]
  else if c = TAB then [BACKSLASH, 116]
  else if c < 32 then []
  else [c]

def jsonEsc (s : Bytes) : Bytes := s.flatMap escByte

/-- `validateClientId` -/
def validClientId (id : Bytes) : Bool := id.length = 64 && id.all isHexDigit

def kJson : String := "application/json"

/-! ## Deleting one file -/

/-- The answer to a delete request, from the entry that the handler finds. -/
def deleteReply (filename : Bytes) (resp : LogCmdResponse) : Response :=
  if !resp.done || resp.isError then
    let notFound := resp.lines.head?.any (hasSub (ascii "not-found"))
    Response.error {} (if notFound then 404 else if resp.done then 500 else 504)
      (if notFound then "file not found" else if resp.done then "client error" else "timeout")
  else
    Response.setContent {} (ascii "\x7b\"ok\":true,\"file\":\"" ++ jsonEsc filename ++ ascii "\"\x7d\n")
      kJson

/-- `DELETE /api/admin/clients/:client_id/logs/:filename`; `entry` is `none` for a client
without a channel. -/
def deleteLog (clientId filename : Bytes) (entry : Option LogCmdResponse) : Response :=
  if !validClientId clientId then Response.error {} 400 "invalid client_id"
  else if !admitsFilename filename then Response.error {} 400 "invalid filename"
  else match entry with
    | none => Response.error {} 503 "client not connected"
    | some resp => deleteReply filename resp

/-! ## Setting the log level -/

/-- The answer of `POST .../loglevel` when its wait has ended, to a request for one of the
three levels. -/
def loglevelReply (level : LogLevel) (gotAck : Bool) : Response :=
  if !gotAck then Response.error {} 504 "client did not acknowledge (timeout)"
  else
    Response.setContent {}
      (ascii "\x7b\"ok\":true,\"level\":\"" ++ jsonEsc level.text ++ ascii "\"\x7d\n") kJson

/-! ## Listing the files -/

/-- The tokens of a line that the handler takes for a file line. -/
structure FileEntry where
  name : Bytes
  size : Bytes
  mtime : Bytes
  deriving DecidableEq, Repr

def fileEntry (line : Bytes) : Option FileEntry :=
  if !(ascii "list ").isPrefixOf line then none
  else match findAfter (ascii " file ") line with
    | none => none
    | some rest => match Lines.cut SP rest with
      | none => none
      | some (name, rem) => match Lines.cut SP rem with
        | none => some ⟨name, rem, []⟩
        | some (size, mtime) => some ⟨name, size, mtime⟩

def entryText (e : FileEntry) : Bytes :=
  ascii "\x7b\"name\":\"" ++ jsonEsc e.name ++ ascii "\",\"size\":" ++ jsonEsc e.size ++
    ascii ",\"mtime\":\"" ++ jsonEsc e.mtime ++ ascii "\"\x7d"

/-- The loop over the lines. -/
def entriesText : Bool → List Bytes → Bytes
  | _, [] => []
  | first, line :: lines => match fileEntry line with
    | none => entriesText first lines
    | some e => (if first then [] else ascii ",") ++ entryText e ++ entriesText false lines

/-- The document that lists the files of `lines`. -/
def filesText (level : Bytes) (lines : List Bytes) : Bytes :=
  ascii "\x7b\"connected\":true,\"file_logging\":true,\"level\":\"" ++ jsonEsc level ++
    ascii "\",\"files\":[" ++ entriesText true lines ++ ascii "]\x7d\n"

/-- `cfgLogLevel` of the client's health, which holds one of the levels or nothing. -/
def levelText (cfgLogLevel : Option LogLevel) : Bytes := (cfgLogLevel.getD .Info).text

/-- `GET /api/admin/clients/:client_id/logs` for a valid client id. -/
def listLogs (connected : Bool) (cfgLogLevel : Option LogLevel) (entry : Option LogCmdResponse) :
    Response :=
  let off (conn : String) := Response.setContent {} (ascii "\x7b\"connected\":" ++ ascii conn ++
    ascii ",\"file_logging\":false,\"level\":null,\"files\":[]\x7d\n") kJson
  if !connected then off "false"
  else match entry.filter (·.done) with
    | none => Response.error {} 504 "client did not respond (timeout)"
    | some resp =>
      if resp.isError then
        if resp.lines.head?.any (hasSub (ascii "unavailable")) then off "true"
        else Response.error {} 500 "client reported error"
      else Response.setContent {} (filesText (levelText cfgLogLevel) resp.lines) kJson

end TrafficMonitor.LogEndpoints
