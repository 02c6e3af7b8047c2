import TrafficMonitor.Basic.Lines
import TrafficMonitor.Client.FlushSize
import TrafficMonitor.Protocol

/-!
# The configuration file of the client

`loadClientConfig` reads `key=value` lines and `parseConfigLine` sets one field of the
configuration from each; a number is clamped to its range or, out of range, passed over. Proved
here:

* `inRange_set`: a line leaves every field in its range;
* `inRange_loadClientConfig`: so does a file.
-/

namespace TrafficMonitor

open Bytes FlushSize

structure ClientConfig where
  server : Bytes := ascii "127.0.0.1"
  port : Nat := 5555
  identityPath : Bytes := []
  tlsCaPath : Bytes := []
  tlsServerCertPath : Bytes := []
  sendBufferBytes : Nat := 0
  verbose : Bool := false
  externalIpUrl : Bytes := ascii "http://checkip.amazonaws.com/"
  externalIpTimeoutMs : Nat := 5000
  reconnectMaxAttempts : Nat := 10
  reconnectIntervalSec : Nat := 60
  auto_update : Bool := false
  aggTargetLinesPerSec : Nat := 500
  aggMinIntervalMs : Nat := 100
  aggMaxIntervalMs : Nat := 5000
  aggMaxFlows : Nat := 10000
  useCompression : Bool := true
  transport : TransportMode := .TcpTls
  log_dir : Bytes := []
  log_level : Bytes := ascii "Info"
  deriving DecidableEq

namespace ClientConfig

def kMaxLineLen : Nat := 8192
def kMaxValueLen : Nat := 2048
def kMinSendBuf : Nat := 4096
def kMaxSendBuf : Nat := 2 * 1024 * 1024

/-- `std::clamp`; with the limits in the wrong order its behaviour is undefined. -/
def clamp (n lo hi : Nat) : Nat := if n < lo then lo else if hi < n then hi else n

/-- `std::stoul(v)`, where `unsigned long` has 64 bits, moved into a range. -/
def clamped (v : Bytes) (lo hi old : Nat) : Nat :=
  match stoull v with
  | none => old
  | some n => clamp n lo hi

/-- `std::stoul(v)`, taken only in a range. -/
def ifWithin (v : Bytes) (lo hi old : Nat) : Nat :=
  match stoull v with
  | none => old
  | some n => if lo ≤ n ∧ n ≤ hi then n else old

/-- `std::tolower` in the C locale. -/
def toLower (c : UInt8) : UInt8 := if 65 ≤ c && c ≤ 90 then c + 32 else c

def isYes (v : Bytes) : Bool :=
  v.map toLower ∈ [ascii "1", ascii "true", ascii "yes"]

def isNo (v : Bytes) : Bool :=
  v.map toLower ∈ [ascii "0", ascii "false", ascii "no"]

inductive Key
  | server
  | port
  | identity
  | ca
  | server_cert
  | send_buffer_bytes
  | verbose
  | external_ip_url
  | external_ip_timeout_ms
  | reconnect_attempts
  | reconnect_interval_sec
  | auto_update
  | web_port
  | agg_target_lines_per_sec
  | agg_min_interval_ms
  | agg_max_interval_ms
  | agg_max_flows
  | compress
  | transport
  | log_dir
  | log_level
  deriving DecidableEq

def Key.text : Key → Bytes
  | .server => ascii "server"
  | .port => ascii "port"
  | .identity => ascii "identity"
  | .ca => ascii "ca"
  | .server_cert => ascii "server_cert"
  | .send_buffer_bytes => ascii "send_buffer_bytes"
  | .verbose => ascii "verbose"
  | .external_ip_url => ascii "external_ip_url"
  | .external_ip_timeout_ms => ascii "external_ip_timeout_ms"
  | .reconnect_attempts => ascii "reconnect_attempts"
  | .reconnect_interval_sec => ascii "reconnect_interval_sec"
  | .auto_update => ascii "auto_update"
  | .web_port => ascii "web_port"
  | .agg_target_lines_per_sec => ascii "agg_target_lines_per_sec"
  | .agg_min_interval_ms => ascii "agg_min_interval_ms"
  | .agg_max_interval_ms => ascii "agg_max_interval_ms"
  | .agg_max_flows => ascii "agg_max_flows"
  | .compress => ascii "compress"
  | .transport => ascii "transport"
  | .log_dir => ascii "log_dir"
  | .log_level => ascii "log_level"

/-- The keys in the order of the comparisons. -/
def Key.all : List Key :=
  [.server, .port, .identity, .ca, .server_cert, .send_buffer_bytes, .verbose, .external_ip_url,
    .external_ip_timeout_ms, .reconnect_attempts, .reconnect_interval_sec, .auto_update, .web_port,
    .agg_target_lines_per_sec, .agg_min_interval_ms, .agg_max_interval_ms, .agg_max_flows,
    .compress, .transport, .log_dir, .log_level]

def Key.set (k : Key) (v : Bytes) (out : ClientConfig) : ClientConfig :=
  match k with
  | .server => { out with server := v }
  | .port => { out with port := ifWithin v 1 65535 out.port }
  | .identity => { out with identityPath := v }
  | .ca => { out with tlsCaPath := v }
  | .server_cert => { out with tlsServerCertPath := v }
  | .send_buffer_bytes =>
    { out with sendBufferBytes := clamped v kMinSendBuf kMaxSendBuf out.sendBufferBytes }
  | .verbose => { out with verbose := isYes v }
  | .external_ip_url => if v = [] then out else { out with externalIpUrl := v }
  | .external_ip_timeout_ms =>
    { out with externalIpTimeoutMs := ifWithin v 500 30000 out.externalIpTimeoutMs }
  | .reconnect_attempts =>
    { out with reconnectMaxAttempts := ifWithin v 1 1000 out.reconnectMaxAttempts }
  | .reconnect_interval_sec =>
    { out with reconnectIntervalSec := ifWithin v 1 3600 out.reconnectIntervalSec }
  | .auto_update => { out with auto_update := isYes v }
  | .web_port => out
  | .agg_target_lines_per_sec =>
    { out with aggTargetLinesPerSec := clamped v 0 1000000 out.aggTargetLinesPerSec }
  | .agg_min_interval_ms =>
    { out with aggMinIntervalMs := clamped v 50 5000 out.aggMinIntervalMs }
  | .agg_max_interval_ms =>
    { out with aggMaxIntervalMs := clamped v 100 60000 out.aggMaxIntervalMs }
  | .agg_max_flows => { out with aggMaxFlows := clamped v 100 1000000 out.aggMaxFlows }
  | .compress => { out with useCompression := !isNo v }
  | .transport =>
    let websocket := v.map toLower ∈ [ascii "websocket", ascii "ws"]
    { out with transport := if websocket then .WebSocket else .TcpTls }
  | .log_dir => { out with log_dir := v }
  | .log_level =>
    let known := v ∈ [ascii "Info", ascii "Warn", ascii "Err"]
    { out with log_level := if known then v else ascii "Info" }

/-- `none` for a key that is not known, which leaves the configuration as it is. -/
def parseConfigLine (key val : Bytes) (out : ClientConfig) : Option ClientConfig :=
  (Key.all.find? (·.text = key)).map fun k => k.set (val.take kMaxValueLen) out

def EQUALS : UInt8 := 61
def HASH : UInt8 := 35

def isBlank (c : UInt8) : Bool := c = SP || c = TAB

/-- The body of the loop of `loadClientConfig`. -/
def configLine (out : ClientConfig) (line : Bytes) : ClientConfig :=
  let line := line.take kMaxLineLen
  let line := if line.getLast? = some CR then line.dropLast else line
  let line := line.dropWhile isBlank
  if line = [] ∨ line.head? = some HASH then out
  else match Lines.cut EQUALS line with
    | none => out
    | some (key, val) =>
      -- a value of blanks alone is kept
      let rest := val.dropWhile isBlank
      (parseConfigLine (trimRight isBlank key) (if rest = [] then val else rest) out).getD out

/-- Load a file with this content into a configuration; `none` if it cannot be opened. -/
def loadClientConfig (file : Option Bytes) (out : ClientConfig) : Option ClientConfig :=
  file.map fun content => (Lines.parts LF content).foldl configLine out

/-! ## Ranges -/

/-- Every field is in the range that the file is held to. -/
structure InRange (c : ClientConfig) : Prop where
  port : 1 ≤ c.port ∧ c.port ≤ 65535
  sendBuffer : c.sendBufferBytes = 0 ∨
    (kMinSendBuf ≤ c.sendBufferBytes ∧ c.sendBufferBytes ≤ kMaxSendBuf)
  timeout : 500 ≤ c.externalIpTimeoutMs ∧ c.externalIpTimeoutMs ≤ 30000
  attempts : 1 ≤ c.reconnectMaxAttempts ∧ c.reconnectMaxAttempts ≤ 1000
  interval : 1 ≤ c.reconnectIntervalSec ∧ c.reconnectIntervalSec ≤ 3600
  aggTarget : c.aggTargetLinesPerSec ≤ 1000000
  aggMin : 50 ≤ c.aggMinIntervalMs ∧ c.aggMinIntervalMs ≤ 5000
  aggMax : 100 ≤ c.aggMaxIntervalMs ∧ c.aggMaxIntervalMs ≤ 60000
  aggFlows : 100 ≤ c.aggMaxFlows ∧ c.aggMaxFlows ≤ 1000000
  logLevel : c.log_level ∈ [ascii "Info", ascii "Warn", ascii "Err"]

theorem clamp_bounds {n lo hi : Nat} (h : lo ≤ hi) : lo ≤ clamp n lo hi ∧ clamp n lo hi ≤ hi := by
  unfold clamp
  split
  · omega
  · split <;> omega

theorem clamped_cases (v : Bytes) {lo hi : Nat} (h : lo ≤ hi) (old : Nat) :
    clamped v lo hi old = old ∨ (lo ≤ clamped v lo hi old ∧ clamped v lo hi old ≤ hi) := by
  unfold clamped
  split
  · exact .inl rfl
  · exact .inr (clamp_bounds h)

theorem clamped_bounds (v : Bytes) {lo hi old : Nat} (h : lo ≤ old ∧ old ≤ hi) :
    lo ≤ clamped v lo hi old ∧ clamped v lo hi old ≤ hi := by
  rcases clamped_cases v (Nat.le_trans h.1 h.2) old with heq | hin
  · rwa [heq]
  · exact hin

theorem ifWithin_bounds (v : Bytes) {lo hi old : Nat} (h : lo ≤ old ∧ old ≤ hi) :
    lo ≤ ifWithin v lo hi old ∧ ifWithin v lo hi old ≤ hi := by
  unfold ifWithin
  split
  · exact h
  · split
    next hin => exact hin
    · exact h

/-- **A line.** Every field stays in its range. -/
theorem inRange_set {c : ClientConfig} (h : c.InRange) (k : Key) (v : Bytes) :
    (k.set v c).InRange := by
  cases k with
  | port => exact { h with port := ifWithin_bounds v h.port }
  | send_buffer_bytes =>
    have hle : kMinSendBuf ≤ kMaxSendBuf := by decide
    refine { h with sendBuffer := ?_ }
    dsimp only [Key.set]
    rcases clamped_cases v hle c.sendBufferBytes with heq | hin
    · rw [heq]
      exact h.sendBuffer
    · exact .inr hin
  | external_ip_url =>
    unfold Key.set
    dsimp only
    split
    · exact h
    · exact { h with }
  | external_ip_timeout_ms => exact { h with timeout := ifWithin_bounds v h.timeout }
  | reconnect_attempts => exact { h with attempts := ifWithin_bounds v h.attempts }
  | reconnect_interval_sec => exact { h with interval := ifWithin_bounds v h.interval }
  | agg_target_lines_per_sec =>
    exact { h with aggTarget := (clamped_bounds v ⟨Nat.zero_le _, h.aggTarget⟩).2 }
  | agg_min_interval_ms => exact { h with aggMin := clamped_bounds v h.aggMin }
  | agg_max_interval_ms => exact { h with aggMax := clamped_bounds v h.aggMax }
  | agg_max_flows => exact { h with aggFlows := clamped_bounds v h.aggFlows }
  | log_level =>
    refine { h with logLevel := ?_ }
    unfold Key.set
    dsimp only
    split
    next hknown => exact hknown
    · simp
  | web_port => exact h
  | _ => exact { h with }

theorem inRange_configLine {c : ClientConfig} (h : c.InRange) (line : Bytes) :
    (configLine c line).InRange := by
  unfold configLine
  extract_lets line
  split
  · exact h
  · split
    · exact h
    · unfold parseConfigLine
      cases Key.all.find? _ with
      | none => exact h
      | some k => exact inRange_set h k _

theorem inRange_foldl {c : ClientConfig} (h : c.InRange) (lines : List Bytes) :
    (lines.foldl configLine c).InRange := by
  induction lines generalizing c with
  | nil => exact h
  | cons line lines ih => exact ih (inRange_configLine h line)

theorem inRange_default : ({} : ClientConfig).InRange := by
  refine ⟨?_, ?_, ?_, ?_, ?_, ?_, ?_, ?_, ?_, ?_⟩ <;> decide

/-- **A file.** Whatever it holds, every field is in its range. -/
theorem inRange_loadClientConfig {file : Option Bytes} {out c : ClientConfig} (h : out.InRange)
    (hload : loadClientConfig file out = some c) : c.InRange := by
  obtain ⟨content, -, rfl⟩ := Option.map_eq_some_iff.mp hload
  exact inRange_foldl h _

end ClientConfig

end TrafficMonitor
