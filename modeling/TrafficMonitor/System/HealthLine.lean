import Mathlib.Data.List.Nodup
import Mathlib.Data.List.Perm.Basic
import TrafficMonitor.Basic.Lines
import TrafficMonitor.Protocol

/-!
# The health line

The client reports its counters and its configuration in one H-line of `key=value` tokens
(`senderLoop`); `parseHealthLine` (`ntm_types.hpp`) reads the tokens in any order and passes
over what it does not know. The version, the platform and the numbers of a report are
parameters.

Proved here:

* `set_comm`: tokens of different keys may change places;
* `parse_report`: the tokens of a report, in any order and among tokens that are not known
  or have no value, give back its values;
* `health_line_spec`: that, and what one token does with a number in or out of range;
* `number_is_saturated`: a number above 32 bits is set to the largest, and other numbers
  that are set to something else.
-/

namespace TrafficMonitor.Health

open Bytes

/-! ## The code -/

structure ClientHealthStats where
  pcapRecv : Nat := 0
  pcapDrop : Nat := 0
  bufDrop : Nat := 0
  version : Bytes := []
  platform : Bytes := []
  wireProtoVersion : Nat := 0
  aggIntervalMs : Nat := 0
  aggFlows : Nat := 0
  cfgTransport : Bytes := []
  cfgCompress : Int := -1
  cfgSendBuffer : Nat := 0
  cfgAutoUpdate : Int := -1
  cfgReconnectAttempts : Nat := 0
  cfgReconnectInterval : Nat := 0
  cfgAggTarget : Nat := 0
  cfgAggMinMs : Nat := 0
  cfgAggMaxMs : Nat := 0
  cfgAggMaxFlows : Nat := 0
  cfgLogLevel : Bytes := []
  deriving DecidableEq

def toU64 (val : Bytes) (dst : Nat) : Nat := (stoull val).getD dst

def toU32 (val : Bytes) (dst : Nat) : Nat :=
  match stoull val with
  | none => dst
  | some v => if 0xFFFFFFFF < v then 0xFFFFFFFF else v

def toUint (val : Bytes) (dst : Nat) : Nat :=
  match stoull val with
  | none => dst
  | some v => v % 2 ^ 32

def toI8Bool (val : Bytes) (dst : Int) : Int :=
  if val = ascii "1" then 1 else if val = ascii "0" then 0 else dst

/-- A text that is taken only if it is one of the list. -/
def oneOf (vals : List Bytes) (val dst : Bytes) : Bytes := if val ∈ vals then val else dst

inductive Key
  | pcap_recv
  | pcap_drop
  | buf_drop
  | wire_proto
  | ver
  | platform
  | agg_interval_ms
  | agg_flows
  | cfg_transport
  | cfg_compress
  | cfg_send_buffer
  | cfg_auto_update
  | cfg_reconnect_attempts
  | cfg_reconnect_interval
  | cfg_agg_target
  | cfg_agg_min_ms
  | cfg_agg_max_ms
  | cfg_agg_max_flows
  | cfg_log_level
  deriving DecidableEq

def Key.text : Key → Bytes
  | .pcap_recv => ascii "pcap_recv"
  | .pcap_drop => ascii "pcap_drop"
  | .buf_drop => ascii "buf_drop"
  | .wire_proto => ascii "wire_proto"
  | .ver => ascii "ver"
  | .platform => ascii "platform"
  | .agg_interval_ms => ascii "agg_interval_ms"
  | .agg_flows => ascii "agg_flows"
  | .cfg_transport => ascii "cfg_transport"
  | .cfg_compress => ascii "cfg_compress"
  | .cfg_send_buffer => ascii "cfg_send_buffer"
  | .cfg_auto_update => ascii "cfg_auto_update"
  | .cfg_reconnect_attempts => ascii "cfg_reconnect_attempts"
  | .cfg_reconnect_interval => ascii "cfg_reconnect_interval"
  | .cfg_agg_target => ascii "cfg_agg_target"
  | .cfg_agg_min_ms => ascii "cfg_agg_min_ms"
  | .cfg_agg_max_ms => ascii "cfg_agg_max_ms"
  | .cfg_agg_max_flows => ascii "cfg_agg_max_flows"
  | .cfg_log_level => ascii "cfg_log_level"

/-- The keys in the order of the comparisons. -/
def Key.all : List Key :=
  [.pcap_recv, .pcap_drop, .buf_drop, .wire_proto, .ver, .platform, .agg_interval_ms, .agg_flows,
    .cfg_transport, .cfg_compress, .cfg_send_buffer, .cfg_auto_update, .cfg_reconnect_attempts,
    .cfg_reconnect_interval, .cfg_agg_target, .cfg_agg_min_ms, .cfg_agg_max_ms,
    .cfg_agg_max_flows, .cfg_log_level]

def Key.ofText (key : Bytes) : Option Key := Key.all.find? (·.text = key)

def Key.set (k : Key) (val : Bytes) (hs : ClientHealthStats) : ClientHealthStats :=
  match k with
  | .pcap_recv => { hs with pcapRecv := toU64 val hs.pcapRecv }
  | .pcap_drop => { hs with pcapDrop := toU64 val hs.pcapDrop }
  | .buf_drop => { hs with bufDrop := toU64 val hs.bufDrop }
  | .wire_proto => { hs with wireProtoVersion := toUint val hs.wireProtoVersion }
  | .ver => { hs with version := val.take 64 }
  | .platform => { hs with platform := val.take 64 }
  | .agg_interval_ms => { hs with aggIntervalMs := toU32 val hs.aggIntervalMs }
  | .agg_flows => { hs with aggFlows := toU32 val hs.aggFlows }
  | .cfg_transport =>
    { hs with cfgTransport := oneOf [ascii "tcp", ascii "websocket"] val hs.cfgTransport }
  | .cfg_compress => { hs with cfgCompress := toI8Bool val hs.cfgCompress }
  | .cfg_send_buffer => { hs with cfgSendBuffer := toU32 val hs.cfgSendBuffer }
  | .cfg_auto_update => { hs with cfgAutoUpdate := toI8Bool val hs.cfgAutoUpdate }
  | .cfg_reconnect_attempts =>
    { hs with cfgReconnectAttempts := toU32 val hs.cfgReconnectAttempts }
  | .cfg_reconnect_interval =>
    { hs with cfgReconnectInterval := toU32 val hs.cfgReconnectInterval }
  | .cfg_agg_target => { hs with cfgAggTarget := toU32 val hs.cfgAggTarget }
  | .cfg_agg_min_ms => { hs with cfgAggMinMs := toU32 val hs.cfgAggMinMs }
  | .cfg_agg_max_ms => { hs with cfgAggMaxMs := toU32 val hs.cfgAggMaxMs }
  | .cfg_agg_max_flows => { hs with cfgAggMaxFlows := toU32 val hs.cfgAggMaxFlows }
  | .cfg_log_level =>
    { hs with cfgLogLevel := oneOf [ascii "Info", ascii "Warn", ascii "Err"] val hs.cfgLogLevel }

def EQUALS : UInt8 := 61

def isBlank (c : UInt8) : Bool := c = SP || c = CR

/-- The tokens that the loop visits, `skip` bytes being behind its position. -/
def tokens : Nat → Bytes → List Bytes
  | _, [] => []
  | skip + 1, _ :: s => tokens skip s
  | 0, c :: s =>
    if isBlank c then tokens 0 s
    else
      let token := (c :: s).takeWhile (!isBlank ·)
      token :: tokens (token.length - 1) s

/-- What the loop does with one token; it has a value if there is something after its first
`=`, and keys that are not known are passed over. -/
def applyToken (hs : ClientHealthStats) (token : Bytes) : ClientHealthStats :=
  match Lines.cut EQUALS token with
  | none => hs
  | some (key, val) =>
    if val = [] then hs
    else match Key.ofText key with
    | none => hs
    | some k => k.set val hs

def parseHealthLine (body : Bytes) : ClientHealthStats := (tokens 0 body).foldl applyToken {}

/-! ## The report of a client -/

inductive LogLevel
  | info
  | warn
  | err
  deriving DecidableEq

def LogLevel.text : LogLevel → Bytes
  | .info => ascii "Info"
  | .warn => ascii "Warn"
  | .err => ascii "Err"

/-- What `senderLoop` reports. -/
structure HealthReport where
  totalPcapRecv : Nat
  totalPcapDrop : Nat
  sendBufDrops : Nat
  kClientVersion : Bytes
  kWireProtoVersion : Nat
  kClientPlatform : Bytes
  intervalMs : Nat
  aggLastFlows : Nat
  webSocket : Bool
  useCompression : Bool
  cfgSendBufferBytes : Nat
  cfgAutoUpdate : Bool
  reconnectMaxAttempts : Nat
  reconnectIntervalSec : Nat
  cfgAggTargetLinesPerSec : Nat
  cfgAggMinIntervalMs : Nat
  cfgAggMaxIntervalMs : Nat
  aggMaxFlows : Nat
  currentLevel : LogLevel

def flag (b : Bool) : Bytes := if b then ascii "1" else ascii "0"

/-- The keys and values in the order of the line. -/
def HealthReport.pairs (r : HealthReport) : List (Key × Bytes) :=
  [(.pcap_recv, decimal r.totalPcapRecv),
    (.pcap_drop, decimal r.totalPcapDrop),
    (.buf_drop, decimal r.sendBufDrops),
    (.ver, r.kClientVersion),
    (.wire_proto, decimal r.kWireProtoVersion),
    (.platform, r.kClientPlatform),
    (.agg_interval_ms, decimal r.intervalMs),
    (.agg_flows, decimal r.aggLastFlows),
    (.cfg_transport, if r.webSocket then ascii "websocket" else ascii "tcp"),
    (.cfg_compress, flag r.useCompression),
    (.cfg_send_buffer, decimal r.cfgSendBufferBytes),
    (.cfg_auto_update, flag r.cfgAutoUpdate),
    (.cfg_reconnect_attempts, decimal r.reconnectMaxAttempts),
    (.cfg_reconnect_interval, decimal r.reconnectIntervalSec),
    (.cfg_agg_target, decimal r.cfgAggTargetLinesPerSec),
    (.cfg_agg_min_ms, decimal r.cfgAggMinIntervalMs),
    (.cfg_agg_max_ms, decimal r.cfgAggMaxIntervalMs),
    (.cfg_agg_max_flows, decimal r.aggMaxFlows),
    (.cfg_log_level, r.currentLevel.text)]

def tokenOf (p : Key × Bytes) : Bytes := p.1.text ++ EQUALS :: p.2

/-- The H-line without its prefix and the newline. -/
def HealthReport.body (r : HealthReport) : Bytes := [SP].intercalate (r.pairs.map tokenOf)

/-- The values of a report, in the fields of the server; the send buffer is a `size_t` of the
client and 32 bits of the server. -/
def HealthReport.stats (r : HealthReport) : ClientHealthStats where
  pcapRecv := r.totalPcapRecv
  pcapDrop := r.totalPcapDrop
  bufDrop := r.sendBufDrops
  version := r.kClientVersion
  platform := r.kClientPlatform
  wireProtoVersion := r.kWireProtoVersion
  aggIntervalMs := r.intervalMs
  aggFlows := r.aggLastFlows
  cfgTransport := if r.webSocket then ascii "websocket" else ascii "tcp"
  cfgCompress := if r.useCompression then 1 else 0
  cfgSendBuffer := min r.cfgSendBufferBytes (2 ^ 32 - 1)
  cfgAutoUpdate := if r.cfgAutoUpdate then 1 else 0
  cfgReconnectAttempts := r.reconnectMaxAttempts
  cfgReconnectInterval := r.reconnectIntervalSec
  cfgAggTarget := r.cfgAggTargetLinesPerSec
  cfgAggMinMs := r.cfgAggMinIntervalMs
  cfgAggMaxMs := r.cfgAggMaxIntervalMs
  cfgAggMaxFlows := r.aggMaxFlows
  cfgLogLevel := r.currentLevel.text

/-- The values fit the fields of the client; the texts have no blanks and at most 64 bytes. -/
structure HealthReport.Fits (r : HealthReport) : Prop where
  wide : ∀ n ∈ [r.totalPcapRecv, r.totalPcapDrop, r.sendBufDrops, r.cfgSendBufferBytes],
    n < 2 ^ 64
  narrow : ∀ n ∈ [r.kWireProtoVersion, r.intervalMs, r.aggLastFlows, r.reconnectMaxAttempts,
    r.reconnectIntervalSec, r.cfgAggTargetLinesPerSec, r.cfgAggMinIntervalMs,
    r.cfgAggMaxIntervalMs, r.aggMaxFlows], n < 2 ^ 32
  texts : ∀ t ∈ [r.kClientVersion, r.kClientPlatform],
    t.length ≤ 64 ∧ ∀ c ∈ t, isBlank c = false

/-! ## Cutting a line into tokens -/

structure IsToken (t : Bytes) : Prop where
  ne_nil : t ≠ []
  noBlank : ∀ c ∈ t, isBlank c = false

/-- The line holds these tokens, with any blanks around them. -/
inductive Written : List Bytes → Bytes → Prop
  | blanks {g : Bytes} (hg : ∀ c ∈ g, isBlank c = true) : Written [] g
  | last {g t : Bytes} (hg : ∀ c ∈ g, isBlank c = true) (ht : IsToken t) : Written [t] (g ++ t)
  | more {g t s : Bytes} {b : UInt8} {ts : List Bytes} (hg : ∀ c ∈ g, isBlank c = true)
    (ht : IsToken t) (hb : isBlank b = true) (hs : Written ts s) :
    Written (t :: ts) (g ++ (t ++ b :: s))

theorem tokens_skip (k : Nat) (s : Bytes) : tokens k s = tokens 0 (s.drop k) := by
  induction k generalizing s with
  | zero => rfl
  | succ k ih =>
    cases s with
    | nil => rfl
    | cons c s => rw [tokens, ih, List.drop_succ_cons]

theorem tokens_blanks {g : Bytes} (hg : ∀ c ∈ g, isBlank c = true) (s : Bytes) :
    tokens 0 (g ++ s) = tokens 0 s := by
  induction g with
  | nil => rfl
  | cons c g ih =>
    rw [List.cons_append, tokens, if_pos (hg c (by simp))]
    exact ih fun d hd => hg d (by simp [hd])

theorem tokens_token {t : Bytes} (ht : IsToken t) (rest : Bytes)
    (hrest : ∀ c ∈ rest.head?, isBlank c = true) :
    tokens 0 (t ++ rest) = t :: tokens 0 rest := by
  obtain ⟨c, u, rfl⟩ := List.exists_cons_of_ne_nil ht.ne_nil
  have htake : (c :: (u ++ rest)).takeWhile (!isBlank ·) = c :: u := by
    rw [← List.cons_append,
      List.takeWhile_append_of_pos fun d hd => by simp [ht.noBlank d hd]]
    cases rest with
    | nil => simp
    | cons d rest => simp [hrest d (by simp)]
  have hc := ht.noBlank c (by simp)
  rw [List.cons_append, tokens, if_neg (by simp [hc])]
  simp only [htake, List.length_cons, Nat.add_sub_cancel]
  rw [tokens_skip, List.drop_left]

/-- **Tokens.** The loop visits the tokens of the line in their order. -/
theorem tokens_written {ts : List Bytes} {s : Bytes} (h : Written ts s) : tokens 0 s = ts := by
  induction h with
  | @blanks g hg => simpa [tokens] using tokens_blanks hg []
  | @last g t hg ht =>
    rw [tokens_blanks hg]
    simpa [tokens] using tokens_token ht [] (by simp)
  | @more g t s b ts hg ht hb hs ih =>
    rw [tokens_blanks hg, tokens_token ht _ (by simpa using hb), tokens, if_pos hb, ih]

theorem written_intercalate {ts : List Bytes} (h : ∀ t ∈ ts, IsToken t) :
    Written ts ([SP].intercalate ts) := by
  induction ts with
  | nil => exact .blanks (by simp)
  | cons t ts ih =>
    have ht := h t (by simp)
    have ih := ih fun u hu => h u (by simp [hu])
    cases ts with
    | nil => simpa [List.intercalate] using Written.last (g := []) (by simp) ht
    | cons u ts =>
      have := Written.more (g := []) (b := SP) (by simp) ht rfl ih
      simpa [List.intercalate, List.intersperse] using this

/-! ## One token -/

theorem equals_notMem_text (k : Key) : EQUALS ∉ k.text := by cases k <;> decide

theorem ofText_text (k : Key) : Key.ofText k.text = some k := by cases k <;> decide

theorem ofText_eq_none {key : Bytes} (h : ∀ k : Key, k.text ≠ key) : Key.ofText key = none := by
  rw [Key.ofText, List.find?_eq_none]
  intro k _
  simpa using h k

/-- The line has no `=`, nothing after its first one, or a key that is not known before it. -/
def Ignored (token : Bytes) : Prop :=
  ∀ key val, token = key ++ EQUALS :: val → EQUALS ∉ key → val = [] ∨ ∀ k : Key, k.text ≠ key

theorem applyToken_ignored {token : Bytes} (h : Ignored token) (hs : ClientHealthStats) :
    applyToken hs token = hs := by
  unfold applyToken
  split
  · rfl
  next key val hcut =>
    obtain ⟨e, hkey⟩ := Lines.cut_eq_some.mp hcut
    obtain hval | hkey := h key val e hkey
    · rw [if_pos hval]
    · rw [ofText_eq_none hkey]
      split <;> rfl

/-- What a pair of a report does: nothing when its value is empty. -/
def setPair (hs : ClientHealthStats) (p : Key × Bytes) : ClientHealthStats :=
  if p.2 = [] then hs else p.1.set p.2 hs

theorem applyToken_tokenOf (hs : ClientHealthStats) (p : Key × Bytes) :
    applyToken hs (tokenOf p) = setPair hs p := by
  have hcut : Lines.cut EQUALS (tokenOf p) = some (p.1.text, p.2) :=
    Lines.cut_append EQUALS _ _ (equals_notMem_text p.1)
  simp only [applyToken, hcut, ofText_text, setPair]

/-- Tokens of different keys may change places. -/
theorem set_comm {k k' : Key} (h : k ≠ k') (val val' : Bytes) (hs : ClientHealthStats) :
    k'.set val' (k.set val hs) = k.set val (k'.set val' hs) := by
  cases k <;> cases k' <;> first | rfl | exact absurd rfl h

theorem setPair_comm {p q : Key × Bytes} (h : p.1 ≠ q.1) (hs : ClientHealthStats) :
    setPair (setPair hs p) q = setPair (setPair hs q) p := by
  unfold setPair
  split <;> split <;> first | rfl | exact set_comm h _ _ _

/-! ## The round trip -/

theorem toU64_decimal {n : Nat} (hn : n < 2 ^ 64) (dst : Nat) : toU64 (decimal n) dst = n := by
  have := stoull_decimal n [] hn (by simp)
  rw [List.append_nil] at this
  rw [toU64, this, Option.getD_some]

theorem toU32_of_stoull {val : Bytes} {n : Nat} (h : stoull val = some n) (dst : Nat) :
    toU32 val dst = min n (2 ^ 32 - 1) := by
  simp only [toU32, h]
  split <;> omega

theorem toU32_saturated {n : Nat} (hn : n < 2 ^ 64) (dst : Nat) :
    toU32 (decimal n) dst = min n (2 ^ 32 - 1) := by
  have := stoull_decimal n [] hn (by simp)
  rw [List.append_nil] at this
  exact toU32_of_stoull this dst

theorem toU32_decimal {n : Nat} (hn : n < 2 ^ 32) (dst : Nat) : toU32 (decimal n) dst = n := by
  rw [toU32_saturated (by omega)]
  omega

theorem toUint_decimal {n : Nat} (hn : n < 2 ^ 32) (dst : Nat) : toUint (decimal n) dst = n := by
  have := stoull_decimal n [] (by omega) (by simp)
  rw [List.append_nil] at this
  simp only [toUint, this]
  exact Nat.mod_eq_of_lt hn

theorem toI8Bool_flag (b : Bool) (dst : Int) : toI8Bool (flag b) dst = if b then 1 else 0 := by
  cases b <;> rfl

theorem oneOf_mem {vals : List Bytes} {val : Bytes} (h : val ∈ vals) (dst : Bytes) :
    oneOf vals val dst = val := if_pos h

theorem setPair_set {val : Bytes} (h : val ≠ []) (k : Key) (hs : ClientHealthStats) :
    setPair hs (k, val) = k.set val hs := if_neg h

theorem setPair_ver {val : Bytes} {hs : ClientHealthStats} (hval : val.length ≤ 64)
    (hhs : hs.version = []) : setPair hs (.ver, val) = { hs with version := val } := by
  unfold setPair
  split
  next h => cases hs; simp_all
  next h => simp [Key.set, List.take_of_length_le hval]

theorem setPair_platform {val : Bytes} {hs : ClientHealthStats} (hval : val.length ≤ 64)
    (hhs : hs.platform = []) : setPair hs (.platform, val) = { hs with platform := val } := by
  unfold setPair
  split
  next h => cases hs; simp_all
  next h => simp [Key.set, List.take_of_length_le hval]

/-- The pairs of a report in their own order. -/
theorem pairs_foldl {r : HealthReport} (hr : r.Fits) : r.pairs.foldl setPair {} = r.stats := by
  obtain ⟨hwide, hnarrow, htexts⟩ := hr
  simp only [List.mem_cons, List.not_mem_nil, or_false, forall_eq_or_imp, forall_eq]
    at hwide hnarrow htexts
  obtain ⟨h1, h2, h3, h4⟩ := hwide
  obtain ⟨n1, n2, n3, n4, n5, n6, n7, n8, n9⟩ := hnarrow
  obtain ⟨⟨hver, -⟩, hplat, -⟩ := htexts
  have hflag (b : Bool) : flag b ≠ [] := by cases b <;> decide
  have htrans : (if r.webSocket then ascii "websocket" else ascii "tcp") ∈
      [ascii "tcp", ascii "websocket"] := by cases r.webSocket <;> decide
  have hlevel : r.currentLevel.text ∈ [ascii "Info", ascii "Warn", ascii "Err"] := by
    cases r.currentLevel <;> decide
  have htrans' : (if r.webSocket then ascii "websocket" else ascii "tcp") ≠ [] := by
    cases r.webSocket <;> decide
  have hlevel' : r.currentLevel.text ≠ [] := by cases r.currentLevel <;> decide
  simp only [HealthReport.pairs, List.foldl_cons, List.foldl_nil, setPair_set (decimal_ne_nil _),
    setPair_set (hflag _), setPair_set htrans', setPair_set hlevel', Key.set]
  rw [setPair_ver hver rfl]
  dsimp only
  rw [setPair_platform hplat rfl]
  simp only [toU64_decimal, toU32_decimal, toUint_decimal, toI8Bool_flag, oneOf_mem htrans,
    oneOf_mem hlevel, toU32_saturated h4, h1, h2, h3, n1, n2, n3, n4, n5, n6, n7, n8, n9,
    HealthReport.stats]

theorem pairs_keys_nodup (r : HealthReport) : (r.pairs.map Prod.fst).Nodup := by
  have e : r.pairs.map Prod.fst = [.pcap_recv, .pcap_drop, .buf_drop, .ver, .wire_proto,
    .platform, .agg_interval_ms, .agg_flows, .cfg_transport, .cfg_compress, .cfg_send_buffer,
    .cfg_auto_update, .cfg_reconnect_attempts, .cfg_reconnect_interval, .cfg_agg_target,
    .cfg_agg_min_ms, .cfg_agg_max_ms, .cfg_agg_max_flows, .cfg_log_level] := rfl
  rw [e]
  decide

/-- Any two tokens, of a report or passed over, may change places. -/
theorem tokens_comm {r : HealthReport} {extras : List Bytes} (hextras : ∀ e ∈ extras, Ignored e)
    {x y : Bytes} (hx : x ∈ r.pairs.map tokenOf ++ extras)
    (hy : y ∈ r.pairs.map tokenOf ++ extras) (hs : ClientHealthStats) :
    applyToken (applyToken hs x) y = applyToken (applyToken hs y) x := by
  obtain hx | hx := List.mem_append.mp hx
  · obtain hy | hy := List.mem_append.mp hy
    · obtain ⟨p, hp, rfl⟩ := List.mem_map.mp hx
      obtain ⟨q, hq, rfl⟩ := List.mem_map.mp hy
      by_cases hpq : p.1 = q.1
      · rw [List.inj_on_of_nodup_map (pairs_keys_nodup r) hp hq hpq]
      · simp only [applyToken_tokenOf]
        exact setPair_comm hpq hs
    · simp only [applyToken_ignored (hextras y hy)]
  · simp only [applyToken_ignored (hextras x hx)]

theorem foldl_ignored {extras : List Bytes} (hextras : ∀ e ∈ extras, Ignored e)
    (hs : ClientHealthStats) : extras.foldl applyToken hs = hs := by
  induction extras with
  | nil => rfl
  | cons e extras ih =>
    rw [List.foldl_cons, applyToken_ignored (hextras e (by simp))]
    exact ih fun f hf => hextras f (by simp [hf])

/-- **Order and unknown tokens.** The tokens of a report, in any order and among tokens that
are passed over, give back its values. -/
theorem parse_report {r : HealthReport} (hr : r.Fits) {ts extras : List Bytes} {s : Bytes}
    (hs : Written ts s) (hts : ts.Perm (r.pairs.map tokenOf ++ extras))
    (hextras : ∀ e ∈ extras, Ignored e) : parseHealthLine s = r.stats := by
  have hcomm : ∀ x ∈ ts, ∀ y ∈ ts, ∀ z, applyToken (applyToken z x) y =
      applyToken (applyToken z y) x := fun x hx y hy =>
    tokens_comm hextras (hts.mem_iff.mp hx) (hts.mem_iff.mp hy)
  rw [parseHealthLine, tokens_written hs, hts.foldl_eq' hcomm, List.foldl_append,
    foldl_ignored hextras, List.foldl_map]
  simp only [applyToken_tokenOf]
  exact pairs_foldl hr

theorem isToken_tokenOf {r : HealthReport} (hr : r.Fits) {p : Key × Bytes} (hp : p ∈ r.pairs) :
    IsToken (tokenOf p) := by
  have hkey (k : Key) : ∀ c ∈ k.text, isBlank c = false := by cases k <;> decide
  have hdec (n : Nat) : ∀ c ∈ decimal n, isBlank c = false := fun c hc => by
    have := isDigit_of_mem_decimal hc
    have hne (b : UInt8) (hb : isDigit b = false) : c ≠ b := fun e => by simp [← e, this] at hb
    simp [isBlank, hne SP (by decide), hne CR (by decide)]
  have hval : ∀ c ∈ p.2, isBlank c = false := by
    have hver := (hr.texts r.kClientVersion (by simp)).2
    have hplat := (hr.texts r.kClientPlatform (by simp)).2
    have hflag (b : Bool) : ∀ c ∈ flag b, isBlank c = false := by cases b <;> decide
    have htrans (b : Bool) : ∀ c ∈ (if b then ascii "websocket" else ascii "tcp"),
        isBlank c = false := by cases b <;> decide
    have hlevel : ∀ c ∈ r.currentLevel.text, isBlank c = false := by
      cases r.currentLevel <;> decide
    simp only [HealthReport.pairs, List.mem_cons, List.not_mem_nil, or_false] at hp
    rcases hp with rfl | rfl | rfl | rfl | rfl | rfl | rfl | rfl | rfl | rfl | rfl | rfl | rfl |
      rfl | rfl | rfl | rfl | rfl | rfl <;>
      first | exact hdec _ | exact hver | exact hplat | exact hflag _ | exact htrans _ | exact hlevel
  refine ⟨by simp [tokenOf], fun c hc => ?_⟩
  obtain hc | hc := List.mem_append.mp hc
  · exact hkey p.1 c hc
  · obtain rfl | hc := List.mem_cons.mp hc
    · rfl
    · exact hval c hc

theorem written_body {r : HealthReport} (hr : r.Fits) : Written (r.pairs.map tokenOf) r.body := by
  refine written_intercalate fun t ht => ?_
  obtain ⟨p, hp, rfl⟩ := List.mem_map.mp ht
  exact isToken_tokenOf hr hp

/-! ## One number -/

inductive Value
  | number (n : Nat)
  | text (t : Bytes)
  | state (i : Int)
  deriving DecidableEq

/-- The field that a key sets. -/
def Key.field (k : Key) (hs : ClientHealthStats) : Value :=
  match k with
  | .pcap_recv => .number hs.pcapRecv
  | .pcap_drop => .number hs.pcapDrop
  | .buf_drop => .number hs.bufDrop
  | .wire_proto => .number hs.wireProtoVersion
  | .ver => .text hs.version
  | .platform => .text hs.platform
  | .agg_interval_ms => .number hs.aggIntervalMs
  | .agg_flows => .number hs.aggFlows
  | .cfg_transport => .text hs.cfgTransport
  | .cfg_compress => .state hs.cfgCompress
  | .cfg_send_buffer => .number hs.cfgSendBuffer
  | .cfg_auto_update => .state hs.cfgAutoUpdate
  | .cfg_reconnect_attempts => .number hs.cfgReconnectAttempts
  | .cfg_reconnect_interval => .number hs.cfgReconnectInterval
  | .cfg_agg_target => .number hs.cfgAggTarget
  | .cfg_agg_min_ms => .number hs.cfgAggMinMs
  | .cfg_agg_max_ms => .number hs.cfgAggMaxMs
  | .cfg_agg_max_flows => .number hs.cfgAggMaxFlows
  | .cfg_log_level => .text hs.cfgLogLevel

/-- The counters of 64 bits. -/
def Key.wide : List Key := [.pcap_recv, .pcap_drop, .buf_drop]

/-- The numbers of 32 bits that saturate. -/
def Key.narrow : List Key :=
  [.agg_interval_ms, .agg_flows, .cfg_send_buffer, .cfg_reconnect_attempts,
    .cfg_reconnect_interval, .cfg_agg_target, .cfg_agg_min_ms, .cfg_agg_max_ms,
    .cfg_agg_max_flows]

def Key.numbers : List Key := .wire_proto :: (Key.wide ++ Key.narrow)

def Key.switches : List Key := [.cfg_compress, .cfg_auto_update]

/-- The value is written in digits alone. -/
def Plain (val : Bytes) : Prop := val ≠ [] ∧ ∀ c ∈ val, isDigit c = true

/-- What one token does: it sets its own field or nothing. -/
structure TokenRight (k : Key) (val : Bytes) (hs hs' : ClientHealthStats) : Prop where
  others : ∀ k', k' ≠ k → k'.field hs' = k'.field hs
  noDigit : k ∈ Key.numbers → (∀ c ∈ val, isDigit c = false) → hs' = hs
  tooLarge : k ∈ Key.numbers → Plain val → 2 ^ 64 ≤ digitsValue val → hs' = hs
  wide : k ∈ Key.wide → Plain val → digitsValue val < 2 ^ 64 →
    k.field hs' = .number (digitsValue val)
  narrow : k ∈ Key.narrow → Plain val → digitsValue val < 2 ^ 64 →
    k.field hs' = .number (min (digitsValue val) (2 ^ 32 - 1))
  proto : k = .wire_proto → Plain val → digitsValue val < 2 ^ 32 →
    k.field hs' = .number (digitsValue val)
  switch : k ∈ Key.switches → val ≠ ascii "0" → val ≠ ascii "1" → hs' = hs

theorem stoull_plain {val : Bytes} (h : Plain val) :
    stoull val = if 2 ^ 64 ≤ digitsValue val then none else some (digitsValue val) := by
  simpa using stoull_digits h.1 h.2 [] (by simp)

theorem stoull_noDigit {val : Bytes} (h : ∀ c ∈ val, isDigit c = false) : stoull val = none := by
  have htake (s : Bytes) (hs : s ⊆ val) : s.takeWhile isDigit = [] := by
    rw [List.takeWhile_eq_nil_iff]
    intro hpos
    simp [h _ (hs (List.getElem_mem hpos))]
  have hdrop : val.dropWhile isSpace ⊆ val := List.dropWhile_subset isSpace
  unfold stoull
  dsimp only
  rw [if_pos]
  split
  · exact htake _ fun c hc => hdrop (List.mem_of_mem_tail hc)
  · exact htake _ hdrop

theorem set_others {k k' : Key} (h : k' ≠ k) (val : Bytes) (hs : ClientHealthStats) :
    k'.field (k.set val hs) = k'.field hs := by
  cases k <;> cases k' <;> first | rfl | exact absurd rfl h

/-- A number that throws leaves every field as it is. -/
theorem set_of_stoull_none {k : Key} (hk : k ∈ Key.numbers) {val : Bytes}
    (h : stoull val = none) (hs : ClientHealthStats) : k.set val hs = hs := by
  simp only [Key.numbers, Key.wide, Key.narrow, List.mem_cons, List.cons_append, List.nil_append,
    List.not_mem_nil, or_false] at hk
  rcases hk with rfl | rfl | rfl | rfl | rfl | rfl | rfl | rfl | rfl | rfl | rfl | rfl | rfl <;>
    simp [Key.set, toU64, toU32, toUint, h]

theorem set_wide {k : Key} (hk : k ∈ Key.wide) {val : Bytes} {n : Nat}
    (h : stoull val = some n) (hs : ClientHealthStats) :
    k.field (k.set val hs) = .number n := by
  simp only [Key.wide, List.mem_cons, List.not_mem_nil, or_false] at hk
  rcases hk with rfl | rfl | rfl <;> simp [Key.set, Key.field, toU64, h]

theorem set_narrow {k : Key} (hk : k ∈ Key.narrow) {val : Bytes} {n : Nat}
    (h : stoull val = some n) (hs : ClientHealthStats) :
    k.field (k.set val hs) = .number (min n (2 ^ 32 - 1)) := by
  simp only [Key.narrow, List.mem_cons, List.not_mem_nil, or_false] at hk
  rcases hk with rfl | rfl | rfl | rfl | rfl | rfl | rfl | rfl | rfl <;>
    simp only [Key.set, Key.field, toU32_of_stoull h]

theorem set_switch {k : Key} (hk : k ∈ Key.switches) {val : Bytes} (h0 : val ≠ ascii "0")
    (h1 : val ≠ ascii "1") (hs : ClientHealthStats) : k.set val hs = hs := by
  simp only [Key.switches, List.mem_cons, List.not_mem_nil, or_false] at hk
  rcases hk with rfl | rfl <;> simp [Key.set, toI8Bool, h0, h1]

theorem set_right (k : Key) (val : Bytes) (hs : ClientHealthStats) :
    TokenRight k val hs (k.set val hs) where
  others k' h := set_others h val hs
  noDigit hk h := set_of_stoull_none hk (stoull_noDigit h) hs
  tooLarge hk h hlarge := set_of_stoull_none hk (by rw [stoull_plain h, if_pos hlarge]) hs
  wide hk h hlt := set_wide hk (by rw [stoull_plain h, if_neg (Nat.not_le.mpr hlt)]) hs
  narrow hk h hlt := set_narrow hk (by rw [stoull_plain h, if_neg (Nat.not_le.mpr hlt)]) hs
  proto hk h hlt := by
    subst hk
    have : stoull val = some (digitsValue val) := by rw [stoull_plain h, if_neg (by omega)]
    simp only [Key.set, Key.field, toUint, this, Nat.mod_eq_of_lt hlt]
  switch hk h0 h1 := set_switch hk h0 h1 hs

theorem token_right (k : Key) (val : Bytes) (hs : ClientHealthStats) :
    TokenRight k val hs (applyToken hs (tokenOf (k, val))) := by
  rw [applyToken_tokenOf, setPair]
  split
  next h =>
    obtain rfl : val = [] := h
    refine ⟨fun _ _ => rfl, fun _ _ => rfl, fun _ _ _ => rfl, fun _ hp => ?_, fun _ hp => ?_,
      fun _ hp => ?_, fun _ _ _ => rfl⟩
    all_goals exact absurd rfl hp.1
  · exact set_right k val hs

/-- **The health line.** A report is read back from its line and from any line with its tokens
in any order and among others that are passed over; one token of digits sets its field to its
number, saturated where the field has 32 bits, or leaves it where 64 bits do not hold it. -/
theorem health_line_spec (r : HealthReport) (hr : r.Fits) :
    parseHealthLine r.body = r.stats ∧
      (∀ ts extras s, Written ts s → ts.Perm (r.pairs.map tokenOf ++ extras) →
        (∀ e ∈ extras, Ignored e) → parseHealthLine s = r.stats) ∧
      ∀ k val hs, TokenRight k val hs (applyToken hs (tokenOf (k, val))) := by
  refine ⟨?_, fun ts extras s hs hts hextras => parse_report hr hs hts hextras, token_right⟩
  have hperm : (r.pairs.map tokenOf).Perm (r.pairs.map tokenOf ++ []) := by simp
  exact parse_report hr (written_body hr) hperm (by simp)

def sampleReport : HealthReport where
  totalPcapRecv := 18446744073709551615
  totalPcapDrop := 12
  sendBufDrops := 0
  kClientVersion := ascii "1.27.1"
  kWireProtoVersion := 4
  kClientPlatform := ascii "linux-amd64"
  intervalMs := 1000
  aggLastFlows := 250
  webSocket := true
  useCompression := true
  cfgSendBufferBytes := 0
  cfgAutoUpdate := false
  reconnectMaxAttempts := 10
  reconnectIntervalSec := 30
  cfgAggTargetLinesPerSec := 500
  cfgAggMinIntervalMs := 100
  cfgAggMaxIntervalMs := 10000
  aggMaxFlows := 4294967295
  currentLevel := .warn

theorem sampleReport_fits : sampleReport.Fits := ⟨by decide, by decide, by decide⟩

theorem health_line_spec_sample : parseHealthLine sampleReport.body = sampleReport.stats :=
  (health_line_spec sampleReport sampleReport_fits).1

/-- A number above 32 bits is set to the largest; a sign wraps around, text after the digits is
not read, and the protocol version keeps its low bits. -/
theorem number_is_saturated :
    (parseHealthLine (ascii "cfg_agg_target=5000000000")).cfgAggTarget = 4294967295 ∧
      (parseHealthLine (ascii "pcap_recv=-1")).pcapRecv = 18446744073709551615 ∧
      (parseHealthLine (ascii "pcap_recv=12x")).pcapRecv = 12 ∧
      (parseHealthLine (ascii "wire_proto=4294967297")).wireProtoVersion = 1 := by
  decide +kernel

end TrafficMonitor.Health
