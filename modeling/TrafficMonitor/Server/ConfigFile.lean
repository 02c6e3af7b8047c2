import TrafficMonitor.Client.Config
import TrafficMonitor.Stats.TrafficStats

/-!
# The configuration file of the server

`loadServerConfig` reads `key=value` lines; the last line of a key decides its field. The
number of a numeric key is moved into the range of the key. Two keys cast it to `unsigned`
before that.

Proved here:

* `get_loadServerConfig`: the field of a numeric key after a file;
* `set_other`: a line changes no field but its own;
* `loaded_iff`: when the fields are the written numbers moved into their ranges.
-/

namespace TrafficMonitor.ServerFile

open Bytes ClientConfig

structure Config extends ServerConfig where
  port : Nat := 5555
  client_bind : Bytes := []
  allowed_keys : Bytes := []
  cert : Bytes := []
  key : Bytes := []
  require_tls : Bool := false
  verbose : Bool := false
  web_port : Nat := 8443
  web_bind : Bytes := ascii "0.0.0.0"
  web_rate_limit_rpm : Nat := 30
  aggregation_window_days : Nat := Stats.kAggregationWindowDaysDefault
  ip_db_path : Bytes := ascii "/var/lib/ntm-server/ip2asn-combined.tsv.gz"
  ip_db_url : Bytes := ascii "https://iptoasn.com/data/ip2asn-combined.tsv.gz"
  ip_db_update_interval_days : Nat := 7
  ip_db_auto_update : Bool := true
  max_flow_entries_per_key : Nat := 100000
  max_entity_flow_entries_per_key : Nat := 100000
  max_ifaces_per_client : Nat := 256
  max_entity_lines_in_summary : Nat := 50000
  max_snapshot_entries_for_print : Nat := 200000
  max_concurrent_connections : Nat := 1000
  max_connections_per_ip : Nat := 20
  update_dir : Bytes := []
  trusted_proxy : Bytes := []
  hidden_entities_file : Bytes := []
  webauthn_rp_id : Bytes := []
  webauthn_rp_name : Bytes := []
  webauthn_credentials_file : Bytes := []
  webauthn_ios_app_id : Bytes := []
  webauthn_allowed_origins : Bytes := []
  webauthn_session_ttl_hours : Nat := 24
  webauthn_idle_timeout_minutes : Nat := 15
  siwa_service_id : Bytes := []
  siwa_ios_bundle_id : Bytes := []
  siwa_redirect_uri : Bytes := []
  siwa_admins : Bytes := []
  siwa_admin_subs : Bytes := []
  siwa_admin_file : Bytes := []
  siwa_domain_assoc_file : Bytes := []
  deriving DecidableEq

/-! ## Keys -/

inductive NumKey
  | port
  | web_port
  | web_rate_limit_rpm
  | webauthn_session_ttl_hours
  | webauthn_idle_timeout_minutes
  | aggregation_window_days
  | ip_db_update_interval_days
  | max_recv_buffer_bytes
  | max_flow_entries_per_key
  | max_entity_flow_entries_per_key
  | max_ifaces_per_client
  | max_entity_lines_in_summary
  | max_snapshot_entries_for_print
  | max_iface_len
  | max_ip_len
  | max_concurrent_connections
  | max_connections_per_ip
  | idle_timeout_seconds
  | max_d_lines_per_second_per_connection
  deriving DecidableEq

inductive TextKey
  | client_bind
  | allowed_keys
  | cert
  | key
  | web_bind
  | webauthn_rp_id
  | webauthn_rp_name
  | webauthn_credentials_file
  | webauthn_ios_app_id
  | webauthn_allowed_origins
  | siwa_service_id
  | siwa_ios_bundle_id
  | siwa_redirect_uri
  | siwa_admins
  | siwa_admin_subs
  | siwa_admin_file
  | siwa_domain_assoc_file
  | update_dir
  | trusted_proxy
  | hidden_entities_file
  | ip_db_path
  | ip_db_url
  deriving DecidableEq

inductive FlagKey
  | require_tls
  | verbose
  | ip_db_auto_update
  deriving DecidableEq

inductive Key
  | num (k : NumKey)
  | text (k : TextKey)
  | flag (k : FlagKey)
  deriving DecidableEq

def Key.name : Key → Bytes
  | .num .port => ascii "port"
  | .num .web_port => ascii "web_port"
  | .num .web_rate_limit_rpm => ascii "web_rate_limit_rpm"
  | .num .webauthn_session_ttl_hours => ascii "webauthn_session_ttl_hours"
  | .num .webauthn_idle_timeout_minutes => ascii "webauthn_idle_timeout_minutes"
  | .num .aggregation_window_days => ascii "aggregation_window_days"
  | .num .ip_db_update_interval_days => ascii "ip_db_update_interval_days"
  | .num .max_recv_buffer_bytes => ascii "max_recv_buffer_bytes"
  | .num .max_flow_entries_per_key => ascii "max_flow_entries_per_key"
  | .num .max_entity_flow_entries_per_key => ascii "max_entity_flow_entries_per_key"
  | .num .max_ifaces_per_client => ascii "max_ifaces_per_client"
  | .num .max_entity_lines_in_summary => ascii "max_entity_lines_in_summary"
  | .num .max_snapshot_entries_for_print => ascii "max_snapshot_entries_for_print"
  | .num .max_iface_len => ascii "max_iface_len"
  | .num .max_ip_len => ascii "max_ip_len"
  | .num .max_concurrent_connections => ascii "max_concurrent_connections"
  | .num .max_connections_per_ip => ascii "max_connections_per_ip"
  | .num .idle_timeout_seconds => ascii "idle_timeout_seconds"
  | .num .max_d_lines_per_second_per_connection => ascii "max_d_lines_per_second_per_connection"
  | .text .client_bind => ascii "client_bind"
  | .text .allowed_keys => ascii "allowed_keys"
  | .text .cert => ascii "cert"
  | .text .key => ascii "key"
  | .text .web_bind => ascii "web_bind"
  | .text .webauthn_rp_id => ascii "webauthn_rp_id"
  | .text .webauthn_rp_name => ascii "webauthn_rp_name"
  | .text .webauthn_credentials_file => ascii "webauthn_credentials_file"
  | .text .webauthn_ios_app_id => ascii "webauthn_ios_app_id"
  | .text .webauthn_allowed_origins => ascii "webauthn_allowed_origins"
  | .text .siwa_service_id => ascii "siwa_service_id"
  | .text .siwa_ios_bundle_id => ascii "siwa_ios_bundle_id"
  | .text .siwa_redirect_uri => ascii "siwa_redirect_uri"
  | .text .siwa_admins => ascii "siwa_admins"
  | .text .siwa_admin_subs => ascii "siwa_admin_subs"
  | .text .siwa_admin_file => ascii "siwa_admin_file"
  | .text .siwa_domain_assoc_file => ascii "siwa_domain_assoc_file"
  | .text .update_dir => ascii "update_dir"
  | .text .trusted_proxy => ascii "trusted_proxy"
  | .text .hidden_entities_file => ascii "hidden_entities_file"
  | .text .ip_db_path => ascii "ip_db_path"
  | .text .ip_db_url => ascii "ip_db_url"
  | .flag .require_tls => ascii "require_tls"
  | .flag .verbose => ascii "verbose"
  | .flag .ip_db_auto_update => ascii "ip_db_auto_update"

/-- `knownServerConfigKeys`, in the order of the comparisons. -/
def knownServerConfigKeys : List Key :=
  [.num .port, .text .client_bind, .text .allowed_keys, .text .cert, .text .key,
    .flag .require_tls, .flag .verbose, .num .web_port, .text .web_bind,
    .num .web_rate_limit_rpm, .text .webauthn_rp_id, .text .webauthn_rp_name,
    .text .webauthn_credentials_file, .text .webauthn_ios_app_id,
    .text .webauthn_allowed_origins, .text .siwa_service_id, .text .siwa_ios_bundle_id,
    .text .siwa_redirect_uri, .text .siwa_admins, .text .siwa_admin_subs,
    .text .siwa_admin_file, .text .siwa_domain_assoc_file, .num .webauthn_session_ttl_hours,
    .num .webauthn_idle_timeout_minutes, .text .update_dir, .text .trusted_proxy,
    .text .hidden_entities_file, .num .aggregation_window_days, .text .ip_db_path,
    .text .ip_db_url, .num .ip_db_update_interval_days, .flag .ip_db_auto_update,
    .num .max_recv_buffer_bytes, .num .max_flow_entries_per_key,
    .num .max_entity_flow_entries_per_key, .num .max_ifaces_per_client,
    .num .max_entity_lines_in_summary, .num .max_snapshot_entries_for_print,
    .num .max_iface_len, .num .max_ip_len, .num .max_concurrent_connections,
    .num .max_connections_per_ip, .num .idle_timeout_seconds,
    .num .max_d_lines_per_second_per_connection]

/-! ## Fields -/

def NumKey.get (c : Config) : NumKey → Nat
  | .port => c.port
  | .web_port => c.web_port
  | .web_rate_limit_rpm => c.web_rate_limit_rpm
  | .webauthn_session_ttl_hours => c.webauthn_session_ttl_hours
  | .webauthn_idle_timeout_minutes => c.webauthn_idle_timeout_minutes
  | .aggregation_window_days => c.aggregation_window_days
  | .ip_db_update_interval_days => c.ip_db_update_interval_days
  | .max_recv_buffer_bytes => c.max_recv_buffer_bytes
  | .max_flow_entries_per_key => c.max_flow_entries_per_key
  | .max_entity_flow_entries_per_key => c.max_entity_flow_entries_per_key
  | .max_ifaces_per_client => c.max_ifaces_per_client
  | .max_entity_lines_in_summary => c.max_entity_lines_in_summary
  | .max_snapshot_entries_for_print => c.max_snapshot_entries_for_print
  | .max_iface_len => c.max_iface_len
  | .max_ip_len => c.max_ip_len
  | .max_concurrent_connections => c.max_concurrent_connections
  | .max_connections_per_ip => c.max_connections_per_ip
  | .idle_timeout_seconds => c.idle_timeout_seconds
  | .max_d_lines_per_second_per_connection => c.max_d_lines_per_second_per_connection

def NumKey.put (n : Nat) (c : Config) : NumKey → Config
  | .port => { c with port := n }
  | .web_port => { c with web_port := n }
  | .web_rate_limit_rpm => { c with web_rate_limit_rpm := n }
  | .webauthn_session_ttl_hours => { c with webauthn_session_ttl_hours := n }
  | .webauthn_idle_timeout_minutes => { c with webauthn_idle_timeout_minutes := n }
  | .aggregation_window_days => { c with aggregation_window_days := n }
  | .ip_db_update_interval_days => { c with ip_db_update_interval_days := n }
  | .max_recv_buffer_bytes => { c with max_recv_buffer_bytes := n }
  | .max_flow_entries_per_key => { c with max_flow_entries_per_key := n }
  | .max_entity_flow_entries_per_key => { c with max_entity_flow_entries_per_key := n }
  | .max_ifaces_per_client => { c with max_ifaces_per_client := n }
  | .max_entity_lines_in_summary => { c with max_entity_lines_in_summary := n }
  | .max_snapshot_entries_for_print => { c with max_snapshot_entries_for_print := n }
  | .max_iface_len => { c with max_iface_len := n }
  | .max_ip_len => { c with max_ip_len := n }
  | .max_concurrent_connections => { c with max_concurrent_connections := n }
  | .max_connections_per_ip => { c with max_connections_per_ip := n }
  | .idle_timeout_seconds => { c with idle_timeout_seconds := n }
  | .max_d_lines_per_second_per_connection =>
    { c with max_d_lines_per_second_per_connection := n }

def TextKey.put (v : Bytes) (c : Config) : TextKey → Config
  | .client_bind => { c with client_bind := v }
  | .allowed_keys => { c with allowed_keys := v }
  | .cert => { c with cert := v }
  | .key => { c with key := v }
  | .web_bind => { c with web_bind := v }
  | .webauthn_rp_id => { c with webauthn_rp_id := v }
  | .webauthn_rp_name => { c with webauthn_rp_name := v }
  | .webauthn_credentials_file => { c with webauthn_credentials_file := v }
  | .webauthn_ios_app_id => { c with webauthn_ios_app_id := v }
  | .webauthn_allowed_origins => { c with webauthn_allowed_origins := v }
  | .siwa_service_id => { c with siwa_service_id := v }
  | .siwa_ios_bundle_id => { c with siwa_ios_bundle_id := v }
  | .siwa_redirect_uri => { c with siwa_redirect_uri := v }
  | .siwa_admins => { c with siwa_admins := v }
  | .siwa_admin_subs => { c with siwa_admin_subs := v }
  | .siwa_admin_file => { c with siwa_admin_file := v }
  | .siwa_domain_assoc_file => { c with siwa_domain_assoc_file := v }
  | .update_dir => { c with update_dir := v }
  | .trusted_proxy => { c with trusted_proxy := v }
  | .hidden_entities_file => { c with hidden_entities_file := v }
  | .ip_db_path => { c with ip_db_path := v }
  | .ip_db_url => { c with ip_db_url := v }

def FlagKey.put (b : Bool) (c : Config) : FlagKey → Config
  | .require_tls => { c with require_tls := b }
  | .verbose => { c with verbose := b }
  | .ip_db_auto_update => { c with ip_db_auto_update := b }

/-! ## Lines -/

/-- What the branch of a key makes of the number that `std::stoul` returns. The casts of the
results to the types of the fields are left out: they change no value. -/
def NumKey.convert (u : Nat) : NumKey → Nat
  | .port => max 1 (min 65535 u)
  | .web_port => min 65535 u
  | .web_rate_limit_rpm => min 100000 u
  | .webauthn_session_ttl_hours => min 720 (max 1 u)
  | .webauthn_idle_timeout_minutes => min 1440 (max 1 u)
  | .aggregation_window_days => max 1 (min 365 u)
  | .ip_db_update_interval_days => min 365 (max 1 u)
  | .max_recv_buffer_bytes => min (16 * 1024 * 1024) (max 4096 u)
  | .max_flow_entries_per_key => min 1000000 (max 100 u)
  | .max_entity_flow_entries_per_key => min 1000000 (max 100 u)
  | .max_ifaces_per_client => min 100000 (max 1 u)
  | .max_entity_lines_in_summary => min 1000000 (max 100 u)
  | .max_snapshot_entries_for_print => min 2000000 (max 1000 u)
  | .max_iface_len => min 256 (max 8 u)
  | .max_ip_len => min 64 (max 15 u)
  | .max_concurrent_connections => min 100000 (max 10 u)
  | .max_connections_per_ip => min 1000 (max 1 u)
  -- `static_cast<unsigned>(u)`
  | .idle_timeout_seconds => min 86400 (max 10 (u % 2 ^ 32))
  | .max_d_lines_per_second_per_connection => min 1000000 (max 100 (u % 2 ^ 32))

def FlagKey.read (val : Bytes) : FlagKey → Bool
  | .require_tls => val.map toLower ∈ [ascii "true", ascii "yes", ascii "1"]
  | .verbose => val.map toLower ∈ [ascii "true", ascii "yes", ascii "1"]
  | .ip_db_auto_update =>
    val.map toLower ∈ [ascii "1", ascii "true", ascii "yes", ascii "on"]

/-- The branch of a key; an exception of `std::stoul` leaves the field as it is. -/
def Key.set (k : Key) (val : Bytes) (cfg : Config) : Config :=
  match k with
  | .num k => match stoull val with
    | none => cfg
    | some u => k.put (k.convert u) cfg
  | .text k => k.put val cfg
  | .flag k => k.put (k.read val) cfg

/-- The key of a line and its value; `none` for a blank line, a comment, a line without `=`
and a key that is not known. -/
def readLine (line : Bytes) : Option (Key × Bytes) :=
  let line := (trimRight (fun c => c = CR || c = LF) line).dropWhile isBlank
  if line = [] ∨ line.head? = some HASH then none
  else match Lines.cut EQUALS line with
    | none => none
    | some (key, val) =>
      -- a value of blanks alone is kept
      let rest := val.dropWhile isBlank
      (knownServerConfigKeys.find? (·.name = trimRight isBlank key)).map fun k =>
        (k, if rest = [] then val else rest)

structure Loaded where
  cfg : Config := {}
  ok : Bool := true
  recognized : Nat := 0
  deriving DecidableEq

/-- The body of the loop of `loadServerConfig`. -/
def configLine (out : Loaded) (line : Bytes) : Loaded :=
  match readLine line with
  | none => out
  | some (k, val) =>
    let mayBeEmpty : List Key := [.text .allowed_keys, .text .cert, .text .key]
    { out with
      recognized := out.recognized + 1
      cfg := if val = [] ∧ k ∉ mayBeEmpty then out.cfg else k.set val out.cfg }

def configLines (lines : List Bytes) : Loaded := lines.foldl configLine {}

/-- `none` is an empty path, and `some none` a file that cannot be opened. -/
def loadServerConfig (file : Option (Option Bytes)) : Loaded :=
  match file with
  | none => {}
  | some none => { ok := false }
  | some (some content) => configLines (Lines.parts LF content)

/-! ## The field of a key -/

@[simp] theorem get_put (k : NumKey) (n : Nat) (c : Config) : k.get (k.put n c) = n := by
  cases k <;> rfl

theorem put_put (k : NumKey) (n m : Nat) (c : Config) : k.put n (k.put m c) = k.put n c := by
  cases k <;> rfl

theorem put_comm {j k : NumKey} (h : j ≠ k) (n m : Nat) (c : Config) :
    k.put n (j.put m c) = j.put m (k.put n c) := by
  cases k <;> cases j <;> first | rfl | exact absurd rfl h

theorem put_text (k : NumKey) (t : TextKey) (n : Nat) (v : Bytes) (c : Config) :
    k.put n (t.put v c) = t.put v (k.put n c) := by
  cases t <;> cases k <;> rfl

theorem put_flag (k : NumKey) (f : FlagKey) (n : Nat) (b : Bool) (c : Config) :
    k.put n (f.put b c) = f.put b (k.put n c) := by
  cases f <;> cases k <;> rfl

/-- The configurations differ in the field of one key at most. -/
def SameBut (k : NumKey) (c d : Config) : Prop := ∀ n, k.put n c = k.put n d

theorem sameBut_set (k : NumKey) (v : Bytes) (c : Config) : SameBut k ((Key.num k).set v c) c := by
  intro n
  simp only [Key.set]
  split
  · rfl
  · exact put_put k n _ c

theorem SameBut.set {k : NumKey} {c d : Config} (h : SameBut k c d) (key : Key) (v : Bytes) :
    SameBut k (key.set v c) (key.set v d) := by
  intro n
  cases key with
  | num j =>
    simp only [Key.set]
    split
    · exact h n
    · by_cases hj : j = k
      · subst hj
        rw [put_put, put_put, h n]
      · rw [put_comm hj, put_comm hj, h n]
  | text t => rw [Key.set, Key.set, put_text, put_text, h n]
  | flag f => rw [Key.set, Key.set, put_flag, put_flag, h n]

theorem SameBut.get_eq {j k : NumKey} {c d : Config} (h : SameBut k c d) (hj : j ≠ k) :
    j.get c = j.get d := by
  have hget (e : Config) : j.get (k.put 0 e) = j.get e := by
    cases k <;> cases j <;> first | rfl | exact absurd rfl hj
  rw [← hget c, h 0, hget d]

/-- A line of another key leaves the field as it is. -/
theorem get_set_other {k : NumKey} {key : Key} (h : key ≠ .num k) (v : Bytes) (c : Config) :
    k.get (key.set v c) = k.get c := by
  cases key with
  | num j => exact (sameBut_set j v c).get_eq fun e => h (e ▸ rfl)
  | text t => cases t <;> cases k <;> rfl
  | flag f => cases f <;> cases k <;> rfl

/-! ## The numbers of a file -/

/-- The last value that the lines give to a key. -/
def lastValue (key : Key) (lines : List Bytes) : Option Bytes :=
  ((lines.filterMap readLine).filter (·.1 = key)).getLast?.map (·.2)

/-- That value as a number, if it is a decimal number that fits `unsigned long`. -/
def number (k : NumKey) (lines : List Bytes) : Option Nat :=
  (lastValue (.num k) lines).bind fun v =>
    if v ≠ [] ∧ v.all isDigit ∧ digitsValue v < 2 ^ 64 then some (digitsValue v) else none

/-- The range of a key. -/
def NumKey.range : NumKey → Nat × Nat
  | .port => (1, 65535)
  | .web_port => (0, 65535)
  | .web_rate_limit_rpm => (0, 100000)
  | .webauthn_session_ttl_hours => (1, 720)
  | .webauthn_idle_timeout_minutes => (1, 1440)
  | .aggregation_window_days => (1, 365)
  | .ip_db_update_interval_days => (1, 365)
  | .max_recv_buffer_bytes => (4096, 16777216)
  | .max_flow_entries_per_key => (100, 1000000)
  | .max_entity_flow_entries_per_key => (100, 1000000)
  | .max_ifaces_per_client => (1, 100000)
  | .max_entity_lines_in_summary => (100, 1000000)
  | .max_snapshot_entries_for_print => (1000, 2000000)
  | .max_iface_len => (8, 256)
  | .max_ip_len => (15, 64)
  | .max_concurrent_connections => (10, 100000)
  | .max_connections_per_ip => (1, 1000)
  | .idle_timeout_seconds => (10, 86400)
  | .max_d_lines_per_second_per_connection => (100, 1000000)

/-- The number moved into the range of the key. -/
def NumKey.clamped (k : NumKey) (n : Nat) : Nat := max k.range.1 (min k.range.2 n)

/-- The keys whose number is cast to `unsigned` before it is compared. -/
def NumKey.narrows : NumKey → Bool
  | .idle_timeout_seconds => true
  | .max_d_lines_per_second_per_connection => true
  | _ => false

theorem convert_eq (k : NumKey) (n : Nat) :
    k.convert n = k.clamped (if k.narrows then n % 2 ^ 32 else n) := by
  cases k <;> simp only [NumKey.convert, NumKey.clamped, NumKey.range, NumKey.narrows,
    Bool.false_eq_true, ↓reduceIte] <;> omega

theorem clamped_mono (k : NumKey) {n m : Nat} (h : n ≤ m) : k.clamped n ≤ k.clamped m := by
  unfold NumKey.clamped
  omega

/-- The largest 32-bit remainder is moved to the maximum, and so is the number. -/
theorem clamped_mod_eq_iff {k : NumKey} (h : k.narrows = true) (n : Nat) :
    k.clamped (n % 2 ^ 32) = k.clamped n ↔ n < 2 ^ 32 ∨ k.range.2 ≤ n % 2 ^ 32 := by
  have hcases : k = .idle_timeout_seconds ∨ k = .max_d_lines_per_second_per_connection := by
    cases k <;> simp [NumKey.narrows] at h ⊢
  rcases hcases with rfl | rfl <;> simp only [NumKey.clamped, NumKey.range] <;> omega

theorem get_configLines {k : NumKey} {lines : List Bytes} {n : Nat} (h : number k lines = some n) :
    k.get (configLines lines).cfg = k.convert n := by
  induction lines using List.reverseRecOn with
  | nil => cases h
  | append_singleton lines line ih =>
    simp only [configLines, List.foldl_append, List.foldl_cons, List.foldl_nil] at ih ⊢
    cases hl : readLine line with
    | none =>
      have hnum : number k (lines ++ [line]) = number k lines := by
        simp [number, lastValue, hl]
      rw [configLine, hl]
      exact ih (hnum ▸ h)
    | some p =>
      obtain ⟨key, v⟩ := p
      by_cases hk : key = .num k
      · -- the last line is the one that counts
        subst hk
        simp only [number, lastValue, List.filterMap_append, List.filterMap_cons, hl,
          List.filterMap_nil, List.filter_append, List.filter_cons, decide_true, if_true,
          List.filter_nil, List.getLast?_append, List.getLast?_singleton, Option.some_or,
          Option.map_some, Option.bind_some] at h
        split at h
        next hv =>
          cases h
          have hd : ∀ c ∈ v, isDigit c = true := List.all_eq_true.mp hv.2.1
          have hread : stoull v = some (digitsValue v) := by
            have hv' := stoull_digits hv.1 hd [] (by simp)
            rwa [List.append_nil, if_neg (Nat.not_le.mpr hv.2.2)] at hv'
          simp only [configLine, hl, hv.1, false_and, if_false, Key.set, hread, get_put]
        · cases h
      · have hnum : number k (lines ++ [line]) = number k lines := by
          simp [number, lastValue, hl, hk]
        rw [configLine, hl, ← ih (hnum ▸ h)]
        dsimp only
        split
        · rfl
        · exact get_set_other hk v _

theorem SameBut.configLine {k : NumKey} {a b : Loaded} (h : SameBut k a.cfg b.cfg) (line : Bytes) :
    SameBut k (configLine a line).cfg (configLine b line).cfg := by
  simp only [ServerFile.configLine]
  cases readLine line with
  | none => exact h
  | some p =>
    dsimp only
    split
    · exact h
    · exact h.set p.1 p.2

theorem SameBut.foldl {k : NumKey} {a b : Loaded} (h : SameBut k a.cfg b.cfg) (lines : List Bytes) :
    SameBut k (lines.foldl ServerFile.configLine a).cfg (lines.foldl ServerFile.configLine b).cfg := by
  induction lines generalizing a b with
  | nil => exact h
  | cons line lines ih => exact ih (h.configLine line)

/-- **Other fields.** A line of a numeric key changes no field but that of its key, wherever it
stands. -/
theorem sameBut_line {k : NumKey} {line v : Bytes} (h : readLine line = some (.num k, v))
    (before after : List Bytes) :
    SameBut k (configLines (before ++ line :: after)).cfg (configLines (before ++ after)).cfg := by
  simp only [configLines, List.foldl_append, List.foldl_cons]
  refine SameBut.foldl ?_ after
  simp only [configLine, h]
  split
  · exact fun n => rfl
  · exact sameBut_set k v _

/-! ## Files that write a number -/

/-- The line that gives a number to a key. -/
def lineOf (k : NumKey) (n : Nat) : Bytes := (Key.num k).name ++ EQUALS :: decimal n

private theorem known_keys : knownServerConfigKeys.all (fun key =>
    knownServerConfigKeys.find? (·.name = key.name) = some key && key.name ≠ [] &&
      key.name.all fun c => c ≠ EQUALS && c ≠ LF && c ≠ HASH && !isBlank c) = true := by
  unfold Key.name
  repeat rw [ascii_ofList]
  decide +kernel

private theorem known_key (k : NumKey) :
    knownServerConfigKeys.find? (·.name = (Key.num k).name) = some (.num k) ∧
      (Key.num k).name ≠ [] ∧
      ∀ c ∈ (Key.num k).name, c ≠ EQUALS ∧ c ≠ LF ∧ c ≠ HASH ∧ isBlank c = false := by
  have hmem : Key.num k ∈ knownServerConfigKeys := by
    cases k <;> simp [knownServerConfigKeys]
  have h := List.all_eq_true.mp known_keys _ hmem
  simpa only [Bool.and_eq_true, decide_eq_true_eq, List.all_eq_true, Bool.not_eq_true',
    and_assoc] using h

theorem readLine_lineOf (k : NumKey) (n : Nat) : readLine (lineOf k n) = some (.num k, decimal n) := by
  obtain ⟨c, name, hname⟩ := List.exists_cons_of_ne_nil (known_key k).2.1
  obtain ⟨d, ds, hdec⟩ := List.exists_cons_of_ne_nil (decimal_ne_nil n)
  have hc := (known_key k).2.2 c (by simp [hname])
  have hdig (b : UInt8) (hb : b ∈ decimal n) : isDigit b = true := isDigit_of_mem_decimal hb
  have hblank {b : UInt8} (hb : isDigit b = true) : isBlank b = false := by
    cases h : isBlank b with
    | false => rfl
    | true =>
      simp only [isBlank, Bool.or_eq_true, decide_eq_true_eq] at h
      rcases h with rfl | rfl <;> exact absurd hb (by decide)
  have htrim : trimRight (fun c => c = CR || c = LF) (lineOf k n) = lineOf k n := by
    refine trimRight_of_last fun hne => ?_
    have hlast : (lineOf k n).getLast hne ∈ decimal n := by
      simp only [lineOf, hdec, List.getLast_append_of_ne_nil _ (List.cons_ne_nil _ _),
        List.getLast_cons_cons]
      exact List.getLast_mem _
    have := hdig _ hlast
    generalize (lineOf k n).getLast hne = b at this
    simp only [Bool.or_eq_false_iff, decide_eq_false_iff_not]
    exact ⟨fun e => absurd this (by rw [e]; decide), fun e => absurd this (by rw [e]; decide)⟩
  have hkey : trimRight isBlank (Key.num k).name = (Key.num k).name :=
    trimRight_of_last fun hne => ((known_key k).2.2 _ (List.getLast_mem hne)).2.2.2
  have hstart : (lineOf k n).dropWhile isBlank = lineOf k n := by
    simp [lineOf, hname, hc.2.2.2]
  have hcut : Lines.cut EQUALS (lineOf k n) = some ((Key.num k).name, decimal n) :=
    Lines.cut_append _ _ _ fun he => ((known_key k).2.2 _ he).1 rfl
  have hval : (decimal n).dropWhile isBlank = decimal n := by
    simp [hdec, hblank (hdig d (by simp [hdec]))]
  have hhead : ¬ (lineOf k n = [] ∨ (lineOf k n).head? = some HASH) := by
    simp [lineOf, hname, hc.2.2.1]
  simp only [readLine, htrim, hstart, if_neg hhead, hcut, hkey, (known_key k).1, Option.map_some, hval,
    if_neg (decimal_ne_nil n)]

theorem number_lineOf (k : NumKey) {n : Nat} (h : n < 2 ^ 64) :
    number k (Lines.parts LF (lineOf k n)) = some n := by
  have hline : LF ∉ lineOf k n := by
    intro hmem
    rcases List.mem_append.mp hmem with hmem | hmem
    · exact ((known_key k).2.2 _ hmem).2.1 rfl
    · rcases List.mem_cons.mp hmem with hmem | hmem
      · exact absurd hmem (by decide)
      · exact not_mem_decimal (by decide) n hmem
  have hdig : (decimal n).all isDigit = true :=
    List.all_eq_true.mpr fun c hc => isDigit_of_mem_decimal hc
  have hparts : Lines.parts LF (lineOf k n) = [lineOf k n] := by
    rw [Lines.parts, Lines.split_of_not_mem _ _ hline]
    rfl
  have hlast : lastValue (.num k) [lineOf k n] = some (decimal n) := by
    simp [lastValue, readLine_lineOf]
  rw [hparts, number, hlast, Option.bind_some, digitsValue_decimal,
    if_pos ⟨decimal_ne_nil n, hdig, h⟩]

/-! ## Ranges -/

/-- The numeric fields are the numbers of the file, moved into the ranges of their keys. -/
def Clamped (file : Bytes) : Prop :=
  ∀ k n, number k (Lines.parts LF file) = some n →
    k.get (loadServerConfig (some (some file))).cfg = k.clamped n

/-- A number that is at least as large gives a field that is at least as large. -/
def Monotone (k : NumKey) : Prop :=
  ∀ f g n m, number k (Lines.parts LF f) = some n → number k (Lines.parts LF g) = some m → n ≤ m →
    k.get (loadServerConfig (some (some f))).cfg ≤ k.get (loadServerConfig (some (some g))).cfg

/-- The cast to `unsigned` does not change which end of the range the number goes to. -/
def CastHarmless (file : Bytes) : Prop :=
  ∀ k n, k.narrows = true → number k (Lines.parts LF file) = some n →
    n < 2 ^ 32 ∨ k.range.2 ≤ n % 2 ^ 32

theorem get_loadServerConfig {k : NumKey} {file : Bytes} {n : Nat}
    (h : number k (Lines.parts LF file) = some n) :
    k.get (loadServerConfig (some (some file))).cfg =
      k.clamped (if k.narrows then n % 2 ^ 32 else n) := by
  rw [← convert_eq]
  exact get_configLines h

theorem clamped_iff_file (file : Bytes) : Clamped file ↔ CastHarmless file := by
  constructor
  · intro h k n hk hn
    have hget := h k n hn
    rw [get_loadServerConfig hn, if_pos hk] at hget
    exact (clamped_mod_eq_iff hk n).mp hget
  · intro h k n hn
    rw [get_loadServerConfig hn]
    split
    next hk => exact (clamped_mod_eq_iff hk n).mpr (h k n hk hn)
    · rfl

theorem monotone_iff (k : NumKey) : Monotone k ↔ k.narrows = false := by
  constructor
  · intro h
    by_contra hk
    rw [Bool.not_eq_false] at hk
    -- the largest 32-bit number and its successor
    have hn : number k (Lines.parts LF (lineOf k (2 ^ 32 - 1))) = some (2 ^ 32 - 1) :=
      number_lineOf k (by decide)
    have hm : number k (Lines.parts LF (lineOf k (2 ^ 32))) = some (2 ^ 32) :=
      number_lineOf k (by decide)
    have hle := h _ _ _ _ hn hm (by decide)
    rw [get_loadServerConfig hn, get_loadServerConfig hm, if_pos hk, if_pos hk] at hle
    have hcases : k = .idle_timeout_seconds ∨ k = .max_d_lines_per_second_per_connection := by
      cases k <;> simp [NumKey.narrows] at hk ⊢
    rcases hcases with rfl | rfl <;> exact absurd hle (by decide)
  · intro hk f g n m hn hm hle
    rw [get_loadServerConfig hn, get_loadServerConfig hm, hk]
    exact clamped_mono k hle

/-- **Numeric keys.** The numbers are moved into the ranges of their keys exactly if the cast of
two of them is harmless, and those two keys are the ones that are not monotone; a line never
changes another field. -/
theorem loaded_iff (file : Bytes) (k : NumKey) :
    (Clamped file ↔ CastHarmless file) ∧ (Monotone k ↔ k.narrows = false) ∧
      ∀ line v before after, readLine line = some (.num k, v) →
        SameBut k (configLines (before ++ line :: after)).cfg
          (configLines (before ++ after)).cfg :=
  ⟨clamped_iff_file file, monotone_iff k, fun _ _ before after h => sameBut_line h before after⟩

/-- A timeout of 2³² seconds becomes the least one. -/
theorem idle_timeout_wraps :
    number .idle_timeout_seconds (Lines.parts LF (ascii "idle_timeout_seconds=4294967296")) =
        some (2 ^ 32) ∧
      NumKey.get (loadServerConfig (some (some (ascii "idle_timeout_seconds=4294967296")))).cfg
        .idle_timeout_seconds = 10 ∧
      ¬ Clamped (ascii "idle_timeout_seconds=4294967296") := by
  have htext : ascii "idle_timeout_seconds=4294967296" = lineOf .idle_timeout_seconds (2 ^ 32) := by
    decide +kernel
  have hn : number .idle_timeout_seconds (Lines.parts LF (lineOf .idle_timeout_seconds (2 ^ 32))) =
      some (2 ^ 32) := number_lineOf _ (by decide)
  have hget := get_loadServerConfig hn
  rw [htext]
  refine ⟨hn, hget.trans (by decide), fun h => ?_⟩
  have hclamped := h _ _ hn
  rw [hget] at hclamped
  exact absurd hclamped (by decide)

end TrafficMonitor.ServerFile
