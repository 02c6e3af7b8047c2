import TrafficMonitor.Basic.Query
import TrafficMonitor.Server.AllowedKeys
import TrafficMonitor.Server.UpdateDir

/-!
# The endpoints of the updates

`GET /api/update/check`, `/api/update/download` and `/api/update/download_sig`
(`web_dashboard.cpp`): a client shows the key under which it is registered, and is told of the
highest version for its platform and given its files. `semverCmp` throws where a component of a
version does not fit an `int`.

Proved here:

* `hexToRaw32_hex`: a key is read as its bytes;
* `latest_of_nodup`: of a manifest with one entry for each platform, its entry;
* `respond_update`: a request for one of the three paths reaches its handler.
-/

namespace TrafficMonitor.UpdateEndpoints

open Bytes Dashboard LogEndpoints AllowedKeys Artifacts

/-! ## The code -/

/-- The loop of `hexToRaw32`. -/
def rawBytes : Bytes → Option Bytes
  | hi :: lo :: s => do
    let hi ← Query.hexDigitValue hi
    let lo ← Query.hexDigitValue lo
    let raw ← rawBytes s
    some (UInt8.ofNat (16 * hi + lo) :: raw)
  | _ => some []

def hexToRaw32 (hex : Bytes) : Bytes := if hex.length ≠ 64 then [] else (rawBytes hex).getD []

/-- The loop for the highest version of a platform; nothing where it throws. -/
def latest (platform : Bytes) (manifest : List UpdateManifestEntry) :
    Option (Option UpdateManifestEntry) :=
  manifest.foldlM (fun best m =>
    if m.platform ≠ platform then some best
    else match best with
      | none => some (some m)
      | some b => (semverCmp m.version b.version).map fun r => if 0 < r then some m else some b) none

/-- The response when a handler throws; the text of the exception is left out. -/
def thrown (res : Response) : Response := { res with status := 500 }

/-- The checks of the key that the three handlers begin with. -/
def refused (store : AllowedClientsStore) (req : Request) (res : Response) : Option Response :=
  let pubkeyHex := req.param (ascii "pubkey")
  if pubkeyHex.length ≠ 64 then some (res.error 400 "pubkey must be 64 hex characters")
  else
    let rawKey := hexToRaw32 pubkeyHex
    if rawKey = [] then some (res.error 400 "pubkey must be valid hex")
    else if rawKey ∉ store.keys then some (res.error 401 "unauthorized")
    else none

def notAvailable : Bytes := ascii "\x7b\"update_available\":false\x7d\n"

def available (best : UpdateManifestEntry) : Bytes :=
  ascii "\x7b\"update_available\":true,\"version\":\"" ++ jsonEsc best.version ++
    ascii "\",\"sha256\":\"" ++ jsonEsc best.sha256hex ++ ascii "\",\"filename\":\"" ++
    jsonEsc best.filename ++ ascii "\",\"sig_size\":" ++ decimal best.sigSize ++ ascii "\x7d\n"

section Handlers

variable (store : AllowedClientsStore) (manifest : List UpdateManifestEntry)

/-- The handler of `/api/update/check`. -/
def updateCheck (req : Request) (res : Response) : Response :=
  let res := res.setHeader "Cache-Control" "no-store"
  match refused store req res with
  | some res => res
  | none =>
    let version := req.param (ascii "version")
    match latest (req.param (ascii "platform")) manifest with
    | none => thrown res
    | some none => res.setContent notAvailable kJson
    | some (some best) =>
      if version = [] then res.setContent (available best) kJson
      else match semverCmp best.version version with
        | none => thrown res
        | some r =>
          if r ≤ 0 then res.setContent notAvailable kJson
          else res.setContent (available best) kJson

/-- The handlers of the downloads: the file of the highest version, or the one beside it. `file`
is what can be read under a name of the update directory. -/
def serveFile (suffix : Bytes) (missing : String) (file : Bytes → Option Bytes) (req : Request)
    (res : Response) : Response :=
  match refused store req res with
  | some res => res
  | none =>
    match latest (req.param (ascii "platform")) manifest with
    | none => thrown res
    | some none => res.error 404 "no binary for platform"
    | some (some best) =>
      match file (best.filename ++ suffix) with
      | none => res.error 404 missing
      | some body =>
        { res with headers := res.headers ++ [(ascii "Content-Disposition",
            ascii "attachment; filename=\"" ++ best.filename ++ suffix ++ ascii "\"")] }.setContent
          body "application/octet-stream"

def updateDownload : (Bytes → Option Bytes) → Request → Response → Response :=
  serveFile store manifest [] "binary not accessible"

def updateDownloadSig : (Bytes → Option Bytes) → Request → Response → Response :=
  serveFile store manifest SIG "signature file not accessible"

/-- The regular files of the update directory. -/
def fileOf (d : Directory) (name : Bytes) : Option Bytes :=
  match d name with
  | some (.file b) => some b
  | _ => none

/-- The server with these handlers. -/
def serving (s : Server) (d : Directory) : Server :=
  { s with
    plain := fun r req res =>
      if r = Route.of .get "/api/update/check" then updateCheck store manifest req res
      else if r = Route.of .get "/api/update/download" then
        updateDownload store manifest (fileOf d) req res
      else if r = Route.of .get "/api/update/download_sig" then
        updateDownloadSig store manifest (fileOf d) req res
      else s.plain r req res }

end Handlers

/-- `decode_path_component`, which leaves a text without a percent sign alone. -/
structure PathDecoder where
  decode : Bytes → Bytes
  decode_plain : ∀ s, Query.PERCENT ∉ s → decode s = s

/-- `parse_request_line`, of a `GET` for this target. -/
def requestFor (dec : PathDecoder) (remoteAddr target : Bytes) : Request :=
  let target := target.takeWhile (· ≠ 35)
  let (path, query) := (Lines.cut 63 target).getD (target, [])
  { method := ascii "GET", path := dec.decode path, remoteAddr, params := Query.parse query }

/-! ## Keys -/

theorem hexDigitValue_hexDigit : ∀ n < 16, Query.hexDigitValue (hexDigit n) = some n := by decide

theorem rawBytes_hex (s : Bytes) : rawBytes (hex s) = some s := by
  induction s with
  | nil => rfl
  | cons c s ih =>
    have e : hex (c :: s) = hexDigit (c.toNat / 16) :: hexDigit (c.toNat % 16) :: hex s := rfl
    have hc := c.toNat_lt
    rw [e, rawBytes, hexDigitValue_hexDigit _ (by omega), hexDigitValue_hexDigit _ (by omega), ih]
    have hsum : 16 * (c.toNat / 16) + c.toNat % 16 = c.toNat := Nat.div_add_mod _ _
    simp only [Option.bind_eq_bind, Option.bind_some, hsum, UInt8.ofNat_toNat]

theorem hexToRaw32_hex {raw : Bytes} (h : raw.length = 32) : hexToRaw32 (hex raw) = raw := by
  have hlen : (hex raw).length = 64 := by rw [length_hex, h]
  rw [hexToRaw32, if_neg (not_not.mpr hlen), rawBytes_hex]
  rfl

/-- A key is refused exactly if it is not registered. -/
theorem refused_iff {store : AllowedClientsStore} {req : Request} {raw : Bytes}
    (hreq : req.param (ascii "pubkey") = hex raw) (h : raw.length = 32) (res : Response) :
    refused store req res =
      if raw ∈ store.keys then none else some (res.error 401 "unauthorized") := by
  have hlen : (hex raw).length = 64 := by rw [length_hex, h]
  have hne : raw ≠ [] := by
    rintro rfl
    cases h
  simp only [refused, hreq, hlen, hexToRaw32_hex h, hne, ne_eq, not_true_eq_false, if_false]
  split <;> simp_all

/-! ## The highest version -/

section Latest

variable {platform : Bytes} {m : List UpdateManifestEntry}

theorem foldlM_other (f : Option UpdateManifestEntry → UpdateManifestEntry →
      Option (Option UpdateManifestEntry)) (hf : ∀ best x, x.platform ≠ platform → f best x = some best)
    (h : ∀ x ∈ m, x.platform ≠ platform) (best : Option UpdateManifestEntry) :
    m.foldlM f best = some best := by
  induction m with
  | nil => rfl
  | cons x m ih =>
    obtain ⟨hx, h⟩ := List.forall_mem_cons.mp h
    rw [List.foldlM_cons, hf best x hx]
    exact ih h

/-- **One entry for each platform**: no two of them are compared. -/
theorem latest_of_nodup (h : (m.map (·.platform)).Nodup) :
    latest platform m = some (m.find? (·.platform = platform)) := by
  unfold latest
  generalize hf : (fun (best : Option UpdateManifestEntry) (x : UpdateManifestEntry) => _) = f
  have hother : ∀ best x, x.platform ≠ platform → f best x = some best := by
    intro best x hx
    simp [← hf, hx]
  have hfirst : ∀ x, x.platform = platform → f none x = some (some x) := by
    intro x hx
    simp [← hf, hx]
  clear hf
  induction m with
  | nil => rfl
  | cons x m ih =>
    rw [List.map_cons, List.nodup_cons] at h
    by_cases hx : x.platform = platform
    · have hrest : ∀ y ∈ m, y.platform ≠ platform := fun y hy e =>
        h.1 (List.mem_map.mpr ⟨y, hy, e.trans hx.symm⟩)
      rw [List.foldlM_cons, hfirst x hx, List.find?_cons_of_pos (by simp [hx])]
      exact foldlM_other f hother hrest (some x)
    · rw [List.foldlM_cons, hother none x hx, List.find?_cons_of_neg (by simp [hx])]
      exact ih h.2

end Latest

/-! ## The routes -/

def updatePaths : List String :=
  ["/api/update/check", "/api/update/download", "/api/update/download_sig"]

theorem find?_and {α : Type} {p q : α → Bool} {l : List α} {a : α} (h : l.find? p = some a)
    (hq : q a = true) : (l.find? fun x => p x && q x) = some a := by
  rw [List.find?_eq_some_iff_append] at h ⊢
  obtain ⟨hp, front, back, rfl, hf⟩ := h
  refine ⟨by simp [hp, hq], front, back, rfl, fun x hx => ?_⟩
  have := hf x hx
  simp only [Bool.not_eq_true'] at this
  simp [this]

theorem findRoute_update {s : Server} {path : String} (hpath : path ∈ updatePaths)
    (hreg : s.registered (Route.of .get path) = true) :
    findRoute s .get (ascii path) = some (Route.of .get path) := by
  have hfirst : (routes.find? fun r => decide (r.verb = .get) && r.matcher.matches (ascii path)) =
      some (Route.of .get path) := by
    simp only [updatePaths, List.mem_cons, List.not_mem_nil, or_false] at hpath
    rcases hpath with rfl | rfl | rfl <;> rfl
  exact find?_and hfirst (by simp [hreg])

/-- **The handler of an update path** is reached without a session, if the rate limiter lets the
address pass. -/
theorem respond_update {s : Server} {path : String} (hpath : path ∈ updatePaths)
    (hreg : s.registered (Route.of .get path) = true) {req : Request}
    (hmethod : req.method = ascii "GET") (hreq : req.path = ascii path)
    (hrate : s.rateLimiter (effectiveClientIP s.trustedProxy req) = true) (st : Stats.TrafficStats) :
    respond s st req = errorHandler (s.plain (Route.of .get path) req (securityHeaders {})) := by
  have hexempt : isAuthExemptPath req.path = true := by
    rw [hreq]
    simp only [updatePaths, List.mem_cons, List.not_mem_nil, or_false] at hpath
    rcases hpath with rfl | rfl | rfl <;> rfl
  have hverb : verbOf req.method = some (some .get) := by
    rw [hmethod]
    rfl
  have hplain : (Route.of .get path).handler = .plain := rfl
  simp only [respond, preRouting, hexempt, hrate, if_true, dispatch, hverb]
  rw [hreq, findRoute_update hpath hreg]
  simp only [Server.handle, hplain]

end TrafficMonitor.UpdateEndpoints
