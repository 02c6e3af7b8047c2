import TrafficMonitor.Protocol
import TrafficMonitor.Stats.TrafficStats

/-!
# The web dashboard (`web_dashboard.cpp`, `web_auth.hpp`, `httplib.h`)

One request through the dispatcher: the pre-routing handler, the routes in the order in
which `registerWebHandlers` registers them, and the error handler. Three of the handlers
capture the traffic statistics: `/api/summary`, `/api/client/history` and
`/api/admin/purge`. The others capture the configuration only, and what they answer is
left open.

A request is what `httplib` has parsed, a response what the handlers have set: how
`httplib` writes it (only its length for `HEAD`, ranges, compression) is left out.
-/

namespace TrafficMonitor.Dashboard

open Bytes Maps Sessions Stats

/-! ## Requests and responses -/

structure Request where
  method : Bytes
  path : Bytes
  remoteAddr : Bytes := []
  authorization : Bytes := []
  cookie : Bytes := []
  cfConnectingIP : Bytes := []
  xForwardedFor : Bytes := []
  /-- The parameters of the query and of a form. -/
  params : List (Bytes × Bytes) := []
  body : Bytes := []
  deriving DecidableEq

/-- `get_param_value` -/
def Request.param (req : Request) (key : Bytes) : Bytes := (req.params.lookup key).getD []

structure Response where
  status : Nat := 200
  headers : List (Bytes × Bytes) := []
  contentType : Bytes := []
  body : Bytes := []
  deriving DecidableEq

def Response.setHeader (res : Response) (key value : String) : Response :=
  { res with headers := res.headers ++ [(ascii key, ascii value)] }

def Response.setContent (res : Response) (body : Bytes) (contentType : String) : Response :=
  { res with body, contentType := ascii contentType }

def Response.error (res : Response) (status : Nat) (text : String) : Response :=
  { res with status }.setContent (ascii "\x7b\"error\":\"" ++ ascii text ++ ascii "\"\x7d\n")
    "application/json"

/-! ## Sessions -/

def cookieFromHeader (cookieHeader name : Bytes) : Bytes :=
  let (cookies, last) := Lines.split 59 cookieHeader
  ((cookies ++ [last]).findSome? fun c =>
    stripPrefix (name ++ ascii "=") (c.dropWhile (· = SP))).getD []

def sessionFromHeaders (authHeader cookieHeader : Bytes) : Bytes :=
  if 7 < authHeader.length ∧ authHeader.take 7 = ascii "Bearer " then authHeader.drop 7
  else cookieFromHeader cookieHeader (ascii "ntm_session")

def sessionFromRequest (req : Request) : Bytes := sessionFromHeaders req.authorization req.cookie

def effectiveClientIP (trustedProxy : Bytes) (req : Request) : Bytes :=
  if trustedProxy = [] ∨ req.remoteAddr ≠ trustedProxy then req.remoteAddr
  else if req.cfConnectingIP ≠ [] then req.cfConnectingIP
  else if req.xForwardedFor ≠ [] then req.xForwardedFor.takeWhile (· ≠ 44)
  else req.remoteAddr

def authExemptPaths : List Bytes :=
  ["/login", "/.well-known/apple-app-site-association", "/api/demo/begin", "/api/session",
    "/api/update/check", "/api/update/download", "/api/update/download_sig",
    "/admin/upgrade/nonce", "/admin/upgrade/push", "/admin/client/nonce",
    "/admin/client/push"].map ascii

def isAuthExemptPath (path : Bytes) : Bool :=
  authExemptPaths.contains path || (ascii "/auth/").isPrefixOf path

def isAdminApiPath (path : Bytes) : Bool := (ascii "/api/admin/").isPrefixOf path

def hasDemoTokenPrefix (token : Bytes) : Bool := (ascii "demo_").isPrefixOf token

/-- The demo tokens with their expiry, and the clock, when they are looked at. -/
structure Moment where
  demoTokens : Map Bytes Int
  now : Int

/-- `checkDemoToken`, with the tokens that it leaves. -/
def checkDemoToken (m : Moment) (token : Bytes) : Bool × Map Bytes Int :=
  if hasDemoTokenPrefix token then
    match m.demoTokens.lookup token with
    | none => (false, m.demoTokens)
    | some expiry =>
      if expiry ≤ m.now then (false, m.demoTokens.erase token) else (true, m.demoTokens)
  else (false, m.demoTokens)

/-! ## Routes -/

inductive Matcher
  | regex (pattern : Bytes)
  /-- The static fragments; the first `params` of them are followed by a parameter. -/
  | pathParams (fragments : List Bytes) (params : Nat)
  deriving DecidableEq

/-- The patterns have no special characters but the dot. -/
def regexMatch (pattern path : Bytes) : Bool :=
  pattern.length = path.length &&
    (pattern.zip path).all fun (p, c) => p = c || (p = 46 && c ≠ LF && c ≠ CR)

/-- The loop of `PathParamsMatcher::match`. -/
def pathParamsMatch (path : Bytes) : List Bytes → Nat → Nat → Bool
  | [], _, pos => path.length ≤ pos
  | f :: fs, params, pos =>
    pos + f.length ≤ path.length && f.isPrefixOf (path.drop pos) &&
      match params with
      | 0 => pathParamsMatch path fs 0 (pos + f.length)
      | params + 1 =>
        let value := (path.drop (pos + f.length)).takeWhile (· ≠ 47)
        pathParamsMatch path fs params (pos + f.length + value.length + 1)

def Matcher.matches (path : Bytes) : Matcher → Bool
  | .regex pattern => regexMatch pattern path
  | .pathParams fragments params => pathParamsMatch path fragments params 0

inductive Verb
  | get
  | post
  | delete
  deriving DecidableEq

/-- What a handler captures. -/
inductive Handler
  | plain
  | summary
  | history
  | purge
  deriving DecidableEq

structure Route where
  verb : Verb
  matcher : Matcher
  handler : Handler := .plain
  /-- Registered under every configuration. -/
  always : Bool := false
  deriving DecidableEq

def Route.of (verb : Verb) (pattern : String) : Route := { verb, matcher := .regex (ascii pattern) }

def Route.under (verb : Verb) (params : Nat) (fragments : List String) : Route :=
  { verb, matcher := .pathParams (fragments.map ascii) params }

/-- The routes in the order of `registerWebHandlers`. -/
def routes : List Route :=
  [{ Route.of .get "/" with always := true },
    { Route.of .get "/login" with always := true },
    .of .get "/admin",
    { Route.of .get "/api/summary" with handler := .summary, always := true },
    { Route.of .get "/api/client/history" with handler := .history, always := true },
    .of .get "/api/admin/monitors",
    { Route.of .post "/api/admin/purge" with handler := .purge },
    .of .post "/api/admin/client/register",
    .of .post "/api/admin/demo",
    .of .get "/api/admin/clients",
    .of .get "/api/admin/client/config",
    .of .get "/api/admin/hidden",
    .of .post "/api/admin/hidden/client",
    .of .post "/api/admin/hidden/interface",
    { Route.of .post "/api/demo/begin" with always := true },
    .of .get "/auth/login/begin",
    .of .post "/auth/login/complete",
    .of .post "/auth/logout",
    .of .get "/.well-known/apple-app-site-association",
    .of .get "/api/admin/register/begin",
    .of .post "/api/admin/register/complete",
    .of .get "/api/admin/passkeys",
    .under .delete 1 ["/api/admin/passkeys/"],
    .of .get "/auth/apple/start",
    .of .post "/auth/apple/callback",
    .of .post "/auth/apple/native",
    .of .get "/.well-known/apple-developer-domain-association.txt",
    { Route.of .get "/api/session" with always := true },
    .of .get "/api/update/check",
    .of .get "/api/update/download",
    .of .get "/api/update/download_sig",
    .of .post "/api/admin/update/scan",
    .under .post 1 ["/api/admin/clients/", "update"],
    .under .get 1 ["/api/admin/clients/", "update/status"],
    .of .get "/admin/upgrade/nonce",
    .of .post "/admin/upgrade/push",
    .of .get "/admin/client/nonce",
    .of .post "/admin/client/push",
    .under .get 1 ["/api/admin/clients/", "logs"],
    .under .post 1 ["/api/admin/clients/", "loglevel"],
    .under .get 2 ["/api/admin/clients/", "logs/"],
    .under .delete 2 ["/api/admin/clients/", "logs/"],
    .under .delete 1 ["/api/admin/clients/", "logs"]]

/-- The handlers that `routing` consults for a method; the server has none for the last
three, and other methods are a bad request. -/
def verbOf (method : Bytes) : Option (Option Verb) :=
  if method = ascii "GET" ∨ method = ascii "HEAD" then some (some .get)
  else if method = ascii "POST" then some (some .post)
  else if method = ascii "DELETE" then some (some .delete)
  else if method = ascii "PUT" ∨ method = ascii "OPTIONS" ∨ method = ascii "PATCH" then some none
  else none

/-! ## The server -/

/-- What a response depends on beside the request and the traffic statistics: the
configuration, the limiters and sessions, the demo tokens when the pre-routing handler and
when the handler of `/api/summary` look at them, the clock that the handlers read, and what
the handlers that are left open answer. -/
structure Server where
  limits : Limits
  hash : ClientId → Fin kShardCount
  trustedProxy : Bytes := []
  registered : Route → Bool
  rateLimiter : Bytes → Bool
  sessionRateLimiter : Bytes → Bool
  isValidSession : Bytes → Bool
  isAdminSession : Bytes → Bool
  demoEnabled : Bool
  routing : Moment
  handling : Moment
  now : Int
  plain : Route → Request → Response → Response
  purge : TrafficStats → Request → Response → Response
  buildDemoSummaryJson : Bytes
  /-- The sections of the summary, from the interfaces on. -/
  sections : Snapshot → Bytes

inductive HandlerResponse
  | handled
  | unhandled
  deriving DecidableEq

def securityHeaders (res : Response) : Response :=
  ((((res.setHeader "X-Content-Type-Options" "nosniff").setHeader
    "Strict-Transport-Security" "max-age=31536000; includeSubDomains").setHeader
    "Referrer-Policy" "no-referrer").setHeader "Permissions-Policy" "()").setHeader
    "Content-Security-Policy" ("default-src 'self'; " ++ "script-src 'self' 'unsafe-inline'; " ++
      "style-src 'self' 'unsafe-inline'")

/-- The pre-routing handler. -/
def preRouting (s : Server) (req : Request) : HandlerResponse × Response :=
  let res : Response := {}
  if isAuthExemptPath req.path then
    if s.rateLimiter (effectiveClientIP s.trustedProxy req) then (.unhandled, securityHeaders res)
    else (.handled, (res.setHeader "Retry-After" "60").error 429 "rate limit exceeded")
  else
    let token := sessionFromRequest req
    if (checkDemoToken s.routing token).1 then
      if isAdminApiPath req.path then
        (.handled, res.error 403 "admin access not available in demo mode")
      else (.unhandled, res)
    else if token = [] ∨ !s.isValidSession token then
      if (ascii "/api").isPrefixOf req.path ∨ req.method ≠ ascii "GET" then
        (.handled, res.error 401 "authentication required")
      else (.handled, { res with status := 302 }.setHeader "Location" "/login")
    else if req.path ≠ ascii "/api/admin/clients" ∧ !hasSub (ascii "/update/status") req.path ∧
        !s.sessionRateLimiter (token.take 32) then
      (.handled, (res.setHeader "Retry-After" "60").error 429 "session rate limit exceeded")
    else if isAdminApiPath req.path ∧ !s.isAdminSession token then
      (.handled, res.error 403 "admin authentication required")
    else (.unhandled, securityHeaders res)

/-! ## The handlers -/

def kApiVersion : Nat := 14
def kServerVersion : Bytes := ascii "3.0.0.0"
def kWireProtoVersion : Nat := 4

/-- `std::to_string` of a signed number. -/
def decimalInt (z : Int) : Bytes :=
  if z < 0 then ascii "-" ++ decimal z.natAbs else decimal z.natAbs

/-- `buildSummaryJson` -/
def buildSummaryJson (s : Server) (stats : TrafficStats) : Bytes :=
  ascii "\x7b\n  \"api_version\": " ++ decimal kApiVersion ++
    ascii ",\n  \"server_version\": \"" ++ kServerVersion ++ ascii "\"" ++
    ascii ",\n  \"server_wire_proto_version\": " ++ decimal kWireProtoVersion ++
    ascii ",\n  \"demo_server_enabled\": " ++ ascii (if s.demoEnabled then "true" else "false") ++
    ascii ",\n  \"window_start\": " ++ decimalInt (stats.windowStart s.now) ++
    (ascii ",\n  \"generated_at\": " ++ decimalInt s.now ++ s.sections stats.snapshot)

def summaryHandler (s : Server) (stats : TrafficStats) (req : Request) (res : Response) :
    Response :=
  let res := res.setHeader "Cache-Control" "no-store"
  if (checkDemoToken s.handling (sessionFromRequest req)).1 then
    res.setContent s.buildDemoSummaryJson "application/json"
  else res.setContent (buildSummaryJson s stats) "application/json"

/-- `std::stoi`; `none` where it throws. -/
def stoi (t : Bytes) : Option Int :=
  let t := t.dropWhile isSpace
  let neg := t.head? = some 45
  let ds := (if t.head? = some 45 ∨ t.head? = some 43 then t.tail else t).takeWhile isDigit
  let v : Int := if neg then -digitsValue ds else digitsValue ds
  if ds = [] ∨ v < -2 ^ 31 ∨ 2 ^ 31 ≤ v then none else some v

def minutesOf (text : Bytes) : Int :=
  let minutes := if text = [] then 0 else (stoi text).getD 0
  if minutes < 1 ∨ kMinuteSlots < minutes then 0 else minutes

def isClientIdText (t : Bytes) : Bool :=
  t.length = 64 && t.all fun c => isHexDigit c || (65 ≤ c && c ≤ 70)

def HistoryBucket.json (b : HistoryBucket) : Bytes :=
  ascii "\x7b\"t\":" ++ decimal b.t ++ ascii ",\"in_bytes\":" ++ decimal b.inBytes ++
    ascii ",\"out_bytes\":" ++ decimal b.outBytes ++ ascii ",\"in_packets\":" ++
    decimal b.inPackets ++ ascii ",\"out_packets\":" ++ decimal b.outPackets ++ ascii "\x7d"

def historyJson (snap : ClientHistorySnapshot) : Bytes :=
  ascii "\x7b\"client_id\":\"" ++ snap.clientId ++ ascii "\",\"bucket_seconds\":" ++
    (decimal snap.bucketSeconds ++ ascii ",\"window_days\":" ++ decimal snap.windowDays ++
    ascii ",\"buckets\":[" ++
    ((ascii ",").intercalate (snap.buckets.map HistoryBucket.json) ++ ascii "]\x7d"))

def historyHandler (s : Server) (stats : TrafficStats) (req : Request) (res : Response) :
    Response :=
  let res := res.setHeader "Cache-Control" "no-store"
  let clientId := req.param (ascii "client_id")
  if isClientIdText clientId then
    res.setContent (historyJson ((stats.shards (s.hash clientId)).snapshotHistory s.limits s.now
      clientId (minutesOf (req.param (ascii "minutes"))))) "application/json"
  else
    { res with status := 400 }.setContent
      (ascii "\x7b\"error\":\"client_id must be 64 hex characters\"\x7d") "application/json"

def Server.handle (s : Server) (stats : TrafficStats) (r : Route) (req : Request)
    (res : Response) : Response :=
  match r.handler with
  | .plain => s.plain r req res
  | .summary => summaryHandler s stats req res
  | .history => historyHandler s stats req res
  | .purge => s.purge stats req res

/-! ## Dispatch -/

def findRoute (s : Server) (verb : Verb) (path : Bytes) : Option Route :=
  routes.find? fun r => r.verb = verb && r.matcher.matches path && (r.always || s.registered r)

/-- `dispatch_request`, and what `process_request` does when nothing was dispatched. -/
def dispatch (s : Server) (stats : TrafficStats) (req : Request) (res : Response) : Response :=
  match verbOf req.method with
  | none => { res with status := 400 }
  | some none => { res with status := 404 }
  | some (some verb) =>
    match findRoute s verb req.path with
    | some r => s.handle stats r req res
    | none => { res with status := 404 }

def errorHandler (res : Response) : Response :=
  if res.status = 404 then
    res.setContent (ascii "\x7b\"error\":\"not found\"\x7d\n") "application/json"
  else res

/-- `process_request` -/
def respond (s : Server) (stats : TrafficStats) (req : Request) : Response :=
  match preRouting s req with
  | (.handled, res) => errorHandler res
  | (.unhandled, res) => errorHandler (dispatch s stats req res)

end TrafficMonitor.Dashboard
