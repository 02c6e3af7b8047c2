import TrafficMonitor.Basic.Runs
import TrafficMonitor.Server.Jwt

/-!
# Verifying identity tokens of Apple

`SiwaValidator`: the pending web sign-ins, the cache of Apple's keys and the replay memory of
native sign-ins. A token is checked against the cached key that its header names; if there is
none, the cache is emptied and the keys are fetched once more. The signature check and SHA-256
are parameters, and what the clocks show and the fetches answer is an argument of each call.

Proved here, for every sequence of calls from any state:

* `cache_step`: the keys and their expiry after a call;
* `robust_iff`: when a sequence of calls keeps the cached keys through its failed fetches.
-/

namespace TrafficMonitor.Siwa

open Bytes Runs
open Lines (cut_length)

structure SiwaJwksKey where
  kid : Bytes
  n : Bytes
  e : Bytes
  deriving DecidableEq, Repr

structure PendingState where
  nonceRaw : Bytes
  expiry : Int
  deriving DecidableEq, Repr

/-- `jwksExpiry` is on the steady clock, in nanoseconds; the replay memory is in seconds. -/
structure SiwaValidator where
  pending : Bytes → Option PendingState := fun _ => none
  jwksKeys : List SiwaJwksKey := []
  jwksExpiry : Int := 0
  nativeReplayCache : Bytes → Option Int := fun _ => none

/-- Whether RSA with this modulus and exponent verifies the signature of a text, and SHA-256
in hexadecimal digits. -/
structure Primitives where
  rsa : Bytes → Bytes → Bytes → Bytes → Bool
  sha256Hex : Bytes → Bytes

/-! ## Keys -/

/-- The key of the text of one object. -/
def readKey (obj : Bytes) : SiwaJwksKey where
  kid := jwtGetStr obj (ascii "kid")
  n := jwtGetStr obj (ascii "n")
  e := jwtGetStr obj (ascii "e")

/-- The loop of `parseJwksJson`, behind the opening bracket. -/
def readKeys : Bytes → List SiwaJwksKey
  | [] => []
  | c :: s =>
    if c = SP || c = LF || c = CR || c = COMMA then readKeys s
    else if c = RBRACKET then []
    else if c ≠ LBRACE then readKeys s
    else match h : Lines.cut RBRACE s with
      | none => []
      | some (inner, rest) =>
        have : rest.length < s.length := cut_length h
        let k := readKey (c :: inner ++ [RBRACE])
        if k.n ≠ [] && k.e ≠ [] then k :: readKeys rest else readKeys rest
termination_by s => s.length

def parseJwksJson (json : Bytes) : List SiwaJwksKey :=
  match findAfter (ascii "\"keys\"") json with
  | none => []
  | some s => match Lines.cut LBRACKET s with
    | none => []
    | some (_, s) => readKeys s

/-- What `curl_easy_init` and `curl_easy_perform` answer to one fetch. -/
inductive Fetch
  | noHandle
  | failed
  | response (httpCode : Int) (body : Bytes)
  deriving DecidableEq, Repr

/-- One call of `ensureJwks`: the clock at its test, the answer to its fetch, and the clock
after that. -/
structure JwksIo where
  now : Int
  fetch : Fetch
  after : Int
  deriving DecidableEq, Repr

def ensureJwks (v : SiwaValidator) (io : JwksIo) : SiwaValidator × Bool :=
  if !v.jwksKeys.isEmpty && io.now < v.jwksExpiry then (v, true)
  else match io.fetch with
    | .noHandle => (v, false)
    | .failed => (v, false)
    | .response httpCode body =>
      if httpCode ≠ 200 then (v, false)
      else
        let parsed := parseJwksJson body
        if parsed.isEmpty then (v, false)
        else ({ v with jwksKeys := parsed, jwksExpiry := io.after + WebAuthn.hours 1 }, true)

def rsaVerifyRS256 (cr : Primitives) (key : SiwaJwksKey) (signingInput sigB64 : Bytes) : Bool :=
  let nBytes := siwaBase64urlDecode key.n
  let eBytes := siwaBase64urlDecode key.e
  let sigBytes := siwaBase64urlDecode sigB64
  if nBytes.isEmpty || eBytes.isEmpty || sigBytes.isEmpty then false
  else cr.rsa nBytes eBytes signingInput sigBytes

/-! ## Claims -/

/-- An integer as a `long long` holds it. A signed overflow wraps around on this platform. -/
def llong (n : Int) : Int := n.bmod (2 ^ 64)

def readLong (s : Bytes) : Int :=
  (s.takeWhile isDigit).foldl (fun v c => llong (v * 10 + (c.toNat - 48))) 0

def jwtGetLong (json key : Bytes) : Int :=
  match findAfter (QUOTE :: key ++ [QUOTE, COLON]) json with
  | none => 0
  | some rest => match rest.dropWhile fun b => b = SP with
    | [] => 0
    | b :: s => if b = 45 then llong (-readLong s) else readLong (b :: s)

def kClockSkewSec : Int := 30

/-- The error text; it is empty if the claims are right. -/
def validateAppleClaims (payloadJson : Bytes) (allowedAuds : List Bytes)
    (expectedNonceHash : Bytes) (nowUtcSec : Int) : Bytes :=
  if jwtGetStr payloadJson (ascii "iss") ≠ ascii "https://appleid.apple.com" then
    ascii "iss mismatch"
  else
    let aud := jwtGetStr payloadJson (ascii "aud")
    if aud ∉ allowedAuds then ascii "aud not in allowlist: " ++ aud
    else
      let exp := jwtGetLong payloadJson (ascii "exp")
      if exp = 0 || nowUtcSec > llong (exp + kClockSkewSec) then ascii "token expired"
      else if expectedNonceHash ≠ [] &&
          jwtGetStr payloadJson (ascii "nonce") ≠ expectedNonceHash then ascii "nonce mismatch"
      else []

/-! ## Tokens -/

structure VerifyResult where
  ok : Bool := false
  sub : Bytes := []
  email : Bytes := []
  error : Bytes := []
  deriving DecidableEq, Repr

/-- The two calls of `ensureJwks` that a verification may make, and the time of day that it
compares the expiry with. -/
structure VerifyIo where
  first : JwksIo
  second : JwksIo
  now : Int
  deriving DecidableEq, Repr

/-- Steps 3 and 4 of `verifyJwt`: the key, or the error text. -/
def matchKey (v : SiwaValidator) (io : VerifyIo) (kid : Bytes) :
    SiwaValidator × Except Bytes SiwaJwksKey :=
  match ensureJwks v io.first with
  | (v, false) => (v, .error (ascii "JWKS unavailable"))
  | (v, true) => match v.jwksKeys.find? (·.kid = kid) with
    | some k => (v, .ok k)
    | none => match ensureJwks { v with jwksKeys := [] } io.second with
      | (v, false) => (v, .error (ascii "JWKS refresh failed"))
      | (v, true) => match v.jwksKeys.find? (·.kid = kid) with
        | some k => (v, .ok k)
        | none => (v, .error (ascii "no JWKS key matching kid=" ++ kid))

/-- Steps 5 to 7 of `verifyJwt`. -/
def checkToken (cr : Primitives) (now : Int) (parts : JwtParts) (allowedAuds : List Bytes)
    (expectedNonceHash : Bytes) (key : SiwaJwksKey) : VerifyResult :=
  if !rsaVerifyRS256 cr key parts.signingInput parts.sigB64 then
    { error := ascii "signature verification failed" }
  else
    let claimErr := validateAppleClaims parts.payloadJson allowedAuds expectedNonceHash now
    if claimErr ≠ [] then { error := claimErr }
    else
      let sub := jwtGetStr parts.payloadJson (ascii "sub")
      let email := jwtGetStr parts.payloadJson (ascii "email")
      if sub = [] then { error := ascii "missing sub claim" } else ⟨true, sub, email, []⟩

def verifyJwt (cr : Primitives) (v : SiwaValidator) (io : VerifyIo) (idToken : Bytes)
    (allowedAuds : List Bytes) (expectedNonceHash : Bytes) : SiwaValidator × VerifyResult :=
  match parseJwt idToken with
  | none => (v, { error := ascii "malformed JWT" })
  | some parts =>
    let kid := jwtGetStr parts.headerJson (ascii "kid")
    let alg := jwtGetStr parts.headerJson (ascii "alg")
    if alg ≠ ascii "RS256" then (v, { error := ascii "unsupported alg: " ++ alg })
    else match matchKey v io kid with
      | (v, .error text) => (v, { error := text })
      | (v, .ok key) => (v, checkToken cr io.now parts allowedAuds expectedNonceHash key)

/-! ## Sign-ins -/

def sweepPending (now : Int) (v : SiwaValidator) : SiwaValidator :=
  { v with pending := fun state => (v.pending state).filter fun p => !(now > p.expiry) }

/-- The state and the nonce are drawn by the caller. -/
def beginFlow (v : SiwaValidator) (sweep now : Int) (state nonceRaw : Bytes) : SiwaValidator :=
  let v := sweepPending sweep v
  let expiry := now + WebAuthn.minutes 10
  { v with pending := Function.update v.pending state (some ⟨nonceRaw, expiry⟩) }

def verifyCallback (cr : Primitives) (v : SiwaValidator) (sweep : Int) (io : VerifyIo)
    (state idToken : Bytes) (allowedAuds : List Bytes) : SiwaValidator × VerifyResult :=
  let v := sweepPending sweep v
  match v.pending state with
  | none => (v, { error := ascii "unknown or expired state" })
  | some p =>
    verifyJwt cr { v with pending := Function.update v.pending state none } io idToken allowedAuds
      (cr.sha256Hex p.nonceRaw)

/-- Whether `verifyNative` consults its replay memory about the token. -/
def JwtParts.recorded (parts : JwtParts) : Bool :=
  jwtGetStr parts.payloadJson (ascii "sub") ≠ [] && jwtGetLong parts.payloadJson (ascii "exp") > 0

/-- `sub + ":" + std::to_string(exp)`, for a positive `exp`. -/
def replayKey (sub : Bytes) (exp : Int) : Bytes := sub ++ COLON :: decimal exp.toNat

def pruneReplays (now : Int) (v : SiwaValidator) : SiwaValidator :=
  { v with nativeReplayCache := fun k =>
      (v.nativeReplayCache k).filter fun exp => !(now > llong (exp + 60)) }

def remember (sub : Bytes) (exp : Int) (v : SiwaValidator) : SiwaValidator :=
  { v with nativeReplayCache :=
      Function.update v.nativeReplayCache (replayKey sub exp) (some exp) }

/-- `prune` is the time of day at the pruning. -/
def verifyNative (cr : Primitives) (v : SiwaValidator) (prune : Int) (io : VerifyIo)
    (idToken : Bytes) (allowedAuds : List Bytes) : SiwaValidator × VerifyResult :=
  match parseJwt idToken with
  | none => (v, { error := ascii "malformed JWT" })
  | some parts =>
    let sub := jwtGetStr parts.payloadJson (ascii "sub")
    let exp := jwtGetLong parts.payloadJson (ascii "exp")
    let v := if parts.recorded then pruneReplays prune v else v
    if parts.recorded && (v.nativeReplayCache (replayKey sub exp)).isSome then
      (v, { error := ascii "token replay detected" })
    else
      let (v, result) := verifyJwt cr v io idToken allowedAuds []
      (if result.ok && parts.recorded then remember sub exp v else v, result)

inductive SignIn
  | beginFlow (sweep now : Int) (state nonceRaw : Bytes)
  | verifyCallback (sweep : Int) (io : VerifyIo) (state idToken : Bytes) (allowedAuds : List Bytes)
  | verifyNative (prune : Int) (io : VerifyIo) (idToken : Bytes) (allowedAuds : List Bytes)

/-- The state after a call; all calls are enabled. -/
def signInStep (cr : Primitives) (v : SiwaValidator) : SignIn → Option SiwaValidator
  | .beginFlow sweep now state nonceRaw => some (beginFlow v sweep now state nonceRaw)
  | .verifyCallback sweep io state idToken allowedAuds =>
    some (verifyCallback cr v sweep io state idToken allowedAuds).1
  | .verifyNative prune io idToken allowedAuds =>
    some (verifyNative cr v prune io idToken allowedAuds).1

/-! ## Lookups and their fetches -/

/-- The keys that an answer delivers; it is unusable if it delivers none. -/
def Fetch.keys : Fetch → List SiwaJwksKey
  | .noHandle => []
  | .failed => []
  | .response httpCode body => if httpCode = 200 then parseJwksJson body else []

namespace SiwaValidator

def cache (v : SiwaValidator) : List SiwaJwksKey × Int := (v.jwksKeys, v.jwksExpiry)

def fresh (v : SiwaValidator) (now : Int) : Bool := !v.jwksKeys.isEmpty && now < v.jwksExpiry

/-- The keys that a lookup searches first: the cached ones while they are fresh, otherwise
those of a fetch. -/
def known (v : SiwaValidator) (io : VerifyIo) : List SiwaJwksKey :=
  if v.fresh io.first.now then v.jwksKeys else io.first.fetch.keys

/-- There are such keys, and none of them has this id. -/
def Misses (v : SiwaValidator) (io : VerifyIo) (kid : Bytes) : Prop :=
  v.known io ≠ [] ∧ ∀ k ∈ v.known io, k.kid ≠ kid

instance (v : SiwaValidator) (io : VerifyIo) (kid : Bytes) : Decidable (v.Misses io kid) :=
  inferInstanceAs (Decidable (_ ∧ _))

/-- The fetches of a lookup. -/
def fetches (v : SiwaValidator) (io : VerifyIo) (kid : Bytes) : List JwksIo :=
  (if v.fresh io.first.now then [] else [io.first]) ++ if v.Misses io kid then [io.second] else []

end SiwaValidator

/-- The key id that a token asks for, if it is well formed and names the algorithm. -/
def askedKid (idToken : Bytes) : Option Bytes :=
  (parseJwt idToken).bind fun parts =>
    if jwtGetStr parts.headerJson (ascii "alg") = ascii "RS256" then
      some (jwtGetStr parts.headerJson (ascii "kid"))
    else none

/-- The replay memory refuses the token. -/
def isReplay (v : SiwaValidator) (prune : Int) (idToken : Bytes) : Bool :=
  (parseJwt idToken).any fun parts =>
    let sub := jwtGetStr parts.payloadJson (ascii "sub")
    let exp := jwtGetLong parts.payloadJson (ascii "exp")
    parts.recorded && ((pruneReplays prune v).nativeReplayCache (replayKey sub exp)).isSome

/-- The lookup of a key that the call makes, and the key id of it. -/
def SignIn.lookup (v : SiwaValidator) : SignIn → Option (VerifyIo × Bytes)
  | .beginFlow .. => none
  | .verifyCallback sweep io state idToken _ =>
    if ((sweepPending sweep v).pending state).isSome then (askedKid idToken).map (io, ·) else none
  | .verifyNative prune io idToken _ =>
    if isReplay v prune idToken then none else (askedKid idToken).map (io, ·)

def SignIn.fetches (v : SiwaValidator) (c : SignIn) : List JwksIo :=
  match c.lookup v with
  | none => []
  | some (io, kid) => v.fetches io kid

/-- A usable fetch replaces the keys, for an hour. Any other leaves them alone. -/
def refreshed (cache : List SiwaJwksKey × Int) (io : JwksIo) : List SiwaJwksKey × Int :=
  if io.fetch.keys = [] then cache else (io.fetch.keys, io.after + WebAuthn.hours 1)

/-- The call leaves the keys of its last usable fetch, or else those that it found; and if no
fetch is usable, then what was accepted before it is accepted after it. -/
structure Robust (cr : Primitives) (v : SiwaValidator) (c : SignIn) : Prop where
  cache : ∀ v', signInStep cr v c = some v' → v'.cache = (c.fetches v).foldl refreshed v.cache
  accepted : ∀ v', signInStep cr v c = some v' → (∀ io ∈ c.fetches v, io.fetch.keys = []) →
    ∀ io idToken allowedAuds nonceHash,
      (verifyJwt cr v io idToken allowedAuds nonceHash).2.ok = true →
      (verifyJwt cr v' io idToken allowedAuds nonceHash).2.ok = true

/-- If the lookup misses the key, then the second fetch is usable. -/
def Refills (v : SiwaValidator) (c : SignIn) : Prop :=
  ∀ io kid, c.lookup v = some (io, kid) → v.Misses io kid → io.second.fetch.keys ≠ []

/-! ## The cache after a call -/

theorem ensureJwks_eq (v : SiwaValidator) (io : JwksIo) : ensureJwks v io =
    if v.fresh io.now then (v, true)
    else if io.fetch.keys = [] then (v, false)
    else ({ v with jwksKeys := io.fetch.keys, jwksExpiry := io.after + WebAuthn.hours 1 }, true) := by
  rw [ensureJwks, ← SiwaValidator.fresh]
  congr 1
  cases io.fetch with
  | noHandle => rfl
  | failed => rfl
  | response httpCode body => by_cases h : httpCode = 200 <;> simp [Fetch.keys, h]

namespace SiwaValidator

/-- The state in which a lookup searches for the key. -/
def loaded (v : SiwaValidator) (io : VerifyIo) : SiwaValidator :=
  { v with
    jwksKeys := v.known io
    jwksExpiry := if v.fresh io.first.now then v.jwksExpiry else io.first.after + WebAuthn.hours 1 }

theorem keys_of_fresh {v : SiwaValidator} {now : Int} (h : v.fresh now = true) : v.jwksKeys ≠ [] := by
  rintro he
  simp [fresh, he] at h

theorem ensureJwks_first (v : SiwaValidator) (io : VerifyIo) : ensureJwks v io.first =
    if v.known io = [] then (v, false) else (v.loaded io, true) := by
  rw [ensureJwks_eq, known, loaded, known]
  by_cases h : v.fresh io.first.now = true
  · simp [h, keys_of_fresh h]
  · simp [h]

end SiwaValidator

theorem ensureJwks_second (v : SiwaValidator) (io : JwksIo) : ensureJwks { v with jwksKeys := [] } io =
    if io.fetch.keys = [] then ({ v with jwksKeys := [] }, false)
    else ({ v with jwksKeys := io.fetch.keys, jwksExpiry := io.after + WebAuthn.hours 1 }, true) := by
  rw [ensureJwks_eq]
  rfl

/-- A lookup in terms of what the cache holds and the fetches answer. -/
theorem matchKey_eq (v : SiwaValidator) (io : VerifyIo) (kid : Bytes) : matchKey v io kid =
    if v.known io = [] then (v, .error (ascii "JWKS unavailable"))
    else match (v.known io).find? (·.kid = kid) with
      | some k => (v.loaded io, .ok k)
      | none =>
        if io.second.fetch.keys = [] then
          ({ v.loaded io with jwksKeys := [] }, .error (ascii "JWKS refresh failed"))
        else
          ({ v with
              jwksKeys := io.second.fetch.keys
              jwksExpiry := io.second.after + WebAuthn.hours 1 },
            match io.second.fetch.keys.find? (·.kid = kid) with
            | some k => .ok k
            | none => .error (ascii "no JWKS key matching kid=" ++ kid)) := by
  rw [matchKey, SiwaValidator.ensureJwks_first]
  by_cases hk : v.known io = []
  · simp only [hk, if_true]
  · simp only [hk, if_false]
    rw [show (v.loaded io).jwksKeys = v.known io from rfl]
    cases (v.known io).find? (·.kid = kid) with
    | some k => rfl
    | none =>
      simp only [ensureJwks_second]
      by_cases hs : io.second.fetch.keys = []
      · simp only [hs, if_true]
      · simp only [hs, if_false]
        cases io.second.fetch.keys.find? (·.kid = kid) <;> rfl

/-- The cache after a lookup. A miss empties it before the second fetch. -/
def SiwaValidator.afterLookup (v : SiwaValidator) (io : VerifyIo) (kid : Bytes) :
    List SiwaJwksKey × Int :=
  if v.Misses io kid ∧ io.second.fetch.keys = [] then ([], (v.loaded io).jwksExpiry)
  else (v.fetches io kid).foldl refreshed v.cache

theorem find_eq_none {keys : List SiwaJwksKey} {kid : Bytes} :
    keys.find? (·.kid = kid) = none ↔ ∀ k ∈ keys, k.kid ≠ kid := by
  simp

theorem cache_loaded {v : SiwaValidator} {io : VerifyIo} (h : v.known io ≠ []) :
    (v.loaded io).cache =
      (if v.fresh io.first.now then [] else [io.first]).foldl refreshed v.cache := by
  simp only [SiwaValidator.cache, SiwaValidator.loaded, SiwaValidator.known] at h ⊢
  by_cases hf : v.fresh io.first.now = true
  · simp [hf]
  · simp only [hf] at h ⊢
    simp_all [refreshed]

theorem cache_matchKey (v : SiwaValidator) (io : VerifyIo) (kid : Bytes) :
    (matchKey v io kid).1.cache = v.afterLookup io kid := by
  rw [matchKey_eq, SiwaValidator.afterLookup, SiwaValidator.fetches, List.foldl_append]
  by_cases hk : v.known io = []
  · have hm : ¬v.Misses io kid := fun h => h.1 hk
    have hf : v.fresh io.first.now = false := by
      by_contra hf
      rw [Bool.not_eq_false] at hf
      exact SiwaValidator.keys_of_fresh hf (by simpa [SiwaValidator.known, hf] using hk)
    have he : io.first.fetch.keys = [] := by simpa [SiwaValidator.known, hf] using hk
    simp [hk, hm, hf, refreshed, he]
  · rw [← cache_loaded hk, if_neg hk]
    cases hfind : (v.known io).find? (·.kid = kid) with
    | some k =>
      have hm : ¬v.Misses io kid := fun h => by
        rw [find_eq_none.mpr h.2] at hfind
        cases hfind
      simp [hm]
    | none =>
      have hm : v.Misses io kid := ⟨hk, find_eq_none.mp hfind⟩
      by_cases hs : io.second.fetch.keys = []
      · simp [hm, hs, SiwaValidator.cache]
      · simp [hm, hs, refreshed, SiwaValidator.cache]

/-- The cache after the lookup, if any. -/
def cacheAfter (v : SiwaValidator) : Option (VerifyIo × Bytes) → List SiwaJwksKey × Int
  | none => v.cache
  | some (io, kid) => v.afterLookup io kid

theorem cache_verifyJwt (cr : Primitives) (v : SiwaValidator) (io : VerifyIo) (idToken : Bytes)
    (allowedAuds : List Bytes) (nonceHash : Bytes) :
    (verifyJwt cr v io idToken allowedAuds nonceHash).1.cache =
      cacheAfter v ((askedKid idToken).map (io, ·)) := by
  simp only [verifyJwt, askedKid]
  cases parseJwt idToken with
  | none => rfl
  | some parts =>
    simp only [Option.bind_some, ne_eq, ite_not]
    split
    · rw [Option.map_some, cacheAfter, ← cache_matchKey]
      split <;> simp_all
    · rfl

/-- A native sign-in of a well-formed token, by what the replay memory says. -/
theorem verifyNative_eq {idToken : Bytes} {parts : JwtParts} (h : parseJwt idToken = some parts)
    (cr : Primitives) (v : SiwaValidator) (prune : Int) (io : VerifyIo) (allowedAuds : List Bytes) :
    verifyNative cr v prune io idToken allowedAuds =
      if parts.recorded = false then verifyJwt cr v io idToken allowedAuds []
      else if isReplay v prune idToken then
        (pruneReplays prune v, { error := ascii "token replay detected" })
      else
        let r := verifyJwt cr (pruneReplays prune v) io idToken allowedAuds []
        (if r.2.ok then remember (jwtGetStr parts.payloadJson (ascii "sub"))
          (jwtGetLong parts.payloadJson (ascii "exp")) r.1 else r.1, r.2) := by
  cases hr : parts.recorded with
  | false => simp [verifyNative, h, hr]
  | true => simp [verifyNative, h, hr, isReplay]

theorem cache_verifyNative (cr : Primitives) (v : SiwaValidator) (prune : Int) (io : VerifyIo)
    (idToken : Bytes) (allowedAuds : List Bytes) :
    (verifyNative cr v prune io idToken allowedAuds).1.cache =
      cacheAfter v ((SignIn.verifyNative prune io idToken allowedAuds).lookup v) := by
  rw [SignIn.lookup]
  cases hp : parseJwt idToken with
  | none => simp [verifyNative, isReplay, askedKid, hp, cacheAfter]
  | some parts =>
    rw [verifyNative_eq hp]
    cases hr : parts.recorded with
    | false =>
      have hn : isReplay v prune idToken = false := by simp [isReplay, hp, hr]
      simpa [hn] using cache_verifyJwt ..
    | true =>
      cases hn : isReplay v prune idToken with
      | true => rfl
      | false =>
        have h := cache_verifyJwt cr (pruneReplays prune v) io idToken allowedAuds []
        simp only [Bool.true_eq_false, if_false, Bool.false_eq_true]
        split
        · exact h
        · exact h

/-- What a call leaves in the cache. -/
theorem cache_step {cr : Primitives} {v v' : SiwaValidator} {c : SignIn}
    (h : signInStep cr v c = some v') : v'.cache = cacheAfter v (c.lookup v) := by
  cases c with
  | beginFlow sweep now state nonceRaw => cases h; rfl
  | verifyCallback sweep io state idToken allowedAuds =>
    cases h
    simp only [verifyCallback, SignIn.lookup]
    cases (sweepPending sweep v).pending state with
    | none => rfl
    | some p => exact cache_verifyJwt ..
  | verifyNative prune io idToken allowedAuds =>
    cases h
    exact cache_verifyNative ..

/-- A verification depends on the state only through the cache. -/
theorem verifyJwt_congr {v v' : SiwaValidator} (h : v.cache = v'.cache) (cr : Primitives)
    (io : VerifyIo) (idToken : Bytes) (allowedAuds : List Bytes) (nonceHash : Bytes) :
    (verifyJwt cr v io idToken allowedAuds nonceHash).2 =
      (verifyJwt cr v' io idToken allowedAuds nonceHash).2 := by
  obtain ⟨hkeys, hexpiry⟩ := Prod.mk.inj h
  have hfresh : v.fresh io.first.now = v'.fresh io.first.now := by
    rw [SiwaValidator.fresh, SiwaValidator.fresh, hkeys, hexpiry]
  have hknown : v.known io = v'.known io := by
    rw [SiwaValidator.known, SiwaValidator.known, hfresh, hkeys]
  have hkey (kid : Bytes) : (matchKey v io kid).2 = (matchKey v' io kid).2 := by
    rw [matchKey_eq, matchKey_eq, hknown]
    split
    · rfl
    · split
      · rfl
      · split <;> rfl
  simp only [verifyJwt]
  cases parseJwt idToken with
  | none => rfl
  | some parts =>
    dsimp only
    split
    · rfl
    · have hk := hkey (jwtGetStr parts.headerJson (ascii "kid"))
      revert hk
      rcases matchKey v io _ with ⟨w, r⟩
      rcases matchKey v' io _ with ⟨w', r'⟩
      rintro rfl
      cases r <;> rfl

/-! ## Robustness -/

theorem signInStep_isSome (cr : Primitives) (v : SiwaValidator) (c : SignIn) :
    ∃ v', signInStep cr v c = some v' := by
  cases c <;> exact ⟨_, rfl⟩

theorem foldl_refreshed_of_unusable {fetches : List JwksIo} (h : ∀ io ∈ fetches, io.fetch.keys = [])
    (cache : List SiwaJwksKey × Int) : fetches.foldl refreshed cache = cache := by
  induction fetches with
  | nil => rfl
  | cons io fetches ih =>
    rw [List.foldl_cons, refreshed, if_pos (h io (by simp))]
    exact ih fun io hio => h io (by simp [hio])

/-- What the fetches leave has keys if a lookup misses. -/
theorem foldl_refreshed_ne_nil {v : SiwaValidator} {io : VerifyIo} {kid : Bytes}
    (h : v.Misses io kid) : ((v.fetches io kid).foldl refreshed v.cache).1 ≠ [] := by
  rw [SiwaValidator.fetches, List.foldl_append, ← cache_loaded h.1, if_pos h, List.foldl_cons,
    List.foldl_nil, refreshed]
  split
  · exact h.1
  · assumption

theorem robust_step_iff (cr : Primitives) (v : SiwaValidator) (c : SignIn) :
    Robust cr v c ↔ Refills v c := by
  obtain ⟨v', hstep⟩ := signInStep_isSome cr v c
  have hcache := cache_step hstep
  constructor
  · rintro ⟨h, -⟩ io kid hl hm hs
    have := h v' hstep
    rw [hcache, hl, cacheAfter, SiwaValidator.afterLookup, if_pos ⟨hm, hs⟩, SignIn.fetches, hl] at this
    exact foldl_refreshed_ne_nil hm (congrArg Prod.fst this).symm
  · intro h
    have hc : v'.cache = (c.fetches v).foldl refreshed v.cache := by
      rw [hcache, SignIn.fetches]
      cases hl : c.lookup v with
      | none => rfl
      | some l =>
        obtain ⟨io, kid⟩ := l
        exact if_neg fun hm => h io kid hl hm.1 hm.2
    refine ⟨fun w hw => ?_, fun w hw hf io idToken allowedAuds nonceHash hok => ?_⟩ <;>
      cases hstep.symm.trans hw
    · exact hc
    · rw [foldl_refreshed_of_unusable hf] at hc
      rwa [verifyJwt_congr hc]

/-- **Robustness.** A sequence of calls is robust exactly if each lookup that misses its key is
followed by a usable fetch. -/
theorem robust_iff (cr : Primitives) (v : SiwaValidator) (cs : List SignIn) :
    Meets (signInStep cr) (Robust cr) v cs ↔ Meets (signInStep cr) Refills v cs := by
  rw [show Robust cr = Refills from funext₂ fun v c => propext (robust_step_iff cr v c)]

/-- A native sign-in, at the start of both clocks, with the key id `a` or `x` and no valid
signature. -/
private def present (header : Bytes) (fetch : Fetch) : SignIn :=
  .verifyNative 0 ⟨⟨0, fetch, 0⟩, ⟨0, fetch, 0⟩, 0⟩ (header ++ ascii ".e30.AA") []

private def applesKeys : Fetch :=
  .response 200 (ascii "\x7b\"keys\": [\x7b\"kid\":\"a\",\"n\":\"AQAB\",\"e\":\"AQAB\"\x7d]\x7d")

/-- While the key server does not answer, a token with an unknown key id empties the cache. -/
theorem keys_lost :
    let cr : Primitives := ⟨fun _ _ _ _ => false, fun _ => []⟩
    let first := present (ascii "eyJhbGciOiJSUzI1NiIsImtpZCI6ImEifQ") applesKeys
    let second := present (ascii "eyJhbGciOiJSUzI1NiIsImtpZCI6IngifQ") .failed
    (run (signInStep cr) {} [first]).map (·.cache) =
      some ([⟨ascii "a", ascii "AQAB", ascii "AQAB"⟩], WebAuthn.hours 1) ∧
    (run (signInStep cr) {} [first, second]).map (·.cache) = some ([], WebAuthn.hours 1) ∧
    ¬Meets (signInStep cr) (Robust cr) {} [first, second] := by
  refine ⟨by decide +kernel, by decide +kernel, fun h => ?_⟩
  have h := ((meets_cons_of_step rfl).mp h).2
  have h := ((meets_cons_of_step rfl).mp h).1.cache _ rfl
  revert h
  decide +kernel

end TrafficMonitor.Siwa
