import Mathlib
import TrafficMonitor.Basic.Base64
import TrafficMonitor.Basic.Runs
import TrafficMonitor.Server.Cbor

/-!
# The WebAuthn relying party

`WebAuthnRP` of the server: the readers of its inputs (base64url, JSON string fields,
authenticator data), the tables of pending challenges, sessions and credentials, and the
calls that login and registration are made of. One call is one critical section; it reads
the clock and the random generator through its arguments. SHA-256 and the P-256 signature
check are the crypto library's (`Crypto`).

`completeAuthentication` goes through `checkAssertion` and `completeAdminRegistration`
through `checkAttestation`; both consume the pending entry on every way out. Writing the
credentials file has no part in what the calls return, and is left out.

Proved here: `parseAuthData_accepted`, authenticator data are accepted exactly when they
are well formed, name the relying party and have the user-present flag.
-/

namespace TrafficMonitor.WebAuthn

open Bytes Cbor

/-! ## Readers -/

/-- Standard base64 with two characters replaced and the padding removed. -/
def toBase64url (data : Bytes) : Bytes :=
  trimRight (· = Base64.PAD) ((Base64.encodeBlock data).map fun c =>
    if c = 43 then 45 else if c = 47 then 95 else c)

/-- The table of `fromBase64url`: both alphabets are read. -/
def sextetOf (c : UInt8) : Option Nat :=
  if 65 ≤ c && c ≤ 90 then some (c.toNat - 65)
  else if 97 ≤ c && c ≤ 122 then some (c.toNat - 97 + 26)
  else if isDigit c then some (c.toNat - 48 + 52)
  else if c = 43 || c = 45 then some 62
  else if c = 47 || c = 95 then some 63
  else none

/-- The loop of `fromBase64url` over its 32-bit accumulator and the number of bits in it;
other characters are passed over. -/
def readSextets (acc bits : Nat) : Bytes → Bytes
  | [] => []
  | c :: s => match sextetOf c with
    | none => readSextets acc bits s
    | some v =>
      let acc := (acc * 64 + v) % 2 ^ 32
      if bits + 6 ≥ 8 then UInt8.ofNat (acc >>> (bits - 2)) :: readSextets acc (bits - 2) s
      else readSextets acc (bits + 6) s

def fromBase64url (s : Bytes) : Bytes := readSextets 0 0 s

def QUOTE : UInt8 := 34
def BACKSLASH : UInt8 := 92

/-- A JSON string up to its closing quote; `none` if there is none. -/
def jsonString : Bytes → Option Bytes
  | [] => none
  | c :: s =>
    if c = QUOTE then some []
    else if c = BACKSLASH then match s with
      | [] => none
      | e :: s =>
        (jsonString s).map ((if e = 110 then LF else if e = 114 then CR else e) :: ·)
    else (jsonString s).map (c :: ·)

/-- The search of `jsonGetStr`, `skip` bytes being behind its position: at the needle, blanks
and colons are passed over, and a quote must follow. -/
def jsonFind (needle : Bytes) : Nat → Bytes → Bytes
  | _, [] => []
  | skip + 1, _ :: s => jsonFind needle skip s
  | 0, c :: s => match stripPrefix needle (c :: s) with
    | none => jsonFind needle 0 s
    | some rest =>
      let blanks := rest.takeWhile fun b => b = SP || b = 58 || b = TAB
      match rest.drop blanks.length with
      | [] => []
      | b :: body =>
        if b = QUOTE then (jsonString body).getD []
        else jsonFind needle (needle.length + blanks.length - 1) s

def jsonGetStr (json key : Bytes) : Bytes := jsonFind (QUOTE :: key ++ [QUOTE]) 0 json

/-! ## Keys and authenticator data -/

/-- The crypto library. `verifyP256` is the check of a DER signature under the P-256 key
with the given coordinates, `d2i_PUBKEY` and `EVP_DigestVerify` together. -/
structure Crypto where
  sha256 : Bytes → Bytes
  sha256_length : ∀ b, (sha256 b).length = 32
  verifyP256 : Bytes → Bytes → Bytes → Bytes → Bool

def Crypto.verifyEcdsaP256 (cr : Crypto) (pubX pubY msg derSig : Bytes) : Bool :=
  pubX.length = 32 && pubY.length = 32 && derSig ≠ [] && cr.verifyP256 pubX pubY msg derSig

/-- The coordinates of an ES256 key. -/
def extractCoseP256 (data : Bytes) : Option (Bytes × Bytes) := do
  let (v, _) ← parse maxLevels data
  let .uint 2 ← v.getInt 1 | none
  let alg ← v.getInt 3
  if alg.asInt ≠ -7 then none
  let .uint 1 ← v.getInt (-1) | none
  let .bytes x ← v.getInt (-2) | none
  let .bytes y ← v.getInt (-3) | none
  if x.length = 32 ∧ y.length = 32 then some (x, y) else none

def extractAuthDataFromAttestationObject (attObj : Bytes) : Option Bytes := do
  let (v, _) ← parse maxLevels attObj
  let .bytes b ← v.getText (ascii "authData") | none
  some b

/-- What `parseAuthData` returns and leaves in its output arguments. -/
structure AuthData where
  accepted : Bool := false
  credId : Bytes := []
  pubX : Bytes := []
  pubY : Bytes := []
  signCount : Nat := 0
  deriving DecidableEq, Repr

def flagUP : UInt8 := 0x01
def flagAT : UInt8 := 0x40

/-- The attested credential data after the first 37 bytes. -/
def parseAttested (signCount : Nat) (rest : Bytes) : AuthData :=
  if rest.length < 18 then { signCount := signCount }
  else
    let credIdLen := (rest.getD 16 0).toNat * 256 + (rest.getD 17 0).toNat
    let rest := rest.drop 18
    if rest.length < credIdLen then { signCount := signCount }
    else
      let credId := toBase64url (rest.take credIdLen)
      match extractCoseP256 (rest.drop credIdLen) with
      | none => { credId := credId, signCount := signCount }
      | some (x, y) =>
        { accepted := true, credId := credId, pubX := x, pubY := y, signCount := signCount }

def parseAuthData (rpHash authData : Bytes) (expectAT : Bool) : AuthData :=
  if authData.length < 37 then {}
  else if authData.take 32 ≠ rpHash then {}
  else
    let flags := authData.getD 32 0
    if flags &&& flagUP = 0 then {}
    else
      let signCount := beNat ((authData.drop 33).take 4)
      if flags &&& flagAT = 0 then { accepted := !expectAT, signCount := signCount }
      else parseAttested signCount (authData.drop 37)

/-- What an accepted key holds under the labels. -/
theorem extractCoseP256_some {data x y : Bytes} (h : extractCoseP256 data = some (x, y)) :
    ∃ v rest alg, parse maxLevels data = some (v, rest) ∧ v.getInt 1 = some (.uint 2) ∧
      v.getInt 3 = some alg ∧ alg.asInt = -7 ∧ v.getInt (-1) = some (.uint 1) ∧
      v.getInt (-2) = some (.bytes x) ∧ v.getInt (-3) = some (.bytes y) ∧ x.length = 32 ∧
      y.length = 32 := by
  simp only [extractCoseP256, Option.bind_eq_bind, Option.bind_eq_some_iff] at h
  obtain ⟨⟨v, rest⟩, hparse, kty, hkty, h⟩ := h
  split at h
  swap
  · cases h
  obtain ⟨alg, halg, h⟩ := Option.bind_eq_some_iff.mp h
  split at h
  · cases h
  rename_i hes256
  obtain ⟨crv, hcrv, h⟩ := Option.bind_eq_some_iff.mp h
  split at h
  swap
  · cases h
  obtain ⟨xv, hx, h⟩ := Option.bind_eq_some_iff.mp h
  split at h
  swap
  · cases h
  obtain ⟨yv, hy, h⟩ := Option.bind_eq_some_iff.mp h
  split at h
  swap
  · cases h
  split at h
  · rename_i hlen
    cases h
    exact ⟨v, rest, alg, hparse, hkty, halg, not_not.mp hes256, hcrv, hx, hy, hlen⟩
  · cases h

/-! ## Well-formed authenticator data -/

/-- Attested credential data: an identifier of the authenticator, a credential id after its
length, and an ES256 key. -/
def Attested (rest : Bytes) : Prop :=
  ∃ aaguid credId key : Bytes, aaguid.length = 16 ∧ credId.length < 65536 ∧
    (extractCoseP256 key).isSome = true ∧
    rest = aaguid ++ UInt8.ofNat (credId.length / 256) :: UInt8.ofNat credId.length ::
      (credId ++ key)

/-- A hash, the flags, a counter, and attested data where the flags announce them. -/
def WellFormed (authData : Bytes) : Prop :=
  ∃ (rpIdHash : Bytes) (flags : UInt8) (count rest : Bytes), rpIdHash.length = 32 ∧
    count.length = 4 ∧ authData = rpIdHash ++ flags :: (count ++ rest) ∧
    (flags &&& flagAT ≠ 0 → Attested rest)

def UserPresent (authData : Bytes) : Prop := authData.getD 32 0 &&& flagUP ≠ 0

/-- Two bytes hold a length below 65536. -/
private theorem length_bytes {n : Nat} (h : n < 65536) :
    (UInt8.ofNat (n / 256)).toNat * 256 + (UInt8.ofNat n).toNat = n := by
  simp only [UInt8.toNat_ofNat']
  omega

private theorem bytes_of_length (a b : UInt8) :
    UInt8.ofNat ((a.toNat * 256 + b.toNat) / 256) = a ∧
      UInt8.ofNat (a.toNat * 256 + b.toNat) = b := by
  have ha := a.toNat_lt
  have hb := b.toNat_lt
  simp only [← UInt8.toNat_inj, UInt8.toNat_ofNat']
  omega

private theorem exists_append_cons {s : Bytes} {n : Nat} (h : n < s.length) :
    ∃ (a : Bytes) (b : UInt8) (t : Bytes), a.length = n ∧ s = a ++ b :: t := by
  refine ⟨s.take n, s[n], s.drop (n + 1), by simp; omega, ?_⟩
  rw [← List.drop_eq_getElem_cons h, List.take_append_drop]

/-- The reader on attested data in its parts. -/
private theorem parseAttested_append (n : Nat) {aaguid : Bytes} (a b : UInt8) (tail : Bytes)
    (h : aaguid.length = 16) :
    (parseAttested n (aaguid ++ a :: b :: tail)).accepted = true ↔
      a.toNat * 256 + b.toNat ≤ tail.length ∧
        (extractCoseP256 (tail.drop (a.toNat * 256 + b.toNat))).isSome = true := by
  have hlen : ¬ (aaguid ++ a :: b :: tail).length < 18 := by
    simp only [List.length_append, List.length_cons]
    omega
  have ha : (aaguid ++ a :: b :: tail).getD 16 0 = a := by simp [List.getD, ← h]
  have hb : (aaguid ++ a :: b :: tail).getD 17 0 = b := by
    simp [List.getD, List.getElem?_append_right, h]
  have hdrop : (aaguid ++ a :: b :: tail).drop 18 = tail := by
    simp [List.drop_append, h]
  simp only [parseAttested, hlen, ↓reduceIte, ha, hb, hdrop]
  split
  · rename_i hlt
    simp [Nat.not_le.mpr hlt]
  · rename_i hle
    cases extractCoseP256 (tail.drop (a.toNat * 256 + b.toNat)) <;> simp [Nat.not_lt.mp hle]

theorem parseAttested_accepted (n : Nat) (rest : Bytes) :
    (parseAttested n rest).accepted = true ↔ Attested rest := by
  constructor
  · intro h
    have hlen : 17 < rest.length := by
      by_contra hlt
      have : rest.length < 18 := by omega
      simp [parseAttested, this] at h
    obtain ⟨front, b, tail, hfront, rfl⟩ := exists_append_cons hlen
    obtain ⟨aaguid, a, t, haaguid, rfl⟩ := exists_append_cons (by omega : 16 < front.length)
    obtain rfl : t = [] := by
      rw [List.length_append, List.length_cons] at hfront
      exact List.length_eq_zero_iff.mp (by omega)
    rw [List.append_assoc, List.cons_append, List.nil_append,
      parseAttested_append n a b tail haaguid] at h
    obtain ⟨ha, hb⟩ := bytes_of_length a b
    have hid : (tail.take (a.toNat * 256 + b.toNat)).length = a.toNat * 256 + b.toNat := by
      rw [List.length_take]
      omega
    refine ⟨aaguid, tail.take (a.toNat * 256 + b.toNat), _, haaguid, ?_, h.2, ?_⟩
    · have := a.toNat_lt
      have := b.toNat_lt
      omega
    · simp only [hid, ha, hb, List.take_append_drop, List.append_assoc, List.cons_append,
        List.nil_append]
  · rintro ⟨aaguid, credId, key, haaguid, hcred, hkey, rfl⟩
    rw [parseAttested_append n _ _ _ haaguid, length_bytes hcred]
    simpa using hkey

/-- **What is accepted.** Authenticator data of an assertion are accepted exactly when they
are well formed, begin with the hash of the relying party, and have the user present. -/
theorem parseAuthData_accepted {rpHash : Bytes} (authData : Bytes) :
    (parseAuthData rpHash authData false).accepted = true ↔
      WellFormed authData ∧ authData.take 32 = rpHash ∧ UserPresent authData := by
  by_cases hlen : authData.length < 37
  · have hwf : ¬ WellFormed authData := by
      rintro ⟨rpIdHash, flags, count, rest, h1, h2, rfl, -⟩
      simp only [List.length_append, List.length_cons] at hlen
      omega
    simp [parseAuthData, hlen, hwf]
  obtain ⟨rpIdHash, flags, tail, hhash, rfl⟩ := exists_append_cons (by omega : 32 < authData.length)
  have htail : 4 ≤ tail.length := by
    simp only [List.length_append, List.length_cons] at hlen
    omega
  have htake : (rpIdHash ++ flags :: tail).take 32 = rpIdHash := by simp [← hhash]
  have hflags : (rpIdHash ++ flags :: tail).getD 32 0 = flags := by simp [List.getD, ← hhash]
  have hdrop : (rpIdHash ++ flags :: tail).drop 37 = tail.drop 4 := by
    simp [List.drop_append, hhash]
  have hwf : WellFormed (rpIdHash ++ flags :: tail) ↔
      (flags &&& flagAT ≠ 0 → Attested (tail.drop 4)) := by
    constructor
    · rintro ⟨h, f, count, rest, hh, hc, he, hat⟩
      obtain ⟨-, hrest⟩ := List.append_inj he (by omega)
      simp only [List.cons.injEq] at hrest
      obtain ⟨rfl, rfl⟩ := hrest
      simpa [hc] using hat
    · intro hat
      exact ⟨rpIdHash, flags, tail.take 4, tail.drop 4, hhash, by simp; omega,
        by rw [List.take_append_drop], hat⟩
  simp only [parseAuthData, hlen, ↓reduceIte, htake, hflags, hdrop, hwf, UserPresent]
  by_cases hrp : rpIdHash = rpHash
  · by_cases hup : flags &&& flagUP = 0
    · simp [hrp, hup]
    · by_cases hat : flags &&& flagAT = 0
      · simp [hrp, hup, hat]
      · simp [hrp, hup, hat, parseAttested_accepted]
  · simp [hrp]

/-! ## The relying party -/

/-- The configuration, with its defaults. -/
structure WebAuthnConfig where
  rpId : Bytes
  rpName : Bytes := []
  allowedOrigins : List Bytes := []
  sessionTtlHours : Nat := 24
  idleTimeoutMinutes : Nat := 15
  deriving DecidableEq, Repr

/-- The origins after construction: without any, that of the relying party. -/
def WebAuthnConfig.origins (cfg : WebAuthnConfig) : List Bytes :=
  if cfg.rpId ≠ [] ∧ cfg.allowedOrigins = [] then [ascii "https://" ++ cfg.rpId]
  else cfg.allowedOrigins

structure PasskeyCredential where
  credId : Bytes
  pubkeyX : Bytes
  pubkeyY : Bytes
  signCount : Nat := 0
  label : Bytes
  deriving DecidableEq, Repr

/-- A pending login or registration. -/
structure Pending where
  challenge : Bytes
  expiry : Int
  deriving DecidableEq, Repr

structure Session where
  expiry : Int
  lastActivity : Int
  isAdmin : Bool := false
  identity : Bytes := []
  deriving DecidableEq, Repr

structure WebAuthnRP where
  pendingRegs : Bytes → Option Pending := fun _ => none
  pendingAuths : Bytes → Option Pending := fun _ => none
  sessions : Bytes → Option Session := fun _ => none
  credentials : List PasskeyCredential := []

/-- Two readings of the monotonic clock, in nanoseconds: at the sweep, and after it. -/
structure Clock where
  sweep : Int
  now : Int
  deriving DecidableEq, Repr

def minutes (n : Nat) : Int := n * 60000000000
def hours (n : Nat) : Int := minutes (60 * n)

/-- How long a challenge stays open. -/
def pendingLifetime : Int := minutes 5

def Session.expired (cfg : WebAuthnConfig) (now : Int) (se : Session) : Bool :=
  now > se.expiry ||
    (cfg.idleTimeoutMinutes > 0 && now > se.lastActivity + minutes cfg.idleTimeoutMinutes)

def sweepExpired (cfg : WebAuthnConfig) (now : Int) (rp : WebAuthnRP) : WebAuthnRP :=
  { rp with
    pendingRegs := fun k => (rp.pendingRegs k).filter fun p => !(now > p.expiry)
    pendingAuths := fun k => (rp.pendingAuths k).filter fun p => !(now > p.expiry)
    sessions := fun k => (rp.sessions k).filter fun se => !se.expired cfg now }

/-! ### Login -/

/-- The answer to a login request: the key, the challenge and the credential ids. -/
def authenticationJson (cfg : WebAuthnConfig) (rp : WebAuthnRP) (sessionKey challenge : Bytes) :
    Bytes :=
  ascii "\x7b\"session_key\":\"" ++ sessionKey ++ ascii "\",\"challenge\":\"" ++
    toBase64url challenge ++ ascii "\",\"rp_id\":\"" ++ cfg.rpId ++
    ascii "\",\"credential_ids\":[" ++
    ([44] : Bytes).intercalate (rp.credentials.map fun c => QUOTE :: c.credId ++ [QUOTE]) ++
    ascii "]\x7d"

/-- The new state, the session key and the answer; `challenge` and `key` are the random
bytes drawn. -/
def beginAuthentication (cfg : WebAuthnConfig) (rp : WebAuthnRP) (t : Clock)
    (challenge key : Bytes) : WebAuthnRP × Bytes × Bytes :=
  let rp := sweepExpired cfg t.sweep rp
  let sessionKey := toBase64url key
  let rp := { rp with
    pendingAuths := Function.update rp.pendingAuths sessionKey
      (some ⟨challenge, t.now + pendingLifetime⟩) }
  (rp, sessionKey, authenticationJson cfg rp sessionKey challenge)

/-- The arguments of `completeAuthentication`. -/
structure Assertion where
  sessionKey : Bytes
  credentialId : Bytes
  authenticatorData : Bytes
  clientDataJson : Bytes
  signature : Bytes
  deriving DecidableEq, Repr

/-- The client data of a login or a registration: its type, challenge and origin. -/
def checkClientData (cfg : WebAuthnConfig) (type mismatch challenge cdJson : Bytes) :
    Except Bytes Unit :=
  if cdJson = [] then .error (ascii "bad clientDataJSON")
  else if jsonGetStr cdJson (ascii "type") ≠ type then .error mismatch
  else if fromBase64url (jsonGetStr cdJson (ascii "challenge")) ≠ challenge then
    .error (ascii "challenge mismatch")
  else if jsonGetStr cdJson (ascii "origin") ∉ cfg.origins then
    .error (ascii "origin not allowed: " ++ jsonGetStr cdJson (ascii "origin"))
  else .ok ()

/-- The checks of a login against its pending entry; the result is the credentials with the
counter brought forward. -/
def checkAssertion (cfg : WebAuthnConfig) (cr : Crypto) (rp : WebAuthnRP) (now : Int)
    (pa : Pending) (q : Assertion) : Except Bytes (List PasskeyCredential) :=
  if now > pa.expiry then .error (ascii "session expired")
  else
    let cdJson := fromBase64url q.clientDataJson
    match checkClientData cfg (ascii "webauthn.get") (ascii "type mismatch") pa.challenge cdJson with
    | .error e => .error e
    | .ok () =>
      let authData := fromBase64url q.authenticatorData
      let parsed := parseAuthData (cr.sha256 cfg.rpId) authData false
      -- authenticator data that are not accepted only lose their say in the credential
      let credId := if parsed.accepted then parsed.credId else q.credentialId
      let isStored (c : PasskeyCredential) : Bool := c.credId = q.credentialId || c.credId = credId
      match rp.credentials.find? isStored with
      | none => .error (ascii "credential not found")
      | some stored =>
        if !cr.verifyEcdsaP256 (fromBase64url stored.pubkeyX) (fromBase64url stored.pubkeyY)
            (authData ++ cr.sha256 cdJson) (fromBase64url q.signature) then
          .error (ascii "signature verification failed")
        else if parsed.signCount ≠ 0 ∧ parsed.signCount ≤ stored.signCount then
          .error (ascii "sign count replay detected")
        else if parsed.signCount ≠ 0 then
          .ok (rp.credentials.lookmap fun c =>
            if isStored c then some { c with signCount := parsed.signCount } else none)
        else .ok rp.credentials

/-- The new state, and the session token or the error; `token` are the random bytes drawn. -/
def completeAuthentication (cfg : WebAuthnConfig) (cr : Crypto) (rp : WebAuthnRP) (t : Clock)
    (q : Assertion) (token : Bytes) : WebAuthnRP × Except Bytes Bytes :=
  let rp := sweepExpired cfg t.sweep rp
  match rp.pendingAuths q.sessionKey with
  | none => (rp, .error (ascii "invalid or expired session"))
  | some pa =>
    let consumed := { rp with pendingAuths := Function.update rp.pendingAuths q.sessionKey none }
    match checkAssertion cfg cr rp t.now pa q with
    | .error e => (consumed, .error e)
    | .ok credentials =>
      ({ consumed with
          credentials := credentials
          sessions := Function.update rp.sessions (toBase64url token)
            (some { expiry := t.now + hours cfg.sessionTtlHours, lastActivity := t.now }) },
        .ok (toBase64url token))

/-! ### Registration -/

/-- The answer to a registration request. -/
def registrationJson (cfg : WebAuthnConfig) (sessionKey challenge userId : Bytes) : Bytes :=
  ascii "\x7b\"session_key\":\"" ++ sessionKey ++ ascii "\",\"challenge\":\"" ++
    toBase64url challenge ++ ascii "\",\"rp_id\":\"" ++ cfg.rpId ++
    ascii "\",\"rp_name\":\"" ++ (if cfg.rpName = [] then cfg.rpId else cfg.rpName) ++
    ascii "\",\"user_id\":\"" ++ toBase64url userId ++ ascii "\"\x7d"

def beginAdminRegistration (cfg : WebAuthnConfig) (rp : WebAuthnRP) (t : Clock)
    (challenge key userId : Bytes) : WebAuthnRP × Bytes × Bytes :=
  let rp := sweepExpired cfg t.sweep rp
  let sessionKey := toBase64url key
  ({ rp with
      pendingRegs := Function.update rp.pendingRegs sessionKey
        (some ⟨challenge, t.now + pendingLifetime⟩) },
    sessionKey, registrationJson cfg sessionKey challenge userId)

/-- The arguments of `completeAdminRegistration`. -/
structure Attestation where
  sessionKey : Bytes
  attestationObject : Bytes
  clientDataJson : Bytes
  label : Bytes
  deriving DecidableEq, Repr

/-- The checks of a registration against its pending entry; the result is the new
credential. -/
def checkAttestation (cfg : WebAuthnConfig) (cr : Crypto) (rp : WebAuthnRP) (now : Int)
    (pr : Pending) (q : Attestation) : Except Bytes PasskeyCredential :=
  if now > pr.expiry then .error (ascii "session expired")
  else match checkClientData cfg (ascii "webauthn.create") (ascii "clientDataJSON type mismatch")
      pr.challenge (fromBase64url q.clientDataJson) with
    | .error e => .error e
    | .ok () =>
      match extractAuthDataFromAttestationObject (fromBase64url q.attestationObject) with
      | none => .error (ascii "failed to parse attestationObject")
      | some authData =>
        let parsed := parseAuthData (cr.sha256 cfg.rpId) authData true
        if !parsed.accepted then .error (ascii "authData validation failed")
        else if rp.credentials.any (·.credId = parsed.credId) then
          .error (ascii "credential already registered")
        else .ok {
          credId := parsed.credId
          pubkeyX := toBase64url parsed.pubX
          pubkeyY := toBase64url parsed.pubY
          signCount := parsed.signCount
          label := if q.label = [] then ascii "My Device" else q.label }

/-- The new state and the error, empty on success. -/
def completeAdminRegistration (cfg : WebAuthnConfig) (cr : Crypto) (rp : WebAuthnRP) (t : Clock)
    (q : Attestation) : WebAuthnRP × Bytes :=
  let rp := sweepExpired cfg t.sweep rp
  match rp.pendingRegs q.sessionKey with
  | none => (rp, ascii "invalid or expired session")
  | some pr =>
    let consumed := { rp with pendingRegs := Function.update rp.pendingRegs q.sessionKey none }
    match checkAttestation cfg cr rp t.now pr q with
    | .error e => (consumed, e)
    | .ok c => ({ consumed with credentials := rp.credentials ++ [c] }, [])

/-- The new state, and whether a credential was erased: the first with the id. -/
def deleteCredential (rp : WebAuthnRP) (credId : Bytes) : WebAuthnRP × Bool :=
  ({ rp with credentials := rp.credentials.eraseP (·.credId = credId) },
    rp.credentials.any (·.credId = credId))

/-! ### Calls -/

inductive Call
  | beginAuthentication (t : Clock) (challenge key : Bytes)
  | completeAuthentication (t : Clock) (q : Assertion) (token : Bytes)
  | beginAdminRegistration (t : Clock) (challenge key userId : Bytes)
  | completeAdminRegistration (t : Clock) (q : Attestation)
  | deleteCredential (credId : Bytes)
  /-- The background thread. -/
  | sweep (now : Int)

/-- The state after a call; all calls are enabled. -/
def step (cfg : WebAuthnConfig) (cr : Crypto) (rp : WebAuthnRP) : Call → Option WebAuthnRP
  | .beginAuthentication t challenge key => some (beginAuthentication cfg rp t challenge key).1
  | .completeAuthentication t q token => some (completeAuthentication cfg cr rp t q token).1
  | .beginAdminRegistration t challenge key userId =>
    some (beginAdminRegistration cfg rp t challenge key userId).1
  | .completeAdminRegistration t q => some (completeAdminRegistration cfg cr rp t q).1
  | .deleteCredential credId => some (deleteCredential rp credId).1
  | .sweep now => some (sweepExpired cfg now rp)

end TrafficMonitor.WebAuthn
