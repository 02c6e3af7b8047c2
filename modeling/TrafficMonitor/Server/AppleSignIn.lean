import TrafficMonitor.Server.CredentialStore
import TrafficMonitor.Server.Dashboard
import TrafficMonitor.Server.SessionLife
import TrafficMonitor.Server.SiwaReplay

/-!
# Signing in with Apple

The routes `/auth/apple/start`, `/auth/apple/callback` and `/auth/apple/native` over the three
objects that they share with the rest of the dashboard: the `SiwaValidator`, the
`SiwaAdminStore` and the `WebAuthnRP`. A handler takes the lock of one after the other, and the
handlers of other requests run in between: one action is one of these critical sections. All
that other handlers do with the sessions is `other`.

`verifyJwt` is one action: what two of them do to the cached keys without a lock is left out,
as are the writes of the admin file.

Proved here:

* `step_callback`, `step_verifyJwt`, …: what a step changes;
* `mem_keys_verifyJwt`: the cached keys after a verification;
* `exists_record_of_match`: an identity that matches has its subject in a record afterwards;
* `admin_of_sessionStep`: no call of the other handlers makes an admin session.
-/

namespace TrafficMonitor.AppleSignIn

open Bytes Runs Siwa
open Dashboard (Request Response)
open WebAuthn (WebAuthnConfig WebAuthnRP SessionCall sessionStep createIdentitySession)

/-! ## The routes -/

structure SiwaConfig where
  serviceId : Bytes
  iosBundleId : Bytes := []
  redirectUri : Bytes
  deriving DecidableEq, Repr

/-- What the handlers capture and do not change, and the crypto libraries. -/
structure Env where
  siwa : SiwaConfig
  webauthn : WebAuthnConfig
  primitives : Primitives
  sha256Hex_length : ∀ b, (primitives.sha256Hex b).length = 64
  crypto : WebAuthn.Crypto

/-- How the token has come: with the state of a flow, under which `pending` was found, or from
the app. -/
inductive Via
  | callback (state : Bytes) (pending : PendingState)
  | native
  deriving DecidableEq, Repr

def Via.allowedAuds (siwa : SiwaConfig) : Via → List Bytes
  | .callback .. => [siwa.serviceId]
  | .native => siwa.serviceId :: if siwa.iosBundleId = [] then [] else [siwa.iosBundleId]

/-- How far a handler has come. -/
inductive Progress
  /-- The pending state is consumed. -/
  | begun
  | refused (error : Bytes)
  | verified (sub email : Bytes)
  | matched (sub : Bytes) (isAdmin : Bool)
  | answered (token sub : Bytes) (isAdmin : Bool)
  deriving DecidableEq, Repr

structure Attempt where
  via : Via
  idToken : Bytes
  progress : Progress
  deriving DecidableEq, Repr

/-- Without a `SiwaAdminStore` there are no admins. -/
structure State where
  validator : SiwaValidator := {}
  admins : List SiwaAdminIdentity
  rp : WebAuthnRP
  attempts : List Attempt := []

inductive Action
  /-- `/auth/apple/start` -/
  | start (sweep now : Int) (state nonceRaw : Bytes)
  /-- `/auth/apple/callback`, up to where `verifyCallback` gives its lock back. -/
  | callback (sweep : Int) (req : Request)
  | verifyJwt (i : Nat) (io : VerifyIo)
  /-- `/auth/apple/native`, up to the result of `verifyNative`. -/
  | native (prune : Int) (io : VerifyIo) (req : Request)
  | matchAndPin (i : Nat)
  | createSession (i : Nat) (t : WebAuthn.Clock) (random : Bytes)
  | other (c : SessionCall)

def callbackState (req : Request) : Bytes := req.param (ascii "state")
def callbackToken (req : Request) : Bytes := req.param (ascii "id_token")

/-- A callback without them is answered with 400. -/
def isComplete (req : Request) : Bool := callbackState req ≠ [] && callbackToken req ≠ []

def nativeToken (req : Request) : Bytes :=
  WebAuthn.jsonGetString req.body (ascii "identity_token")

/-- What a result of the validator leads to. -/
def Progress.ofResult (r : VerifyResult) : Progress :=
  if r.ok then .verified r.sub r.email else .refused r.error

def isCreation : SessionCall → Bool
  | .createIdentitySession .. => true
  | _ => false

def State.set (s : State) (i : Nat) (a : Attempt) (p : Progress) : State :=
  { s with attempts := s.attempts.set i { a with progress := p } }

def step (env : Env) (s : State) : Action → Option State
  | .start sweep now state nonceRaw =>
    some { s with validator := beginFlow s.validator sweep now state nonceRaw }
  | .callback sweep req =>
    if !isComplete req then some s
    else
      let v := sweepPending sweep s.validator
      match v.pending (callbackState req) with
      | none => some { s with validator := v }
      | some p =>
        some { s with
          validator := { v with pending := Function.update v.pending (callbackState req) none }
          attempts := s.attempts ++
            [⟨.callback (callbackState req) p, callbackToken req, .begun⟩] }
  | .verifyJwt i io => match s.attempts[i]? with
    | some a@⟨.callback _ p, idToken, .begun⟩ =>
      let r := Siwa.verifyJwt env.primitives s.validator io idToken
        (a.via.allowedAuds env.siwa) (env.primitives.sha256Hex p.nonceRaw)
      some ({ s with validator := r.1 }.set i a (.ofResult r.2))
    | _ => none
  | .native prune io req =>
    if nativeToken req = [] then some s
    else
      let r := verifyNative env.primitives s.validator prune io (nativeToken req)
        (Via.native.allowedAuds env.siwa)
      some { s with
        validator := r.1
        attempts := s.attempts ++ [⟨.native, nativeToken req, .ofResult r.2⟩] }
  | .matchAndPin i => match s.attempts[i]? with
    | some a@⟨_, _, .verified sub email⟩ =>
      let r := Siwa.matchAndPin s.admins sub email
      some ({ s with admins := r.2.1 }.set i a (.matched sub r.1))
    | _ => none
  | .createSession i t random => match s.attempts[i]? with
    | some a@⟨_, _, .matched sub isAdmin⟩ =>
      let r := createIdentitySession env.webauthn s.rp t random sub isAdmin
      some ({ s with rp := r.1 }.set i a (.answered r.2 sub isAdmin))
    | _ => none
  | .other c =>
    if isCreation c then none
    else (sessionStep env.webauthn env.crypto s.rp c).map fun rp => { s with rp }

/-- The server when its web interface comes up. -/
def boot (admins : List SiwaAdminIdentity) (credentials : List WebAuthn.PasskeyCredential) :
    State := { admins, rp := { credentials } }

/-! ## What a step changes -/

variable {env : Env}

/-- The actions on an attempt: it was there, and has come as far as they ask. -/
theorem step_verifyJwt {s s' : State} {i : Nat} {io : VerifyIo}
    (h : step env s (.verifyJwt i io) = some s') :
    ∃ state p idToken, s.attempts[i]? = some ⟨.callback state p, idToken, .begun⟩ ∧
      let r := Siwa.verifyJwt env.primitives s.validator io idToken [env.siwa.serviceId]
        (env.primitives.sha256Hex p.nonceRaw)
      s' = { s with validator := r.1 }.set i ⟨.callback state p, idToken, .begun⟩
        (.ofResult r.2) := by
  simp only [step] at h
  split at h
  · rename_i state p idToken hi
    exact ⟨state, p, idToken, hi, (Option.some.inj h).symm⟩
  · cases h

theorem step_matchAndPin {s s' : State} {i : Nat} (h : step env s (.matchAndPin i) = some s') :
    ∃ via idToken sub email, s.attempts[i]? = some ⟨via, idToken, .verified sub email⟩ ∧
      let r := Siwa.matchAndPin s.admins sub email
      s' = { s with admins := r.2.1 }.set i ⟨via, idToken, .verified sub email⟩
        (.matched sub r.1) := by
  simp only [step] at h
  split at h
  · rename_i via idToken sub email hi
    exact ⟨via, idToken, sub, email, hi, (Option.some.inj h).symm⟩
  · cases h

theorem step_createSession {s s' : State} {i : Nat} {t : WebAuthn.Clock} {random : Bytes}
    (h : step env s (.createSession i t random) = some s') :
    ∃ via idToken sub isAdmin, s.attempts[i]? = some ⟨via, idToken, .matched sub isAdmin⟩ ∧
      let r := createIdentitySession env.webauthn s.rp t random sub isAdmin
      s' = { s with rp := r.1 }.set i ⟨via, idToken, .matched sub isAdmin⟩
        (.answered r.2 sub isAdmin) := by
  simp only [step] at h
  split at h
  · rename_i via idToken sub isAdmin hi
    exact ⟨via, idToken, sub, isAdmin, hi, (Option.some.inj h).symm⟩
  · cases h

theorem step_other {s s' : State} {c : SessionCall} (h : step env s (.other c) = some s') :
    isCreation c = false ∧ ∃ rp, sessionStep env.webauthn env.crypto s.rp c = some rp ∧
      s' = { s with rp } := by
  simp only [step] at h
  split at h
  · cases h
  · rename_i hc
    obtain ⟨rp, hrp, rfl⟩ := Option.map_eq_some_iff.mp h
    exact ⟨by simpa using hc, rp, hrp, rfl⟩

/-- A complete callback ends the flow of its state, if there is one. -/
theorem step_callback {s s' : State} {sweep : Int} {req : Request}
    (h : step env s (.callback sweep req) = some s') :
    isComplete req = false ∧ s' = s ∨ isComplete req = true ∧
      let v := sweepPending sweep s.validator
      (v.pending (callbackState req) = none ∧ s' = { s with validator := v } ∨
      ∃ p, v.pending (callbackState req) = some p ∧ s' = { s with
        validator := { v with pending := Function.update v.pending (callbackState req) none }
        attempts := s.attempts ++ [⟨.callback (callbackState req) p, callbackToken req, .begun⟩] }) := by
  simp only [step] at h
  split at h
  · rename_i hc
    exact .inl ⟨by simpa using hc, (Option.some.inj h).symm⟩
  · rename_i hc
    refine .inr ⟨by simpa using hc, ?_⟩
    split at h
    · rename_i hp
      exact .inl ⟨hp, (Option.some.inj h).symm⟩
    · rename_i p hp
      exact .inr ⟨p, hp, (Option.some.inj h).symm⟩

/-- A native sign-in begins with its token having been looked at. -/
theorem step_native {s s' : State} {prune : Int} {io : VerifyIo} {req : Request}
    (h : step env s (.native prune io req) = some s') :
    s' = s ∨
      let r := verifyNative env.primitives s.validator prune io (nativeToken req)
        (Via.native.allowedAuds env.siwa)
      s' = { s with
        validator := r.1
        attempts := s.attempts ++ [⟨.native, nativeToken req, .ofResult r.2⟩] } := by
  simp only [step] at h
  split at h
  · exact .inl (Option.some.inj h).symm
  · exact .inr (Option.some.inj h).symm

/-! ## What the validator leaves alone -/

theorem pending_matchKey (v : SiwaValidator) (io : VerifyIo) (kid : Bytes) :
    (matchKey v io kid).1.pending = v.pending := by
  rw [matchKey_eq]
  split
  · rfl
  · split
    · rfl
    · split <;> rfl

theorem pending_verifyJwt (cr : Primitives) (v : SiwaValidator) (io : VerifyIo) (idToken : Bytes)
    (allowedAuds : List Bytes) (nonceHash : Bytes) :
    (Siwa.verifyJwt cr v io idToken allowedAuds nonceHash).1.pending = v.pending := by
  unfold Siwa.verifyJwt
  split
  · rfl
  · rename_i parts _
    dsimp only
    split
    · rfl
    · have h := pending_matchKey v io (jwtGetStr parts.headerJson (ascii "kid"))
      split <;> simp_all

theorem pending_verifyNative (cr : Primitives) (v : SiwaValidator) (prune : Int) (io : VerifyIo)
    (idToken : Bytes) (allowedAuds : List Bytes) :
    (verifyNative cr v prune io idToken allowedAuds).1.pending = v.pending := by
  cases hp : parseJwt idToken with
  | none => simp [verifyNative, hp]
  | some parts =>
    rw [verifyNative_eq hp]
    split
    · exact pending_verifyJwt ..
    · split
      · rfl
      · dsimp only
        split
        · exact pending_verifyJwt cr (pruneReplays prune v) io idToken allowedAuds []
        · exact pending_verifyJwt cr (pruneReplays prune v) io idToken allowedAuds []

/-! ## Where the keys come from -/

/-- The keys that the fetches of a verification deliver. -/
def delivered (io : VerifyIo) : List SiwaJwksKey := io.first.fetch.keys ++ io.second.fetch.keys

theorem mem_fold_refreshed {l : List JwksIo} {cache : List SiwaJwksKey × Int} {k : SiwaJwksKey}
    (h : k ∈ (l.foldl refreshed cache).1) : k ∈ cache.1 ∨ ∃ f ∈ l, k ∈ f.fetch.keys := by
  induction l generalizing cache with
  | nil => exact .inl h
  | cons f l ih =>
    rcases ih h with h | ⟨g, hg, hk⟩
    · unfold refreshed at h
      split at h
      · exact .inl h
      · exact .inr ⟨f, by simp, h⟩
    · exact .inr ⟨g, List.mem_cons_of_mem _ hg, hk⟩

theorem mem_delivered_of_fetches {v : SiwaValidator} {io : VerifyIo} {kid : Bytes} {f : JwksIo}
    {k : SiwaJwksKey} (hf : f ∈ v.fetches io kid) (hk : k ∈ f.fetch.keys) : k ∈ delivered io := by
  rw [SiwaValidator.fetches, List.mem_append] at hf
  rw [delivered, List.mem_append]
  rcases hf with hf | hf <;> split at hf <;> simp_all

theorem mem_cacheAfter {v : SiwaValidator} {o : Option Bytes} {io : VerifyIo} {k : SiwaJwksKey}
    (h : k ∈ (cacheAfter v (o.map (io, ·))).1) : k ∈ v.jwksKeys ∨ k ∈ delivered io := by
  cases o with
  | none => exact .inl h
  | some kid =>
    simp only [Option.map_some, cacheAfter, SiwaValidator.afterLookup] at h
    split at h
    · cases h
    · rcases mem_fold_refreshed h with h | ⟨f, hf, hk⟩
      · exact .inl h
      · exact .inr (mem_delivered_of_fetches hf hk)

theorem fst_cache (v : SiwaValidator) : v.cache.1 = v.jwksKeys := rfl

theorem mem_keys_verifyJwt {cr : Primitives} {v : SiwaValidator} {io : VerifyIo} {idToken : Bytes}
    {allowedAuds : List Bytes} {nonceHash : Bytes} {k : SiwaJwksKey}
    (h : k ∈ (Siwa.verifyJwt cr v io idToken allowedAuds nonceHash).1.jwksKeys) :
    k ∈ v.jwksKeys ∨ k ∈ delivered io := by
  rw [← fst_cache, cache_verifyJwt] at h
  exact mem_cacheAfter h

theorem mem_keys_verifyNative {cr : Primitives} {v : SiwaValidator} {prune : Int} {io : VerifyIo}
    {idToken : Bytes} {allowedAuds : List Bytes} {k : SiwaJwksKey}
    (h : k ∈ (verifyNative cr v prune io idToken allowedAuds).1.jwksKeys) :
    k ∈ v.jwksKeys ∨ k ∈ delivered io := by
  rw [← fst_cache, cache_verifyNative, SignIn.lookup] at h
  split at h
  · exact .inl h
  · exact mem_cacheAfter h

/-! ## Admin records -/

theorem keeps_matchAndPin (ids : List SiwaAdminIdentity) (sub email : Bytes) :
    Keeps ids (Siwa.matchAndPin ids sub email).2.1 := by
  unfold Siwa.matchAndPin
  dsimp only
  split
  · exact Keeps.refl ids
  · rename_i i id hpin
    obtain ⟨old, hold, hsub, -, rfl⟩ := toPin_spec hpin
    exact Keeps.set hold hsub rfl

/-- The record that is matched has the subject, or none yet. -/
theorem matched_record {ids : List SiwaAdminIdentity} {sub email : Bytes} {i : Nat}
    (h : matchAdminIdentity ids sub email = some i) :
    ∃ r, ids[i]? = some r ∧ (r.sub = sub ∨ r.sub = []) := by
  unfold matchAdminIdentity at h
  split at h
  · rename_i hj
    cases h
    obtain ⟨hlt, hp, -⟩ := List.findIdx?_eq_some_iff_getElem.mp hj
    rw [Bool.and_eq_true, decide_eq_true_eq, decide_eq_true_eq] at hp
    exact ⟨ids[i], List.getElem?_eq_getElem hlt, .inl hp.2⟩
  · split at h
    · obtain ⟨hlt, hp, -⟩ := List.findIdx?_eq_some_iff_getElem.mp h
      rw [Bool.and_eq_true, decide_eq_true_eq] at hp
      exact ⟨ids[i], List.getElem?_eq_getElem hlt, .inr hp.1⟩
    · cases h

/-- An identity that matches has its subject in a record afterwards. -/
theorem exists_record_of_match {ids : List SiwaAdminIdentity} {sub email : Bytes}
    (h : (Siwa.matchAndPin ids sub email).1 = true) :
    ∃ r ∈ (Siwa.matchAndPin ids sub email).2.1, r.sub = sub := by
  obtain ⟨i, hi⟩ := Option.isSome_iff_exists.mp h
  obtain ⟨old, hold, hmatch⟩ := matched_record hi
  by_cases hs : old.sub = []
  · have hpin : toPin ids sub email = some (i, { old with sub }) := by simp [toPin, hi, hold, hs]
    refine ⟨{ old with sub }, ?_, rfl⟩
    simp only [Siwa.matchAndPin, hpin]
    exact List.mem_set (List.getElem?_eq_some_iff.mp hold).1 _
  · have hpin : toPin ids sub email = none := by simp [toPin, hi, hold, hs]
    simp only [Siwa.matchAndPin, hpin]
    exact ⟨old, List.mem_of_getElem? hold, hmatch.resolve_right hs⟩

/-! ## Sessions -/

open WebAuthn in
theorem sessions_sweep {cfg : WebAuthnConfig} {now : Int} {rp : WebAuthnRP} {token : Bytes}
    {se : Session} (h : (sweepExpired cfg now rp).sessions token = some se) :
    rp.sessions token = some se :=
  (Option.filter_eq_some_iff.mp h).1

open WebAuthn in
theorem sessions_touch {cfg : WebAuthnConfig} {now : Int} {rp : WebAuthnRP} {asked token : Bytes}
    {se : Session} (h : (touchSession cfg rp now asked).1.sessions token = some se) :
    ∃ se₀, rp.sessions token = some se₀ ∧ se₀.isAdmin = se.isAdmin ∧ se₀.identity = se.identity := by
  rw [touchSession_fst] at h
  change Function.update rp.sessions asked _ token = some se at h
  by_cases ht : token = asked
  · subst ht
    rw [Function.update_self, touchSession_snd, Option.map_eq_some_iff] at h
    obtain ⟨se₀, h₀, rfl⟩ := h
    exact ⟨se₀, (Option.filter_eq_some_iff.mp h₀).1, rfl, rfl⟩
  · exact ⟨se, by simpa [ht] using h, rfl, rfl⟩

open WebAuthn in
/-- **No other call makes an admin.** An admin session after it was one before it. -/
theorem admin_of_sessionStep {cfg : WebAuthnConfig} {cr : Crypto} {rp rp' : WebAuthnRP}
    {c : SessionCall} (hc : isCreation c = false) (hs : sessionStep cfg cr rp c = some rp')
    {token : Bytes} {se : Session} (h : rp'.sessions token = some se) (hadmin : se.isAdmin = true) :
    ∃ se₀, rp.sessions token = some se₀ ∧ se₀.isAdmin = true ∧ se₀.identity = se.identity := by
  have hold (h : rp.sessions token = some se) : ∃ se₀, rp.sessions token = some se₀ ∧
      se₀.isAdmin = true ∧ se₀.identity = se.identity := ⟨se, h, hadmin, rfl⟩
  have htouch {now : Int} {asked : Bytes}
      (h : (touchSession cfg rp now asked).1.sessions token = some se) :
      ∃ se₀, rp.sessions token = some se₀ ∧ se₀.isAdmin = true ∧ se₀.identity = se.identity := by
    obtain ⟨se₀, h₀, ha, hid⟩ := sessions_touch h
    exact ⟨se₀, h₀, ha ▸ hadmin, hid⟩
  cases c with
  | createIdentitySession => cases hc
  | isValidSession now asked => cases hs; exact htouch h
  | isAdminSession now asked => cases hs; exact htouch h
  | getSessionInfo now asked => cases hs; exact htouch h
  | invalidateSession asked =>
    cases hs
    by_cases ht : token = asked
    · simp [invalidateSession, ht] at h
    · exact hold (by simpa [invalidateSession, ht] using h)
  | other c =>
    cases c with
    | beginAuthentication t challenge key => cases hs; exact hold (sessions_sweep h)
    | beginAdminRegistration t challenge key userId => cases hs; exact hold (sessions_sweep h)
    | deleteCredential credId => cases hs; exact hold h
    | sweep now => cases hs; exact hold (sessions_sweep h)
    | completeAdminRegistration t q =>
      cases hs
      simp only [completeAdminRegistration] at h
      split at h
      · exact hold (sessions_sweep h)
      · split at h <;> exact hold (sessions_sweep h)
    | completeAuthentication t q random =>
      cases hs
      simp only [completeAuthentication] at h
      split at h
      · exact hold (sessions_sweep h)
      · split at h
        · exact hold (sessions_sweep h)
        · by_cases ht : token = toBase64url random
          · simp only [ht, Function.update_self, Option.some.injEq] at h
            rw [← h] at hadmin
            cases hadmin
          · exact hold (sessions_sweep (by simpa [ht] using h))

end TrafficMonitor.AppleSignIn
