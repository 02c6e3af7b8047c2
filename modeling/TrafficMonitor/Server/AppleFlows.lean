import Mathlib.Data.List.Dedup
import TrafficMonitor.Basic.Tickets
import TrafficMonitor.Server.AppleSignIn

/-!
# Where admin sessions come from

Every sign-in with Apple is traced back to what it rests on: the token and the key that signed
it, the flow that it ended, the record of its subject.

Proved here, for every run:

* `traced_of_run`: the keys, the attempts and the admin sessions are accounted for by the
  actions so far;
* `admin_session_traced`: an admin session comes from a sign-in whose token Apple signed for
  this service, and whose subject is that of an admin record;
* `admin_subjects_le`: no more subjects become admins than there are records;
* `flow_once`: a flow of the browser is finished at most once, within ten minutes.
-/

namespace TrafficMonitor.AppleSignIn

open Bytes Runs Siwa
open Dashboard (Request)
open WebAuthn (WebAuthnRP SessionCall createIdentitySession)

/-! ## What the actions account for -/

/-- The keys that Apple's server delivers during the action. -/
def Action.delivered : Action → List SiwaJwksKey
  | .verifyJwt _ io => AppleSignIn.delivered io
  | .native _ io _ => AppleSignIn.delivered io
  | _ => []

/-- The times of day at which the action compares an expiry. -/
def Action.days : Action → List Int
  | .verifyJwt _ io => [io.now]
  | .native _ io _ => [io.now]
  | _ => []

/-- The action begins the flow of a state, or presents the state. -/
def Action.uses : Action → Bytes → Prop
  | .start _ _ st _, state => st = state
  | .callback _ req, state => callbackState req = state ∧ isComplete req = true
  | _, _ => False

/-- The action begins a flow; it can be finished for ten minutes. -/
def Action.issues : Action → Bytes → PendingState → Prop
  | .start _ now st nonceRaw, state, p => st = state ∧ p = ⟨nonceRaw, now + WebAuthn.minutes 10⟩
  | _, _, _ => False

/-- The states of the flows that have not come back yet. -/
def desk (env : Env) : Tickets.Desk State Action Bytes PendingState where
  step := step env
  held s state := s.validator.pending state
  issues := Action.issues
  touches := Action.uses

/-- The token came back under the state of a flow that was begun at most ten minutes before, the
state not having been used in between. -/
def FlowTraced (as : List Action) (state : Bytes) (p : PendingState) (idToken : Bytes) : Prop :=
  ∃ before begin between sweep req after,
    as = before ++ begin :: (between ++ .callback sweep req :: after) ∧
    begin.issues state p ∧ (∀ b ∈ between, ¬b.uses state) ∧ sweep ≤ p.expiry ∧
    callbackState req = state ∧ callbackToken req = idToken

def Via.Traced (as : List Action) (idToken : Bytes) : Via → Prop
  | .callback state p => FlowTraced as state p idToken
  | .native => ∃ prune io req, .native prune io req ∈ as ∧ nativeToken req = idToken

/-- The token is Apple's word for the subject: signed with a key of Apple, for this service, not
too old when it was looked at, and for the flow that it ended. -/
structure Vouched (env : Env) (as : List Action) (a : Attempt) (sub : Bytes) (parts : JwtParts)
    (key : SiwaJwksKey) : Prop where
  parsed : parseJwt a.idToken = some parts
  alg : jwtGetStr parts.headerJson (ascii "alg") = ascii "RS256"
  kid : key.kid = jwtGetStr parts.headerJson (ascii "kid")
  delivered : ∃ b ∈ as, key ∈ b.delivered
  signed : rsaVerifyRS256 env.primitives key parts.signingInput parts.sigB64 = true
  issuer : jwtGetStr parts.payloadJson (ascii "iss") = ascii "https://appleid.apple.com"
  audience : jwtGetStr parts.payloadJson (ascii "aud") ∈ a.via.allowedAuds env.siwa
  recent : ∃ b ∈ as, ∃ now ∈ b.days,
    now ≤ llong (jwtGetLong parts.payloadJson (ascii "exp") + kClockSkewSec)
  nonce : ∀ state p, a.via = .callback state p →
    jwtGetStr parts.payloadJson (ascii "nonce") = env.primitives.sha256Hex p.nonceRaw
  subject : parts.sub = sub
  subject_ne : sub ≠ []

/-- What an attempt rests on, as far as it has come. -/
def Attempt.Accounted (env : Env) (as : List Action) (admins : List SiwaAdminIdentity)
    (a : Attempt) : Prop :=
  match a.progress with
  | .begun => True
  | .refused _ => True
  | .verified sub _ => ∃ parts key, Vouched env as a sub parts key
  | .matched sub isAdmin | .answered _ sub isAdmin =>
    (∃ parts key, Vouched env as a sub parts key) ∧
      (isAdmin = true → ∃ r ∈ admins, r.sub = sub)

structure Traced (env : Env) (admins : List SiwaAdminIdentity) (as : List Action) (s : State) :
    Prop where
  admins : Keeps admins s.admins
  keys : ∀ k ∈ s.validator.jwksKeys, ∃ b ∈ as, k ∈ b.delivered
  via : ∀ a ∈ s.attempts, a.via.Traced as a.idToken
  attempts : ∀ a ∈ s.attempts, a.Accounted env as s.admins
  sessions : ∀ token se, s.rp.sessions token = some se → se.isAdmin = true →
    ∃ a ∈ s.attempts, a.progress = .answered token se.identity true

/-! ## Accepted tokens -/

variable {env : Env}

theorem sha256Hex_ne (env : Env) (b : Bytes) : env.primitives.sha256Hex b ≠ [] :=
  List.ne_nil_of_length_pos (by rw [env.sha256Hex_length]; decide)

theorem sub_checkToken {cr : Primitives} {now : Int} {parts : JwtParts} {allowedAuds : List Bytes}
    {nonceHash : Bytes} {key : SiwaJwksKey}
    (h : (checkToken cr now parts allowedAuds nonceHash key).ok = true) :
    (checkToken cr now parts allowedAuds nonceHash key).sub = parts.sub := by
  obtain ⟨hsigned, hclaims, hsub⟩ := checkToken_ok.mp h
  rw [JwtParts.sub] at hsub
  simp [checkToken, hsigned, hclaims, hsub, JwtParts.sub]

theorem sub_verifyJwt {cr : Primitives} {v : SiwaValidator} {io : VerifyIo} {idToken : Bytes}
    {allowedAuds : List Bytes} {nonceHash : Bytes} {parts : JwtParts}
    (hp : parseJwt idToken = some parts)
    (h : (Siwa.verifyJwt cr v io idToken allowedAuds nonceHash).2.ok = true) :
    (Siwa.verifyJwt cr v io idToken allowedAuds nonceHash).2.sub = parts.sub := by
  unfold Siwa.verifyJwt at h ⊢
  simp only [hp] at h ⊢
  split at h
  · cases h
  rename_i halg
  rw [if_neg halg]
  cases hk : matchKey v io (jwtGetStr parts.headerJson (ascii "kid")) with
  | mk w r =>
    rw [hk] at h
    cases r with
    | error text => cases h
    | ok key => exact sub_checkToken h

/-- What a token that is accepted vouches for, when the action is appended to those so far. -/
theorem vouched_of_verifyJwt {as : List Action} {v : SiwaValidator} {io : VerifyIo}
    {nonceHash : Bytes} {a : Attempt} {b : Action} (hb : b.delivered = delivered io)
    (hday : b.days = [io.now]) (hkeys : ∀ k ∈ v.jwksKeys, ∃ b ∈ as, k ∈ b.delivered)
    (hnonce : ∀ state p, a.via = .callback state p →
      nonceHash = env.primitives.sha256Hex p.nonceRaw ∧ nonceHash ≠ [])
    (hok : (Siwa.verifyJwt env.primitives v io a.idToken (a.via.allowedAuds env.siwa)
      nonceHash).2.ok = true) :
    ∃ parts key, Vouched env (as ++ [b]) a
      (Siwa.verifyJwt env.primitives v io a.idToken (a.via.allowedAuds env.siwa) nonceHash).2.sub
      parts key := by
  obtain ⟨parts, key, hparse, halg, hkey, htoken⟩ := verifyJwt_ok hok
  have hsub := sub_verifyJwt hparse hok
  obtain ⟨hsigned, hclaims, hne⟩ := checkToken_ok.mp htoken
  obtain ⟨hiss, haud, -, hnow, hhash⟩ := validateAppleClaims_eq_nil.mp hclaims
  obtain ⟨hkid, hsource⟩ := matchKey_ok hkey
  refine ⟨parts, key, hparse, halg, hkid, ?_, hsigned, hiss, haud, ⟨b, by simp, io.now, by simp [hday],
    hnow⟩, fun state p hvia => ?_, hsub.symm, hsub ▸ hne⟩
  · rcases hsource with hv | ⟨f, hf, hk⟩
    · obtain ⟨c, hc, hk⟩ := hkeys key hv
      exact ⟨c, List.mem_append_left _ hc, hk⟩
    · exact ⟨b, by simp, hb ▸ mem_delivered_of_fetches hf hk⟩
  · obtain ⟨rfl, hne⟩ := hnonce state p hvia
    exact hhash hne

/-- What the replay memory lets pass has the result of `verifyJwt`. -/
theorem verifyNative_snd {cr : Primitives} {v : SiwaValidator} {prune : Int} {io : VerifyIo}
    {idToken : Bytes} {allowedAuds : List Bytes} (hn : isReplay v prune idToken = false) :
    (verifyNative cr v prune io idToken allowedAuds).2 =
      (Siwa.verifyJwt cr v io idToken allowedAuds []).2 := by
  cases hp : parseJwt idToken with
  | none => simp [verifyNative, Siwa.verifyJwt, hp]
  | some parts =>
    rw [verifyNative_eq hp]
    split
    · rfl
    · rw [if_neg (by simp [hn])]
      rw [verifyJwt_congr (show v.cache = (pruneReplays prune v).cache from rfl)]

/-- The token of a native sign-in, which is for no flow. -/
theorem vouched_of_verifyNative {as : List Action} {v : SiwaValidator} {prune : Int} {io : VerifyIo}
    {req : Request} (hkeys : ∀ k ∈ v.jwksKeys, ∃ b ∈ as, k ∈ b.delivered)
    (hok : (verifyNative env.primitives v prune io (nativeToken req)
      (Via.native.allowedAuds env.siwa)).2.ok = true) :
    ∃ parts key, Vouched env (as ++ [.native prune io req]) ⟨.native, nativeToken req, .begun⟩
      (verifyNative env.primitives v prune io (nativeToken req)
        (Via.native.allowedAuds env.siwa)).2.sub parts key := by
  obtain ⟨hn, hjwt⟩ := verifyNative_ok hok
  obtain ⟨parts, key, hv⟩ := vouched_of_verifyJwt (a := ⟨.native, nativeToken req, .begun⟩)
    (b := .native prune io req) rfl rfl hkeys (by simp) hjwt
  rw [verifyNative_snd hn]
  exact ⟨parts, key, hv⟩

/-! ## Longer runs -/

theorem delivered_snoc {as : List Action} {k : SiwaJwksKey} (b : Action)
    (h : ∃ c ∈ as, k ∈ c.delivered) : ∃ c ∈ as ++ [b], k ∈ c.delivered :=
  h.imp fun _ hc => ⟨List.mem_append_left _ hc.1, hc.2⟩

theorem Via.Traced.snoc {as : List Action} {idToken : Bytes} {via : Via}
    (h : via.Traced as idToken) (b : Action) : via.Traced (as ++ [b]) idToken := by
  cases via with
  | callback state p =>
    obtain ⟨before, begin, between, sweep, req, after, rfl, hflow⟩ := h
    exact ⟨before, begin, between, sweep, req, after ++ [b], by simp, hflow⟩
  | native =>
    obtain ⟨prune, io, req, hmem, htoken⟩ := h
    exact ⟨prune, io, req, List.mem_append_left _ hmem, htoken⟩

theorem Vouched.snoc {as : List Action} {a : Attempt} {sub : Bytes} {parts : JwtParts}
    {key : SiwaJwksKey} (h : Vouched env as a sub parts key) (b : Action) :
    Vouched env (as ++ [b]) a sub parts key :=
  { h with
    delivered := delivered_snoc b h.delivered
    recent := h.recent.imp fun _ hc => ⟨List.mem_append_left _ hc.1, hc.2⟩ }

/-- A token vouches for its subject however far the attempt has come. -/
theorem Vouched.advance {as : List Action} {a : Attempt} {sub : Bytes} {parts : JwtParts}
    {key : SiwaJwksKey} (h : Vouched env as a sub parts key) (p : Progress) :
    Vouched env as { a with progress := p } sub parts key :=
  { h with }

theorem Attempt.Accounted.snoc {as : List Action} {admins admins' : List SiwaAdminIdentity}
    {a : Attempt} (h : a.Accounted env as admins) (b : Action) (hk : Keeps admins admins') :
    a.Accounted env (as ++ [b]) admins' := by
  have hvouched {sub : Bytes} (h : ∃ parts key, Vouched env as a sub parts key) :
      ∃ parts key, Vouched env (as ++ [b]) a sub parts key := by
    obtain ⟨parts, key, hv⟩ := h
    exact ⟨parts, key, hv.snoc b⟩
  have hadmin {sub : Bytes} (h : (∃ parts key, Vouched env as a sub parts key) ∧
      ∃ r ∈ admins, r.sub = sub) : ∃ r ∈ admins', r.sub = sub := by
    obtain ⟨⟨parts, key, hv⟩, r, hr, rfl⟩ := h
    exact ⟨r, hk.mem hr hv.subject_ne, rfl⟩
  unfold Attempt.Accounted at h ⊢
  cases hp : a.progress with
  | begun => trivial
  | refused error => trivial
  | verified sub email => simp only [hp] at h; exact hvouched h
  | matched sub isAdmin =>
    simp only [hp] at h
    exact ⟨hvouched h.1, fun ha => hadmin ⟨h.1, h.2 ha⟩⟩
  | answered token sub isAdmin =>
    simp only [hp] at h
    exact ⟨hvouched h.1, fun ha => hadmin ⟨h.1, h.2 ha⟩⟩

/-- The attempts after an action: those of before, and one that is new or has advanced. -/
theorem mem_attempts_set {s : State} {i : Nat} {a b : Attempt} {p : Progress}
    (h : b ∈ (s.set i a p).attempts) : b ∈ s.attempts ∨ b = { a with progress := p } :=
  List.mem_or_eq_of_mem_set h

/-! ## Flows -/

theorem pending_sweep {now : Int} {v : SiwaValidator} {state : Bytes} {p : PendingState}
    (h : (sweepPending now v).pending state = some p) : v.pending state = some p ∧ now ≤ p.expiry := by
  obtain ⟨hp, hnow⟩ := Option.filter_eq_some_iff.mp h
  exact ⟨hp, by simpa using hnow⟩

theorem desk_lawful (env : Env) : (desk env).Lawful where
  law s b s' state p hs hp := by
    change step env s b = some s' at hs
    change s'.validator.pending state = some p at hp
    cases b with
    | start sweep now st nonceRaw =>
      cases hs
      by_cases hst : state = st
      · subst hst
        simp only [beginFlow, Function.update_self, Option.some.injEq] at hp
        exact .inl ⟨rfl, hp.symm⟩
      · simp only [beginFlow, Function.update_of_ne hst] at hp
        exact .inr ⟨(pending_sweep hp).1, fun h => hst h.symm⟩
    | callback sweep req =>
      rcases step_callback hs with ⟨hc, rfl⟩ | ⟨-, ⟨hnone, rfl⟩ | ⟨q, hq, rfl⟩⟩
      · exact .inr ⟨hp, fun h => by simp [Action.uses, hc, desk] at h⟩
      · refine .inr ⟨(pending_sweep hp).1, fun h => ?_⟩
        rw [← h.1, hnone] at hp
        cases hp
      · by_cases hst : state = callbackState req
        · simp [hst] at hp
        · simp only [Function.update_of_ne hst] at hp
          exact .inr ⟨(pending_sweep hp).1, fun h => hst h.1.symm⟩
    | verifyJwt i io =>
      obtain ⟨st, q, idToken, -, rfl⟩ := step_verifyJwt hs
      simp only [State.set, pending_verifyJwt] at hp
      exact .inr ⟨hp, id⟩
    | native prune io req =>
      rcases step_native hs with rfl | rfl
      · exact .inr ⟨hp, id⟩
      · simp only [pending_verifyNative] at hp
        exact .inr ⟨hp, id⟩
    | matchAndPin i =>
      obtain ⟨via, idToken, sub, email, -, rfl⟩ := step_matchAndPin hs
      exact .inr ⟨hp, id⟩
    | createSession i t random =>
      obtain ⟨via, idToken, sub, isAdmin, -, rfl⟩ := step_createSession hs
      exact .inr ⟨hp, id⟩
    | other c =>
      obtain ⟨-, rp, -, rfl⟩ := step_other hs
      exact .inr ⟨hp, id⟩

/-- A callback that finds a flow ends one that is its own. -/
theorem flowTraced_of_callback {as : List Action} {admins : List SiwaAdminIdentity}
    {credentials : List WebAuthn.PasskeyCredential} {s : State} {sweep : Int} {req : Request}
    {p : PendingState} (hr : run (step env) (boot admins credentials) as = some s)
    (hp : (sweepPending sweep s.validator).pending (callbackState req) = some p) :
    FlowTraced (as ++ [.callback sweep req]) (callbackState req) p (callbackToken req) := by
  obtain ⟨hp, hsweep⟩ := pending_sweep hp
  obtain ⟨before, begin, between, rfl, hissues, huses⟩ :=
    Tickets.lastIssued_of_held (desk_lawful env) (fun _ => rfl) hr hp
  exact ⟨before, begin, between, sweep, req, [], by simp, hissues, huses, hsweep, rfl, rfl⟩

/-! ## A sign-in from the browser -/

/-- A nonce, and the token that Apple's key `a` signed for the flow of this nonce: issuer, audience
`ntm.web`, expiry 2000, subject `u1`, email `a@b.c`. -/
private def webNonce : Bytes := List.replicate 64 48
private def webSigned : Bytes :=
  ascii "eyJhbGciOiJSUzI1NiIsImtpZCI6ImEifQ." ++
  ascii "eyJpc3MiOiJodHRwczovL2FwcGxlaWQuYXBwbGUuY29tIiwiYXVkIjoibnRtLndlYiIsImV4cCI6MjAwMCwic3Vi" ++
  ascii "IjoidTEiLCJlbWFpbCI6ImFAYi5jIiwibm9uY2UiOiI2MGUwNWJkMWIxOTVhZjJmOTQxMTJmYTcxOTdhNWM4ODI4" ++
  ascii "OTA1ODg0MGNlN2M2ZGY5NjkzNzU2YmM2MjUwZjU1In0"
private def webSignature : Bytes :=
  ascii "W7kC9gZ-eKY1YCa9gtgRtQ8Sv9H6ClWEiBkn0VXS5hvQdSEJ5Qd4dnsvDb8EkF37EJ-CYzmY0O7KdrgVVbfNHw"
private def webModulus : Bytes :=
  ascii "q_aqpn_YV3-ImH4smrPailyiNDzRgFoa33my7ETKemskMij4r4JKnvY9PNwyV2j_3oiu4CjXwq4GNyrWISUfWQ"

/-- The crypto libraries on the values of this sign-in. -/
private def webEnvOf (signed signature modulus : Bytes) : Env where
  siwa := ⟨ascii "ntm.web", [], ascii "https://ntm/auth/apple/callback"⟩
  webauthn := WebAuthn.exampleConfig
  primitives := {
    rsa := fun n e input sig => n = siwaBase64urlDecode modulus && e = [1, 0, 1] &&
      input = signed && sig = siwaBase64urlDecode signature
    sha256Hex := fun b => if b = webNonce then
      ascii "60e05bd1b195af2f94112fa7197a5c88289058840ce7c6df9693756bc6250f55"
      else List.replicate 64 48 }
  sha256Hex_length b := by
    dsimp only
    split
    · rw [ascii_ofList]
      decide +kernel
    · rfl
  crypto := WebAuthn.exampleCrypto

private def webEnv : Env := webEnvOf webSigned webSignature webModulus

private def webSignInOf (signed signature modulus : Bytes) : List Action :=
  let jwks := ascii "\x7b\"keys\":[\x7b\"kty\":\"RSA\",\"kid\":\"a\",\"n\":\"" ++ modulus ++
    ascii "\",\"e\":\"AQAB\"\x7d]\x7d"
  let io : JwksIo := ⟨0, .response 200 jwks, 0⟩
  let req : Request := { method := ascii "POST", path := ascii "/auth/apple/callback", params :=
    [(ascii "state", [115]), (ascii "id_token", signed ++ 46 :: signature)] }
  [.start 0 0 [115] webNonce, .callback 1 req, .verifyJwt 0 ⟨io, io, 1900⟩, .matchAndPin 0,
    .createSession 0 ⟨2, 2⟩ (List.replicate 32 1)]

private def webSignIn : List Action := webSignInOf webSigned webSignature webModulus

private theorem webSignIn_admin : (run (step webEnv) (boot [⟨ascii "a@b.c", []⟩] []) webSignIn).any
    fun s => (WebAuthn.isAdminSession webEnv.webauthn s.rp 3
      (WebAuthn.toBase64url (List.replicate 32 1))).2 := by
  simp only [webEnv, webSignIn, webSigned, webSignature, webModulus]
  iterate 6 rw [ascii_ofList]
  decide +kernel

/-! ## Every run -/

/-- What a step has to account for: the keys and the attempts that are new, and the admin
sessions. -/
theorem Traced.extend {admins : List SiwaAdminIdentity} {as : List Action} {s s' : State}
    (h : Traced env admins as s) {b : Action}
    (hkeys : ∀ k ∈ s'.validator.jwksKeys, k ∈ s.validator.jwksKeys ∨ k ∈ b.delivered)
    (hadmins : Keeps s.admins s'.admins)
    (hattempts : ∀ a ∈ s'.attempts, a ∈ s.attempts ∨
      a.via.Traced (as ++ [b]) a.idToken ∧ a.Accounted env (as ++ [b]) s'.admins)
    (hsessions : ∀ token se, s'.rp.sessions token = some se → se.isAdmin = true →
      ∃ a ∈ s'.attempts, a.progress = .answered token se.identity true) :
    Traced env admins (as ++ [b]) s' where
  admins := h.admins.trans hadmins
  keys k hk := by
    rcases hkeys k hk with hk | hk
    · exact delivered_snoc b (h.keys k hk)
    · exact ⟨b, by simp, hk⟩
  via a ha := by
    rcases hattempts a ha with ha | ha
    · exact (h.via a ha).snoc b
    · exact ha.1
  attempts a ha := by
    rcases hattempts a ha with ha | ha
    · exact (h.attempts a ha).snoc b hadmins
    · exact ha.2
  sessions := hsessions

/-- An attempt advances; the others stay. -/
theorem mem_set_of_ne {s : State} {i : Nat} {a b : Attempt} {p : Progress}
    (hi : s.attempts[i]? = some a) (hb : b ∈ s.attempts) (hne : b ≠ a) :
    b ∈ (s.set i a p).attempts := by
  obtain ⟨j, hj⟩ := List.mem_iff_getElem?.mp hb
  have hij : i ≠ j := by
    rintro rfl
    rw [hi] at hj
    exact hne (Option.some.inj hj).symm
  exact List.mem_of_getElem? (i := j) (by simpa [State.set, hij] using hj)

/-- The attempt that advances is traced as it was. -/
theorem via_set {admins : List SiwaAdminIdentity} {as : List Action} {s : State} (h : Traced env admins as s) (b : Action) {i : Nat}
    {a : Attempt} (hi : s.attempts[i]? = some a) :
    a.via.Traced (as ++ [b]) a.idToken :=
  (h.via a (List.mem_of_getElem? hi)).snoc b

/-- The attempts stay accounted for when one of them, not yet answered, advances. -/
theorem Traced.advance {admins : List SiwaAdminIdentity} {as : List Action} {s s' : State}
    (h : Traced env admins as s) {b : Action} {i : Nat} {a : Attempt} {p : Progress}
    (hi : s.attempts[i]? = some a)
    (hs : s'.attempts = (s.set i a p).attempts)
    (hkeys : ∀ k ∈ s'.validator.jwksKeys, k ∈ s.validator.jwksKeys ∨ k ∈ b.delivered)
    (hadmins : Keeps s.admins s'.admins)
    (hp : Attempt.Accounted env (as ++ [b]) s'.admins { a with progress := p })
    (hsessions : ∀ token se, s'.rp.sessions token = some se → se.isAdmin = true →
      s.rp.sessions token = some se ∨ p = .answered token se.identity true)
    (hopen : ∀ token sub isAdmin, a.progress ≠ .answered token sub isAdmin) :
    Traced env admins (as ++ [b]) s' := by
  refine h.extend hkeys hadmins (fun c hc => ?_) fun token se hse hadmin => ?_
  · rw [hs] at hc
    rcases mem_attempts_set hc with hc | rfl
    · exact .inl hc
    · exact .inr ⟨via_set (a := a) h b hi, hp⟩
  · rw [hs]
    rcases hsessions token se hse hadmin with h₀ | rfl
    · obtain ⟨c, hc, hcp⟩ := h.sessions token se h₀ hadmin
      exact ⟨c, mem_set_of_ne hi hc (fun e => hopen _ _ _ (e ▸ hcp)), hcp⟩
    · refine ⟨_, List.mem_of_getElem? (i := i) (?_ : _ = some { a with progress := _ }), rfl⟩
      simp [State.set, (List.getElem?_eq_some_iff.mp hi).1]

theorem accounted_ofResult {as : List Action} {admins : List SiwaAdminIdentity} {a : Attempt}
    {r : VerifyResult} (h : r.ok = true → ∃ parts key, Vouched env as a r.sub parts key) :
    Attempt.Accounted env as admins { a with progress := .ofResult r } := by
  unfold Attempt.Accounted Progress.ofResult
  cases hok : r.ok with
  | false => trivial
  | true =>
    obtain ⟨parts, key, hv⟩ := h hok
    exact ⟨parts, key, hv.advance _⟩

/-- **One step.** -/
theorem traced_step {as : List Action} {admins : List SiwaAdminIdentity}
    {credentials : List WebAuthn.PasskeyCredential} {s s' : State} {b : Action}
    (hr : run (step env) (boot admins credentials) as = some s) (h : Traced env admins as s)
    (hs : step env s b = some s') : Traced env admins (as ++ [b]) s' := by
  have hsame {rp : WebAuthnRP} (hrp : rp = s.rp) {l : List Attempt} (hl : s.attempts ⊆ l)
      (token : Bytes) (se : WebAuthn.Session) (hse : rp.sessions token = some se)
      (hadmin : se.isAdmin = true) : ∃ a ∈ l, a.progress = .answered token se.identity true := by
    obtain ⟨a, ha, hp⟩ := h.sessions token se (hrp ▸ hse) hadmin
    exact ⟨a, hl ha, hp⟩
  cases b with
  | start sweep now state nonceRaw =>
    cases hs
    exact h.extend (fun k hk => .inl hk) (Keeps.refl _) (fun a ha => .inl ha)
      (hsame rfl (List.Subset.refl _))
  | callback sweep req =>
    rcases step_callback hs with ⟨-, rfl⟩ | ⟨-, ⟨-, rfl⟩ | ⟨p, hp, rfl⟩⟩
    · exact h.extend (fun k hk => .inl hk) (Keeps.refl _) (fun a ha => .inl ha) h.sessions
    · exact h.extend (fun k hk => .inl hk) (Keeps.refl _) (fun a ha => .inl ha) h.sessions
    · refine h.extend (fun k hk => .inl hk) (Keeps.refl _) (fun a ha => ?_)
        (hsame rfl (List.subset_append_left _ _))
      rcases List.mem_append.mp ha with ha | ha
      · exact .inl ha
      · obtain rfl := List.mem_singleton.mp ha
        exact .inr ⟨flowTraced_of_callback hr hp, trivial⟩
  | verifyJwt i io =>
    obtain ⟨state, p, idToken, hi, rfl⟩ := step_verifyJwt hs
    refine h.advance hi rfl (fun k hk => mem_keys_verifyJwt hk) (Keeps.refl _) ?_
      (fun token se hse _ => .inl hse) (by simp)
    refine accounted_ofResult fun hok => ?_
    exact vouched_of_verifyJwt (a := ⟨.callback state p, idToken, .begun⟩) rfl rfl h.keys
      (fun _ _ hvia => by cases hvia; exact ⟨rfl, sha256Hex_ne env _⟩) hok
  | native prune io req =>
    rcases step_native hs with rfl | rfl
    · exact h.extend (fun k hk => .inl hk) (Keeps.refl _) (fun a ha => .inl ha) h.sessions
    · refine h.extend (fun k hk => mem_keys_verifyNative hk) (Keeps.refl _) (fun a ha => ?_)
        (hsame rfl (List.subset_append_left _ _))
      rcases List.mem_append.mp ha with ha | ha
      · exact .inl ha
      · obtain rfl := List.mem_singleton.mp ha
        refine .inr ⟨⟨prune, io, req, by simp, rfl⟩, ?_⟩
        refine accounted_ofResult (a := ⟨.native, nativeToken req, .begun⟩) fun hok => ?_
        exact vouched_of_verifyNative h.keys hok
  | matchAndPin i =>
    obtain ⟨via, idToken, sub, email, hi, rfl⟩ := step_matchAndPin hs
    have hv := h.attempts _ (List.mem_of_getElem? hi)
    obtain ⟨parts, key, hv⟩ : ∃ parts key, Vouched env as _ sub parts key := hv
    exact h.advance hi rfl (fun k hk => .inl hk) (keeps_matchAndPin ..)
      ⟨⟨parts, key, (hv.snoc _).advance _⟩, exists_record_of_match⟩
      (fun token se hse _ => .inl hse) (by simp)
  | createSession i t random =>
    obtain ⟨via, idToken, sub, isAdmin, hi, rfl⟩ := step_createSession hs
    have hv := h.attempts _ (List.mem_of_getElem? hi)
    obtain ⟨⟨parts, key, hv⟩, hadmin⟩ :
      (∃ parts key, Vouched env as _ sub parts key) ∧ (isAdmin = true → _) := hv
    refine h.advance hi rfl (fun k hk => .inl hk) (Keeps.refl _)
      ⟨⟨parts, key, (hv.snoc _).advance _⟩, hadmin⟩ (fun token se hse ha => ?_) (by simp)
    by_cases ht : token = WebAuthn.toBase64url random
    · subst ht
      simp only [State.set, createIdentitySession, Function.update_self, Option.some.injEq] at hse
      subst hse
      rw [show isAdmin = true from ha]
      exact .inr rfl
    · simp only [State.set, createIdentitySession, Function.update_of_ne ht] at hse
      exact .inl (sessions_sweep hse)
  | other c =>
    obtain ⟨hc, rp, hrp, rfl⟩ := step_other hs
    refine h.extend (fun k hk => .inl hk) (Keeps.refl _) (fun a ha => .inl ha)
      fun token se hse ha => ?_
    obtain ⟨se₀, h₀, ha, hid⟩ := admin_of_sessionStep hc hrp hse ha
    rw [← hid]
    exact h.sessions token se₀ h₀ ha

/-- **Every run.** -/
theorem traced_of_run {as : List Action} {admins : List SiwaAdminIdentity}
    {credentials : List WebAuthn.PasskeyCredential} {s : State}
    (hr : run (step env) (boot admins credentials) as = some s) : Traced env admins as s := by
  induction as using List.reverseRecOn generalizing s with
  | nil =>
    cases hr
    exact ⟨Keeps.refl _, by simp [boot], by simp [boot], by simp [boot], by simp [boot]⟩
  | append_singleton as b ih =>
    obtain ⟨s₀, hr, hs⟩ := run_snoc_eq_some.mp hr
    exact traced_step hr (ih hr) hs

/-- The subjects that were given an admin session. -/
def State.adminSubjects (s : State) : List Bytes :=
  s.attempts.filterMap fun a => match a.progress with
    | .answered _ sub true => some sub
    | _ => none

/-- **No more admins than records.** However many sign-ins there are, and in whatever order they
advance, the records keep their emails and the subjects that they have, and every subject that
was given an admin session is that of a record. -/
theorem admin_subjects_le {as : List Action} {admins : List SiwaAdminIdentity}
    {credentials : List WebAuthn.PasskeyCredential} {s : State}
    (hr : run (step env) (boot admins credentials) as = some s) :
    Keeps admins s.admins ∧ (∀ sub ∈ s.adminSubjects, ∃ r ∈ s.admins, r.sub = sub) ∧
      s.adminSubjects.dedup.length ≤ admins.length := by
  have ht := traced_of_run hr
  have hrecord : ∀ sub ∈ s.adminSubjects, ∃ r ∈ s.admins, r.sub = sub := by
    intro sub hsub
    obtain ⟨a, ha, hp⟩ := List.mem_filterMap.mp hsub
    have hacc := ht.attempts a ha
    unfold Attempt.Accounted at hacc
    split at hp
    · rename_i hans
      cases hp
      rw [hans] at hacc
      exact hacc.2 rfl
    · cases hp
  refine ⟨ht.admins, hrecord, ?_⟩
  have hsub : s.adminSubjects.dedup ⊆ s.admins.map (·.sub) := fun sub hsub => by
    obtain ⟨r, hr, rfl⟩ := hrecord sub (List.mem_dedup.mp hsub)
    exact List.mem_map_of_mem hr
  have hlen := ((List.nodup_dedup _).subperm hsub).length_le
  rwa [List.length_map, ← ht.admins.length_eq] at hlen

theorem admin_subjects_le_web :
    ∃ s, run (step webEnv) (boot [⟨ascii "a@b.c", []⟩] []) webSignIn = some s ∧
      s.adminSubjects.dedup.length ≤ 1 := by
  obtain ⟨s, hr, -⟩ := (Option.any_eq_true ..).mp webSignIn_admin
  exact ⟨s, hr, (admin_subjects_le hr).2.2⟩

/-! ## Flows that are finished -/

def Via.isCallback (state : Bytes) : Via → Bool
  | .callback st _ => st = state
  | .native => false

/-- The callbacks that got past the check of this state. -/
def State.callbacks (s : State) (state : Bytes) : Nat :=
  (s.attempts.map (·.via)).countP (Via.isCallback state)

def Action.starts (state : Bytes) : Action → Bool
  | .start _ _ st _ => st = state
  | _ => false

/-- Those callbacks, and one more if the flow of the state is still open. -/
def State.taken (s : State) (state : Bytes) : Nat :=
  s.callbacks state + if (s.validator.pending state).isSome then 1 else 0

theorem map_via_set {s : State} {i : Nat} {a : Attempt} (p : Progress)
    (hi : s.attempts[i]? = some a) :
    (s.set i a p).attempts.map (·.via) = s.attempts.map (·.via) := by
  obtain ⟨hlt, rfl⟩ := List.getElem?_eq_some_iff.mp hi
  apply List.ext_getElem (by simp [State.set])
  intro j hj hj'
  by_cases hij : i = j
  · subst hij
    simp [State.set]
  · simp [State.set, hij]

/-- An action that advances an attempt, or only touches sessions, takes no flow. -/
theorem taken_le_of_eq {s s' : State} (state : Bytes) (n : Nat)
    (hp : s'.validator.pending = s.validator.pending)
    (hv : s'.attempts.map (·.via) = s.attempts.map (·.via)) :
    s'.taken state ≤ s.taken state + n := by
  rw [State.taken, State.taken, State.callbacks, State.callbacks, hp, hv]
  exact Nat.le_add_right _ _

theorem isSome_sweep_le (now : Int) (v : SiwaValidator) (state : Bytes) :
    (if ((sweepPending now v).pending state).isSome then 1 else 0) ≤
      if (v.pending state).isSome then 1 else 0 := by
  cases h : (sweepPending now v).pending state with
  | none => simp
  | some p => simp [(pending_sweep h).1]

theorem taken_step {s s' : State} {b : Action} (state : Bytes) (hs : step env s b = some s') :
    s'.taken state ≤ s.taken state + if b.starts state then 1 else 0 := by
  cases b with
  | start sweep now st nonceRaw =>
    cases hs
    by_cases hst : st = state
    · subst hst
      simp only [State.taken, State.callbacks, beginFlow, Function.update_self, Action.starts,
        Option.isSome_some, decide_true, if_true]
      omega
    · have := isSome_sweep_le sweep s.validator state
      simp only [State.taken, State.callbacks, beginFlow, Function.update_of_ne (Ne.symm hst),
        Action.starts, hst]
      omega
  | callback sweep req =>
    have hle := isSome_sweep_le sweep s.validator state
    rcases step_callback hs with ⟨-, rfl⟩ | ⟨-, ⟨-, rfl⟩ | ⟨p, hp, rfl⟩⟩
    · exact Nat.le_add_right _ _
    · simp only [State.taken, State.callbacks]
      omega
    · simp only [State.taken, State.callbacks, List.map_append, List.countP_append]
      by_cases hst : callbackState req = state
      · subst hst
        rw [hp] at hle
        simp only [Function.update_self, List.map_cons, List.map_nil, List.countP_singleton,
          Via.isCallback, decide_true] at hle ⊢
        simp at hle ⊢
        omega
      · simp only [Function.update_of_ne (Ne.symm hst), List.map_cons, List.map_nil,
          List.countP_singleton, Via.isCallback, hst]
        simp
        omega
  | verifyJwt i io =>
    obtain ⟨st, p, idToken, hi, rfl⟩ := step_verifyJwt hs
    have hp := pending_verifyJwt env.primitives s.validator io idToken [env.siwa.serviceId]
      (env.primitives.sha256Hex p.nonceRaw)
    exact taken_le_of_eq state _ hp (map_via_set _ hi)
  | native prune io req =>
    rcases step_native hs with rfl | rfl
    · exact Nat.le_add_right _ _
    · simp [State.taken, State.callbacks, pending_verifyNative, Via.isCallback]
  | matchAndPin i =>
    obtain ⟨via, idToken, sub, email, hi, rfl⟩ := step_matchAndPin hs
    exact taken_le_of_eq state _ rfl (map_via_set _ hi)
  | createSession i t random =>
    obtain ⟨via, idToken, sub, isAdmin, hi, rfl⟩ := step_createSession hs
    exact taken_le_of_eq state _ rfl (map_via_set _ hi)
  | other c =>
    obtain ⟨-, rp, -, rfl⟩ := step_other hs
    exact taken_le_of_eq state _ rfl rfl

/-- **Flows are finished once.** Of each state, no more callbacks get past the check than flows
were begun with it, and each one that does ends a flow that was begun at most ten minutes before
and not touched since. -/
theorem flow_once {as : List Action} {admins : List SiwaAdminIdentity}
    {credentials : List WebAuthn.PasskeyCredential} {s : State}
    (hr : run (step env) (boot admins credentials) as = some s) (state : Bytes) :
    s.callbacks state ≤ as.countP (Action.starts state) ∧
      ∀ a ∈ s.attempts, ∀ p, a.via = .callback state p → FlowTraced as state p a.idToken := by
  refine ⟨?_, fun a ha p hvia => ?_⟩
  · suffices h : s.taken state ≤ as.countP (Action.starts state) from
      (Nat.le_add_right _ _).trans h
    induction as using List.reverseRecOn generalizing s with
    | nil =>
      cases hr
      rfl
    | append_singleton as b ih =>
      obtain ⟨s₀, hr, hs⟩ := run_snoc_eq_some.mp hr
      have := taken_step state hs
      have := ih hr
      rw [List.countP_append, List.countP_singleton]
      omega
  · have h := (traced_of_run hr).via a ha
    rwa [hvia] at h

theorem flow_once_web :
    ∃ s, run (step webEnv) (boot [⟨ascii "a@b.c", []⟩] []) webSignIn = some s ∧
      s.callbacks [115] ≤ 1 := by
  obtain ⟨s, hr, -⟩ := (Option.any_eq_true ..).mp webSignIn_admin
  exact ⟨s, hr, (flow_once hr [115]).1⟩

end TrafficMonitor.AppleSignIn
