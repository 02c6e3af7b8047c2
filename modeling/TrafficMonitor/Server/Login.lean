import TrafficMonitor.Server.WebAuthn

/-!
# Passkey login

When `completeAuthentication` returns a session token, the assertion it was given should
be sound: authenticator data that are well formed, of this relying party and of a present
user; client data of a login, from an allowed origin, with the challenge that was issued
for the session key, still open and not presented before; and a signature over both under
the key of a registered credential.

Proved here, for every sequence of calls:

* `issued_of_pending`: a pending challenge is the one last issued for its session key, and
  no login was tried with it since;
* `login_sound_iff`: a login that succeeds is sound exactly when `parseAuthData` accepts the
  authenticator data.

The result of `parseAuthData` is used to find the credential and for nothing else:
`login_without_authenticator_data` is a login that succeeds with none.
-/

namespace TrafficMonitor.WebAuthn

open Bytes Runs

variable {cfg : WebAuthnConfig} {cr : Crypto}

/-! ## What was issued -/

/-- The call issues a challenge for the session key, or tries to log in with it. -/
def Call.uses (k : Bytes) : Call → Prop
  | .beginAuthentication _ _ key => toBase64url key = k
  | .completeAuthentication _ q _ => q.sessionKey = k
  | _ => False

/-- The challenge was issued for the session key at the time `issuedAt`, and the session key
has not been used since. -/
def IssuedFor (calls : List Call) (k challenge : Bytes) (issuedAt : Int) : Prop :=
  ∃ before t key since, calls = before ++ .beginAuthentication t challenge key :: since ∧
    toBase64url key = k ∧ t.now = issuedAt ∧ ∀ c ∈ since, ¬ c.uses k

/-- The signature of the assertion verifies under the key of one of the credentials. -/
def SignedBy (cr : Crypto) (creds : List PasskeyCredential) (q : Assertion) : Prop :=
  ∃ c ∈ creds, cr.verifyEcdsaP256 (fromBase64url c.pubkeyX) (fromBase64url c.pubkeyY)
    (fromBase64url q.authenticatorData ++ cr.sha256 (fromBase64url q.clientDataJson))
    (fromBase64url q.signature) = true

/-- What a login that succeeds should have shown. -/
structure LoginSound (cfg : WebAuthnConfig) (cr : Crypto) (calls : List Call) (rp : WebAuthnRP)
    (now : Int) (q : Assertion) : Prop where
  wellFormed : WellFormed (fromBase64url q.authenticatorData)
  rpIdHash : (fromBase64url q.authenticatorData).take 32 = cr.sha256 cfg.rpId
  userPresent : UserPresent (fromBase64url q.authenticatorData)
  type : jsonGetStr (fromBase64url q.clientDataJson) (ascii "type") = ascii "webauthn.get"
  challenge : ∃ issuedAt, IssuedFor calls q.sessionKey (fromBase64url
      (jsonGetStr (fromBase64url q.clientDataJson) (ascii "challenge"))) issuedAt ∧
    now ≤ issuedAt + pendingLifetime
  origin : jsonGetStr (fromBase64url q.clientDataJson) (ascii "origin") ∈ cfg.origins
  signature : SignedBy cr rp.credentials q

theorem pendingAuths_sweep (cfg : WebAuthnConfig) (now : Int) {rp : WebAuthnRP} {k : Bytes}
    {pa : Pending} (h : (sweepExpired cfg now rp).pendingAuths k = some pa) :
    rp.pendingAuths k = some pa ∧ now ≤ pa.expiry := by
  obtain ⟨hk, hle⟩ := Option.filter_eq_some_iff.mp h
  exact ⟨hk, by simpa using hle⟩

/-- A login consumes the entry of its session key, whatever comes of it. -/
theorem pendingAuths_completeAuthentication {rp : WebAuthnRP} {t : Clock} {q : Assertion}
    {random k : Bytes} {pa : Pending}
    (h : (completeAuthentication cfg cr rp t q random).1.pendingAuths k = some pa) :
    q.sessionKey ≠ k ∧ (sweepExpired cfg t.sweep rp).pendingAuths k = some pa := by
  simp only [completeAuthentication] at h
  split at h
  · rename_i hnone
    refine ⟨?_, h⟩
    rintro rfl
    rw [hnone] at h
    cases h
  · split at h <;> simp only [Function.update_apply] at h <;> split at h
    · cases h
    · rename_i hk
      exact ⟨fun e => hk e.symm, h⟩
    · cases h
    · rename_i hk
      exact ⟨fun e => hk e.symm, h⟩

/-- A pending login after a call was issued by it, or was there before and is not used by
it. -/
theorem pendingAuths_step {rp rp' : WebAuthnRP} {c : Call} {k : Bytes} {pa : Pending}
    (hs : step cfg cr rp c = some rp') (h : rp'.pendingAuths k = some pa) :
    (∃ t key, c = .beginAuthentication t pa.challenge key ∧ toBase64url key = k ∧
        pa.expiry = t.now + pendingLifetime) ∨
      (rp.pendingAuths k = some pa ∧ ¬ c.uses k) := by
  cases c with
  | beginAuthentication t challenge key =>
    cases hs
    simp only [beginAuthentication, Function.update_apply] at h
    split at h
    · rename_i hk
      cases h
      exact .inl ⟨t, key, rfl, hk.symm, rfl⟩
    · rename_i hk
      exact .inr ⟨(pendingAuths_sweep cfg t.sweep h).1, fun e => hk e.symm⟩
  | completeAuthentication t q token =>
    cases hs
    obtain ⟨hne, h⟩ := pendingAuths_completeAuthentication h
    exact .inr ⟨(pendingAuths_sweep cfg t.sweep h).1, hne⟩
  | beginAdminRegistration t challenge key userId =>
    cases hs
    exact .inr ⟨(pendingAuths_sweep cfg t.sweep h).1, id⟩
  | completeAdminRegistration t q =>
    cases hs
    refine .inr ⟨(pendingAuths_sweep cfg t.sweep ?_).1, id⟩
    simp only [completeAdminRegistration] at h
    split at h
    · exact h
    · split at h <;> exact h
  | deleteCredential credId =>
    cases hs
    exact .inr ⟨h, id⟩
  | sweep now =>
    cases hs
    exact .inr ⟨(pendingAuths_sweep cfg now h).1, id⟩

/-- **A pending challenge** is the one last issued for its session key, which has not been
used since. -/
theorem issued_of_pending {creds : List PasskeyCredential} {calls : List Call} {rp : WebAuthnRP}
    (hr : run (step cfg cr) { credentials := creds } calls = some rp) {k : Bytes} {pa : Pending}
    (h : rp.pendingAuths k = some pa) :
    ∃ issuedAt, IssuedFor calls k pa.challenge issuedAt ∧
      pa.expiry = issuedAt + pendingLifetime := by
  induction calls using List.reverseRecOn generalizing rp with
  | nil =>
    cases hr
    cases h
  | append_singleton calls c ih =>
    obtain ⟨rp₀, hr, hs⟩ := run_snoc_eq_some.mp hr
    rcases pendingAuths_step hs h with ⟨t, key, rfl, hkey, he⟩ | ⟨h₀, hu⟩
    · exact ⟨t.now, ⟨calls, t, key, [], rfl, hkey, rfl, by simp⟩, he⟩
    · obtain ⟨issuedAt, ⟨before, t, key, since, rfl, hkey, ht, hsince⟩, he⟩ := ih hr h₀
      refine ⟨issuedAt, ⟨before, t, key, since ++ [c], by simp, hkey, ht, ?_⟩, he⟩
      intro d hd
      rcases List.mem_append.mp hd with hd | hd
      · exact hsince d hd
      · cases List.mem_singleton.mp hd
        exact hu

/-! ## What a login has shown -/

theorem checkClientData_ok {type mismatch challenge cdJson : Bytes}
    (h : checkClientData cfg type mismatch challenge cdJson = .ok ()) :
    jsonGetStr cdJson (ascii "type") = type ∧
      fromBase64url (jsonGetStr cdJson (ascii "challenge")) = challenge ∧
      jsonGetStr cdJson (ascii "origin") ∈ cfg.origins := by
  unfold checkClientData at h
  split at h
  · cases h
  split at h
  · cases h
  rename_i htype
  split at h
  · cases h
  rename_i hchallenge
  split at h
  · cases h
  rename_i horigin
  exact ⟨not_not.mp htype, not_not.mp hchallenge, not_not.mp horigin⟩

theorem checkAssertion_ok {rp : WebAuthnRP} {now : Int} {pa : Pending} {q : Assertion}
    {creds : List PasskeyCredential} (h : checkAssertion cfg cr rp now pa q = .ok creds) :
    now ≤ pa.expiry ∧ checkClientData cfg (ascii "webauthn.get") (ascii "type mismatch")
      pa.challenge (fromBase64url q.clientDataJson) = .ok () ∧ SignedBy cr rp.credentials q := by
  simp only [checkAssertion] at h
  split at h
  · cases h
  rename_i hexp
  split at h
  · cases h
  rename_i hcd
  split at h
  · cases h
  rename_i stored hfind
  split at h
  · cases h
  rename_i hverify
  exact ⟨Int.not_lt.mp hexp, hcd, stored, List.mem_of_find?_eq_some hfind, by simpa using hverify⟩

/-- What a login that returns a token went through. -/
theorem completeAuthentication_ok {rp rp' : WebAuthnRP} {t : Clock} {q : Assertion}
    {random token : Bytes} (h : completeAuthentication cfg cr rp t q random = (rp', .ok token)) :
    ∃ pa creds, rp.pendingAuths q.sessionKey = some pa ∧
      checkAssertion cfg cr (sweepExpired cfg t.sweep rp) t.now pa q = .ok creds := by
  simp only [completeAuthentication] at h
  split at h
  · cases h
  rename_i pa hpa
  split at h
  · cases h
  rename_i creds hok
  exact ⟨pa, creds, (pendingAuths_sweep cfg t.sweep hpa).1, hok⟩

/-- **Login.** In every run, a login that returns a token is sound exactly when the
authenticator data that it was given are accepted by `parseAuthData`. -/
theorem login_sound_iff {creds : List PasskeyCredential} {calls : List Call} {rp rp' : WebAuthnRP}
    {t : Clock} {q : Assertion} {random token : Bytes}
    (hr : run (step cfg cr) { credentials := creds } calls = some rp)
    (h : completeAuthentication cfg cr rp t q random = (rp', .ok token)) :
    LoginSound cfg cr calls rp t.now q ↔
      (parseAuthData (cr.sha256 cfg.rpId) (fromBase64url q.authenticatorData) false).accepted =
        true := by
  rw [parseAuthData_accepted]
  constructor
  · exact fun hl => ⟨hl.wellFormed, hl.rpIdHash, hl.userPresent⟩
  · rintro ⟨hwf, hhash, hup⟩
    obtain ⟨pa, _, hpa, hok⟩ := completeAuthentication_ok h
    obtain ⟨hexp, hcd, hsigned⟩ := checkAssertion_ok hok
    obtain ⟨htype, hchallenge, horigin⟩ := checkClientData_ok hcd
    obtain ⟨issuedAt, hissued, he⟩ := issued_of_pending hr hpa
    refine ⟨hwf, hhash, hup, htype, ⟨issuedAt, ?_, he ▸ hexp⟩, horigin, hsigned⟩
    rw [hchallenge]
    exact hissued

/-! ## Two logins -/

/-- The relying party `ntm.example` with one credential. -/
def exampleConfig : WebAuthnConfig := { rpId := ascii "ntm.example" }

def exampleCredential : PasskeyCredential where
  credId := ascii "AQIDBA"
  pubkeyX := ascii "atXDPU0SFtIbEHWz92a-puNTdkedKg5GK6pzFk81WEI"
  pubkeyY := ascii "6w-_wjJQlqTukDSxjC-_kyv0TBm7q5u38TZiawUIZiY"
  label := ascii "My Device"

def exampleChallenge : Bytes := (List.range 32).map UInt8.ofNat
def exampleKey : Bytes := List.replicate 24 7

/-- Client data with the challenge, of type `webauthn.get`, from `https://ntm.example`. -/
def exampleClientData : Bytes :=
  ascii "eyJ0eXBlIjoid2ViYXV0aG4uZ2V0IiwiY2hhbGxlbmdlIjoiQUFFQ0F3UUZCZ2NJQ1FvTERBME9EeEFSRWhN" ++
    ascii "VUZSWVhHQmthR3h3ZEhoOCIsIm9yaWdpbiI6Imh0dHBzOi8vbnRtLmV4YW1wbGUifQ"

/-- Authenticator data of a present user, without attested data. -/
def exampleAuthData : Bytes := ascii "_4YmFeDo6gP1PugeB5_1lAoAFFhiC_oCQozzxbNmNcoBAAAAAA"

/-- The signatures of the credential over these authenticator data, and over none. -/
def exampleSignature : Bytes :=
  ascii "MEQCIHbpIkWjo0BtbMO6zIM4dgdyf3W4xNT6HzYAyXBR758QAiAD9eI6o9BuPNEqMw1S9ow_3nZO3vP8ITiD" ++
    ascii "j9uDaz1Lzg"
def exampleBareSignature : Bytes :=
  ascii "MEYCIQCqrn0G3ZivdsoIsx-jcHg-JVxDS93cIOd00BStohmHWQIhAKudjQlmOUNoJ3CAXs_F2HyMN9R_WTHw" ++
    ascii "TovflWHbd-wM"

/-- The crypto library on the values of these logins: the two hashes, and the two signatures
that the key made. -/
def exampleCrypto : Crypto where
  sha256 b :=
    if b = exampleConfig.rpId then
      fromBase64url (ascii "_4YmFeDo6gP1PugeB5_1lAoAFFhiC_oCQozzxbNmNco")
    else if b = fromBase64url exampleClientData then
      fromBase64url (ascii "P7DKAigQF00L_wnx6GooFPHo4nxUXHVa6CF0fCsdn3A")
    else List.replicate 32 0
  sha256_length b := by
    split
    · decide +kernel
    · split
      · decide +kernel
      · rfl
  verifyP256 x y msg sig :=
    let hash := fromBase64url (ascii "P7DKAigQF00L_wnx6GooFPHo4nxUXHVa6CF0fCsdn3A")
    x = fromBase64url exampleCredential.pubkeyX && y = fromBase64url exampleCredential.pubkeyY &&
      ((msg = fromBase64url exampleAuthData ++ hash && sig = fromBase64url exampleSignature) ||
        (msg = hash && sig = fromBase64url exampleBareSignature))

def exampleCalls : List Call := [.beginAuthentication ⟨0, 0⟩ exampleChallenge exampleKey]

def exampleAssertion (authData signature : Bytes) : Assertion where
  sessionKey := toBase64url exampleKey
  credentialId := exampleCredential.credId
  authenticatorData := authData
  clientDataJson := exampleClientData
  signature := signature

/-- A minute after the challenge was issued. -/
def exampleClock : Clock := ⟨minutes 1, minutes 1⟩

/-- Both logins are answered with a token; one evaluation of the example. -/
private theorem example_tokens : ∀ q ∈ [exampleAssertion exampleAuthData exampleSignature,
      exampleAssertion [] exampleBareSignature],
    (completeAuthentication exampleConfig exampleCrypto
      (beginAuthentication exampleConfig { credentials := [exampleCredential] } ⟨0, 0⟩
        exampleChallenge exampleKey).1 exampleClock q exampleKey).2 =
      .ok (toBase64url exampleKey) := by
  decide +kernel

private theorem exists_login {q : Assertion}
    (hq : q ∈ [exampleAssertion exampleAuthData exampleSignature,
      exampleAssertion [] exampleBareSignature]) :
    ∃ rp rp', run (step exampleConfig exampleCrypto) { credentials := [exampleCredential] }
        exampleCalls = some rp ∧
      completeAuthentication exampleConfig exampleCrypto rp exampleClock q exampleKey =
        (rp', .ok (toBase64url exampleKey)) :=
  ⟨_, _, rfl, Prod.ext rfl (example_tokens q hq)⟩

/-- A login with well-formed authenticator data. -/
theorem login_sound_iff_well_formed :
    ∃ rp rp', run (step exampleConfig exampleCrypto) { credentials := [exampleCredential] }
        exampleCalls = some rp ∧
      completeAuthentication exampleConfig exampleCrypto rp exampleClock
        (exampleAssertion exampleAuthData exampleSignature) exampleKey =
        (rp', .ok (toBase64url exampleKey)) ∧
      LoginSound exampleConfig exampleCrypto exampleCalls rp exampleClock.now
        (exampleAssertion exampleAuthData exampleSignature) := by
  obtain ⟨rp, rp', hr, h⟩ := exists_login (List.mem_cons_self ..)
  exact ⟨rp, rp', hr, h, (login_sound_iff hr h).mpr (by decide +kernel)⟩

/-- A login with empty authenticator data: a token is returned, and nothing has shown that a
user was present, or that the assertion was made for this relying party. -/
theorem login_without_authenticator_data :
    ∃ rp rp', run (step exampleConfig exampleCrypto) { credentials := [exampleCredential] }
        exampleCalls = some rp ∧
      completeAuthentication exampleConfig exampleCrypto rp exampleClock
        (exampleAssertion [] exampleBareSignature) exampleKey =
        (rp', .ok (toBase64url exampleKey)) ∧
      ¬ WellFormed (fromBase64url []) ∧ ¬ UserPresent (fromBase64url []) ∧
      ¬ LoginSound exampleConfig exampleCrypto exampleCalls rp exampleClock.now
        (exampleAssertion [] exampleBareSignature) := by
  have hwf : ¬ WellFormed (fromBase64url []) := by
    rintro ⟨rpIdHash, flags, count, rest, hlen, -, he, -⟩
    have := congrArg List.length he
    simp only [List.length_append, List.length_cons] at this
    have h0 : (fromBase64url []).length = 0 := rfl
    omega
  obtain ⟨rp, rp', hr, h⟩ := exists_login (List.mem_cons_of_mem _ (List.mem_cons_self ..))
  exact ⟨rp, rp', hr, h, hwf, by unfold UserPresent; decide, fun hl => hwf hl.wellFormed⟩

end TrafficMonitor.WebAuthn
