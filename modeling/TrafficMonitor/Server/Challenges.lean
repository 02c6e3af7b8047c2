import TrafficMonitor.Basic.Tickets
import TrafficMonitor.Server.Login

/-!
# Challenges of login and registration

A session key stands for a challenge in the table of its ceremony. Beginning a ceremony
issues it; completing the ceremony takes it out of the table on every way.

Proved here, for every sequence of calls at any times:

* `lawful_desk`: what one call does to a pending challenge;
* `challenge_single_use`: a ceremony that completes has a challenge that was issued for its
  session key and its kind, is not past its expiry and has not been tried before; an issue
  leads to at most one completed ceremony; and an attempt ends it.

`now > expiry` is what the code calls expired: `completed_at_expiry` completes a login at
the very moment of the expiry.
-/

namespace TrafficMonitor.WebAuthn

open Bytes Runs Tickets

variable {cfg : WebAuthnConfig} {cr : Crypto}

/-! ## The two ceremonies -/

inductive Ceremony
  | authentication
  | adminRegistration
  deriving DecidableEq

def WebAuthnRP.pending (rp : WebAuthnRP) : Ceremony → Bytes → Option Pending
  | .authentication => rp.pendingAuths
  | .adminRegistration => rp.pendingRegs

/-- The call issues the challenge for the session key. -/
def Call.issues (y : Ceremony) (k : Bytes) (p : Pending) : Call → Prop
  | .beginAuthentication t challenge key =>
    y = .authentication ∧ toBase64url key = k ∧ p = ⟨challenge, t.now + pendingLifetime⟩
  | .beginAdminRegistration t challenge key _ =>
    y = .adminRegistration ∧ toBase64url key = k ∧ p = ⟨challenge, t.now + pendingLifetime⟩
  | _ => False

/-- The call tries to complete the ceremony of the session key. -/
def Call.attempts (y : Ceremony) (k : Bytes) : Call → Prop
  | .completeAuthentication _ q _ => y = .authentication ∧ q.sessionKey = k
  | .completeAdminRegistration _ q => y = .adminRegistration ∧ q.sessionKey = k
  | _ => False

/-- The call completes the ceremony of the session key: it returns a token, or no error. -/
def Call.completes (cfg : WebAuthnConfig) (cr : Crypto) (y : Ceremony) (k : Bytes)
    (rp : WebAuthnRP) : Call → Bool
  | .completeAuthentication t q token => y = .authentication && q.sessionKey = k &&
    (WebAuthn.completeAuthentication cfg cr rp t q token).2.toBool
  | .completeAdminRegistration t q => y = .adminRegistration && q.sessionKey = k &&
    (WebAuthn.completeAdminRegistration cfg cr rp t q).2 = []
  | _ => false

/-- It does not find the session key. -/
def Call.refused (cfg : WebAuthnConfig) (cr : Crypto) (rp : WebAuthnRP) : Call → Prop
  | .completeAuthentication t q token =>
    (WebAuthn.completeAuthentication cfg cr rp t q token).2 = .error (ascii "invalid or expired session")
  | .completeAdminRegistration t q =>
    (WebAuthn.completeAdminRegistration cfg cr rp t q).2 = ascii "invalid or expired session"
  | _ => False

/-- The clock at the check of the expiry. -/
def Call.now : Call → Int
  | .beginAuthentication t _ _ => t.now
  | .completeAuthentication t _ _ => t.now
  | .beginAdminRegistration t _ _ _ => t.now
  | .completeAdminRegistration t _ => t.now
  | .deleteCredential _ => 0
  | .sweep now => now

def desk (cfg : WebAuthnConfig) (cr : Crypto) (y : Ceremony) : Desk WebAuthnRP Call Bytes Pending where
  step := step cfg cr
  held rp := rp.pending y
  issues c k p := c.issues y k p
  touches c k := c.attempts y k ∨ ∃ p, c.issues y k p

/-! ## One call -/

theorem pending_sweep (cfg : WebAuthnConfig) (now : Int) {rp : WebAuthnRP} {y : Ceremony}
    {k : Bytes} {p : Pending} (h : (sweepExpired cfg now rp).pending y k = some p) :
    rp.pending y k = some p := by
  cases y <;> exact (Option.filter_eq_some_iff.mp h).1

/-- A registration consumes the entry of its session key, whatever comes of it. -/
theorem pendingRegs_completeAdminRegistration {rp : WebAuthnRP} {t : Clock} {q : Attestation}
    {k : Bytes} {p : Pending}
    (h : (completeAdminRegistration cfg cr rp t q).1.pendingRegs k = some p) :
    q.sessionKey ≠ k ∧ (sweepExpired cfg t.sweep rp).pendingRegs k = some p := by
  simp only [completeAdminRegistration] at h
  split at h
  · rename_i hnone
    refine ⟨?_, h⟩
    rintro rfl
    rw [hnone] at h
    cases h
  · split at h <;> simp only [Function.update_apply] at h <;> split at h
    · cases h
    · rename_i hk
      exact ⟨fun e => hk e.symm, h⟩
    · cases h
    · rename_i hk
      exact ⟨fun e => hk e.symm, h⟩

/-- The calls of one ceremony leave the challenges of the other to the sweep. -/
theorem pendingRegs_completeAuthentication {rp : WebAuthnRP} {t : Clock} {q : Assertion}
    {token : Bytes} : (completeAuthentication cfg cr rp t q token).1.pendingRegs =
      (sweepExpired cfg t.sweep rp).pendingRegs := by
  simp only [completeAuthentication]
  split
  · rfl
  · split <;> rfl

theorem pendingAuths_completeAdminRegistration {rp : WebAuthnRP} {t : Clock} {q : Attestation} :
    (completeAdminRegistration cfg cr rp t q).1.pendingAuths =
      (sweepExpired cfg t.sweep rp).pendingAuths := by
  simp only [completeAdminRegistration]
  split
  · rfl
  · split <;> rfl

/-- **One call.** A challenge that is pending afterwards was issued by the call, or was
pending before and is not touched by it. -/
theorem lawful_desk (y : Ceremony) : (desk cfg cr y).Lawful where
  law rp c rp' k p hs h := by
    have hs : step cfg cr rp c = some rp' := hs
    have h : rp'.pending y k = some p := h
    change c.issues y k p ∨ (rp.pending y k = some p ∧ ¬(c.attempts y k ∨ ∃ p, c.issues y k p))
    cases c with
    | beginAuthentication t challenge key =>
      cases hs
      cases y with
      | authentication =>
        simp only [WebAuthnRP.pending, beginAuthentication, Function.update_apply] at h
        split at h
        · rename_i hk
          exact .inl ⟨rfl, hk.symm, (Option.some.inj h).symm⟩
        · rename_i hk
          refine .inr ⟨pending_sweep cfg t.sweep (y := .authentication) h, ?_⟩
          simpa [Call.attempts, Call.issues] using fun e => hk e.symm
      | adminRegistration =>
        refine .inr ⟨pending_sweep cfg t.sweep (y := .adminRegistration) h, ?_⟩
        simp [Call.attempts, Call.issues]
    | completeAuthentication t q token =>
      cases hs
      cases y with
      | authentication =>
        obtain ⟨hne, h⟩ := pendingAuths_completeAuthentication h
        refine .inr ⟨pending_sweep cfg t.sweep (y := .authentication) h, ?_⟩
        simpa [Call.attempts, Call.issues] using hne
      | adminRegistration =>
        rw [WebAuthnRP.pending, pendingRegs_completeAuthentication] at h
        refine .inr ⟨pending_sweep cfg t.sweep (y := .adminRegistration) h, ?_⟩
        simp [Call.attempts, Call.issues]
    | beginAdminRegistration t challenge key userId =>
      cases hs
      cases y with
      | authentication =>
        refine .inr ⟨pending_sweep cfg t.sweep (y := .authentication) h, ?_⟩
        simp [Call.attempts, Call.issues]
      | adminRegistration =>
        simp only [WebAuthnRP.pending, beginAdminRegistration, Function.update_apply] at h
        split at h
        · rename_i hk
          exact .inl ⟨rfl, hk.symm, (Option.some.inj h).symm⟩
        · rename_i hk
          refine .inr ⟨pending_sweep cfg t.sweep (y := .adminRegistration) h, ?_⟩
          simpa [Call.attempts, Call.issues] using fun e => hk e.symm
    | completeAdminRegistration t q =>
      cases hs
      cases y with
      | authentication =>
        rw [WebAuthnRP.pending, pendingAuths_completeAdminRegistration] at h
        refine .inr ⟨pending_sweep cfg t.sweep (y := .authentication) h, ?_⟩
        simp [Call.attempts, Call.issues]
      | adminRegistration =>
        obtain ⟨hne, h⟩ := pendingRegs_completeAdminRegistration h
        refine .inr ⟨pending_sweep cfg t.sweep (y := .adminRegistration) h, ?_⟩
        simpa [Call.attempts, Call.issues] using hne
    | deleteCredential credId =>
      cases hs
      refine .inr ⟨?_, by simp [Call.attempts, Call.issues]⟩
      cases y <;> exact h
    | sweep now =>
      cases hs
      exact .inr ⟨pending_sweep cfg now h, by simp [Call.attempts, Call.issues]⟩

/-! ## Attempts -/

variable {rp : WebAuthnRP} {y : Ceremony} {k : Bytes} {c : Call}

theorem attempts_of_completes (h : c.completes cfg cr y k rp = true) : c.attempts y k := by
  cases c with
  | completeAuthentication t q token =>
    simp only [Call.completes, Bool.and_eq_true, decide_eq_true_eq] at h
    exact h.1
  | completeAdminRegistration t q =>
    simp only [Call.completes, Bool.and_eq_true, decide_eq_true_eq] at h
    exact h.1
  | _ => cases h

theorem checkClientData_error {type mismatch challenge cdJson err : Bytes} (hm : mismatch ≠ [])
    (h : checkClientData cfg type mismatch challenge cdJson = .error err) : err ≠ [] := by
  unfold checkClientData at h
  split at h
  · cases h
    simp [ascii]
  split at h
  · cases h
    exact hm
  split at h
  · cases h
    simp [ascii]
  split at h
  · cases h
    simp [ascii]
  · cases h

/-- Every refusal of a registration says why. -/
theorem checkAttestation_error {now : Int} {pr : Pending} {q : Attestation} {err : Bytes}
    (h : checkAttestation cfg cr rp now pr q = .error err) : err ≠ [] := by
  simp only [checkAttestation] at h
  split at h
  · cases h
    simp [ascii]
  split at h
  · rename_i herr
    cases h
    exact checkClientData_error (by simp [ascii]) herr
  split at h
  · cases h
    simp [ascii]
  split at h
  · cases h
    simp [ascii]
  split at h
  · cases h
    simp [ascii]
  · cases h

theorem checkAttestation_ok {now : Int} {pr : Pending} {q : Attestation}
    {cred : PasskeyCredential} (h : checkAttestation cfg cr rp now pr q = .ok cred) :
    now ≤ pr.expiry := by
  unfold checkAttestation at h
  split at h
  · cases h
  · rename_i hexp
    exact Int.not_lt.mp hexp

theorem completeAdminRegistration_ok {t : Clock} {q : Attestation}
    (h : (completeAdminRegistration cfg cr rp t q).2 = []) :
    ∃ pr cred, rp.pendingRegs q.sessionKey = some pr ∧
      checkAttestation cfg cr (sweepExpired cfg t.sweep rp) t.now pr q = .ok cred := by
  simp only [completeAdminRegistration] at h
  split at h
  · cases h
  · rename_i pr hpr
    split at h
    · rename_i err herr
      exact absurd h (checkAttestation_error herr)
    · rename_i cred hok
      exact ⟨pr, cred, pending_sweep cfg t.sweep (y := .adminRegistration) hpr, hok⟩

/-- What a ceremony that completes has found. -/
theorem pending_of_completes (h : c.completes cfg cr y k rp = true) :
    ∃ p, rp.pending y k = some p ∧ c.now ≤ p.expiry := by
  cases c with
  | completeAuthentication t q token =>
    simp only [Call.completes, Bool.and_eq_true, decide_eq_true_eq] at h
    obtain ⟨⟨rfl, rfl⟩, h⟩ := h
    cases hr : completeAuthentication cfg cr rp t q token with
    | mk rp' result =>
      cases result with
      | error err => simp [hr, Except.toBool] at h
      | ok tok =>
        obtain ⟨pa, creds, hpa, hok⟩ := completeAuthentication_ok hr
        exact ⟨pa, hpa, (checkAssertion_ok hok).1⟩
  | completeAdminRegistration t q =>
    simp only [Call.completes, Bool.and_eq_true, decide_eq_true_eq] at h
    obtain ⟨⟨rfl, rfl⟩, h⟩ := h
    obtain ⟨pr, cred, hpr, hok⟩ := completeAdminRegistration_ok h
    exact ⟨pr, hpr, checkAttestation_ok hok⟩
  | _ => cases h

theorem refused_of_not_pending (ha : c.attempts y k) (h : rp.pending y k = none) :
    c.refused cfg cr rp := by
  cases c with
  | completeAuthentication t q token =>
    obtain ⟨rfl, rfl⟩ := ha
    have h : (sweepExpired cfg t.sweep rp).pendingAuths q.sessionKey = none :=
      Option.filter_eq_none_iff.mpr fun p hp => by simp [WebAuthnRP.pending] at h; simp [h] at hp
    simp [Call.refused, completeAuthentication, h]
  | completeAdminRegistration t q =>
    obtain ⟨rfl, rfl⟩ := ha
    have h : (sweepExpired cfg t.sweep rp).pendingRegs q.sessionKey = none :=
      Option.filter_eq_none_iff.mpr fun p hp => by simp [WebAuthnRP.pending] at h; simp [h] at hp
    simp [Call.refused, completeAdminRegistration, h]
  | _ => exact ha.elim

/-! ## Runs -/

/-- **A challenge is used once.** After every run: a ceremony that completes has the challenge
last issued for its session key and its kind, not past its expiry and not tried since; until
the session key is issued again, at most one ceremony completes with it; and after an attempt
it is not found any more. -/
theorem challenge_single_use {creds : List PasskeyCredential} {calls : List Call}
    (hr : run (step cfg cr) { credentials := creds } calls = some rp) (y : Ceremony) (k : Bytes) :
    (∀ c : Call, c.completes cfg cr y k rp = true →
      ∃ p, (desk cfg cr y).LastIssued calls k p ∧ c.now ≤ p.expiry) ∧
    (∀ later, (desk cfg cr y).NoIssue k later →
      (desk cfg cr y).wins (fun rp c => c.completes cfg cr y k rp) rp later ≤ 1) ∧
    (∀ (c : Call) rp' later rp'', c.attempts y k → step cfg cr rp c = some rp' →
      run (step cfg cr) rp' later = some rp'' → (desk cfg cr y).NoIssue k later →
      ∀ c' : Call, c'.attempts y k → c'.refused cfg cr rp'') := by
  refine ⟨fun c hc => ?_, fun later hn => ?_, fun c rp' later rp'' ha hs hr' hn c' ha' => ?_⟩
  · obtain ⟨p, hp, hnow⟩ := pending_of_completes hc
    exact ⟨p, lastIssued_of_held (lawful_desk y) (fun k => by cases y <;> rfl) hr hp, hnow⟩
  · refine wins_le_one (lawful_desk y) (fun s a hw => ?_) hn
    obtain ⟨p, hp, -⟩ := pending_of_completes hw
    exact ⟨.inl (attempts_of_completes hw), Option.isSome_of_mem hp⟩
  · have hnot : ∀ p, ¬c.issues y k p := by
      intro p hi
      cases c <;> first | exact hi | exact ha
    have hnone := held_eq_none_of_touch (lawful_desk y) hs (.inl ha) hnot
    exact refused_of_not_pending ha' (held_eq_none_of_run (lawful_desk y) hnone hr' hn)

/-! ## A login at the expiry -/

/-- The login with the example's assertion, at a time. -/
def exampleLogin (now : Int) : Call :=
  .completeAuthentication ⟨now, now⟩ (exampleAssertion exampleAuthData exampleSignature) exampleKey

/-- The challenge is pending, and both logins complete; one evaluation of the example. -/
private theorem example_logins :
    ((run (step exampleConfig exampleCrypto) { credentials := [exampleCredential] }
      exampleCalls).map fun rp => (rp.pending .authentication (toBase64url exampleKey),
        [minutes 1, minutes 5].map fun now => (exampleLogin now).completes exampleConfig
          exampleCrypto .authentication (toBase64url exampleKey) rp)) =
      some (some ⟨exampleChallenge, pendingLifetime⟩, [true, true]) := by
  decide +kernel

private theorem exampleLogin_completes (now : Int) (h : now = minutes 1 ∨ now = minutes 5) :
    ∃ rp, run (step exampleConfig exampleCrypto) { credentials := [exampleCredential] }
        exampleCalls = some rp ∧
      rp.pending .authentication (toBase64url exampleKey) =
        some ⟨exampleChallenge, pendingLifetime⟩ ∧
      (exampleLogin now).completes exampleConfig exampleCrypto .authentication
        (toBase64url exampleKey) rp = true := by
  obtain ⟨rp, hr, e⟩ := Option.map_eq_some_iff.mp example_logins
  obtain ⟨hp, hc⟩ := Prod.mk.inj e
  simp only [List.map_cons, List.map_nil, List.cons.injEq, and_true] at hc
  refine ⟨rp, hr, hp, ?_⟩
  rcases h with rfl | rfl
  · exact hc.1
  · exact hc.2

theorem challenge_single_use_login :
    ∃ rp, run (step exampleConfig exampleCrypto) { credentials := [exampleCredential] }
        exampleCalls = some rp ∧
      ∃ p, (desk exampleConfig exampleCrypto .authentication).LastIssued exampleCalls
        (toBase64url exampleKey) p ∧ (exampleLogin (minutes 1)).now ≤ p.expiry := by
  obtain ⟨rp, hr, -, hc⟩ := exampleLogin_completes (minutes 1) (.inl rfl)
  exact ⟨rp, hr, (challenge_single_use hr .authentication (toBase64url exampleKey)).1 _ hc⟩

/-- A login completes at the expiry of its challenge, which is not before it. -/
theorem completed_at_expiry :
    ∃ rp p, run (step exampleConfig exampleCrypto) { credentials := [exampleCredential] }
        exampleCalls = some rp ∧
      rp.pending .authentication (toBase64url exampleKey) = some p ∧
      (exampleLogin (minutes 5)).completes exampleConfig exampleCrypto .authentication
        (toBase64url exampleKey) rp = true ∧ ¬(exampleLogin (minutes 5)).now < p.expiry := by
  obtain ⟨rp, hr, hp, hc⟩ := exampleLogin_completes (minutes 5) (.inr rfl)
  exact ⟨rp, _, hr, hp, hc, by decide⟩

end TrafficMonitor.WebAuthn
