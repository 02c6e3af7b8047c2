import TrafficMonitor.Server.Base64url
import TrafficMonitor.Server.DemoSession
import TrafficMonitor.Server.SessionLife

/-!
# The gate of the admin interface

The handlers registered under `/api/admin/` stand behind the pre-routing handler, which asks
`WebAuthnRP` twice: whether the token of the request is a valid session, and whether it is an
admin's. Other threads may create, use and invalidate sessions before and between the two.

Proved here, for every request and every sequence of session calls:

* `respond_of_some`, `respond_of_none`: the handler that a request reaches is the only one that
  is run;
* `exempt_not_admin`: no exempt path is an admin path;
* `admin_gating`: what a request that reaches a handler has shown;
* `demo_reaches_history`: a demo token reaches a handler without a session.
-/

namespace TrafficMonitor.Dashboard

open Bytes Stats WebAuthn Runs

/-! ## The handler of a request -/

/-- The route whose handler is run, and the response it is given. -/
def handlerRun (s : Server) (req : Request) : Option (Route × Response) :=
  match preRouting s req with
  | (.handled, _) => none
  | (.unhandled, res) =>
    match verbOf req.method with
    | some (some verb) => (findRoute s verb req.path).map fun r => (r, res)
    | _ => none

theorem handlerRun_eq_some {s : Server} {req : Request} {r : Route} {res : Response} :
    handlerRun s req = some (r, res) ↔ preRouting s req = (.unhandled, res) ∧
      ∃ verb, verbOf req.method = some (some verb) ∧ findRoute s verb req.path = some r := by
  unfold handlerRun
  rcases preRouting s req with ⟨answer, res'⟩
  cases answer with
  | handled => simp
  | unhandled =>
    rcases verbOf req.method with _ | _ | verb
    · simp
    · simp
    · cases findRoute s verb req.path <;> simp [and_comm]

theorem respond_of_some {s : Server} {req : Request} {r : Route} {res : Response}
    (st : TrafficStats) (h : handlerRun s req = some (r, res)) :
    respond s st req = errorHandler (s.handle st r req res) := by
  obtain ⟨hpre, verb, hverb, hr⟩ := handlerRun_eq_some.mp h
  simp only [respond, hpre, dispatch, hverb, hr]

/-- Without a handler, the response is the same whatever the handlers do. -/
theorem respond_of_none {s : Server} {req : Request} (h : handlerRun s req = none)
    (plain : Route → Request → Response → Response)
    (purge : TrafficStats → Request → Response → Response) (st st' : TrafficStats) :
    respond s st req = respond { s with plain, purge } st' req := by
  have hpre : preRouting { s with plain, purge } req = preRouting s req := rfl
  have hfind (verb : Verb) : findRoute { s with plain, purge } verb req.path =
      findRoute s verb req.path := rfl
  unfold respond
  rw [hpre]
  rcases hanswer : preRouting s req with ⟨answer, res⟩
  cases answer with
  | handled => rfl
  | unhandled =>
    simp only [dispatch]
    rcases hverb : verbOf req.method with _ | _ | verb
    · rfl
    · rfl
    · dsimp only
      rw [hfind]
      cases hr : findRoute s verb req.path with
      | none => rfl
      | some r =>
        rw [handlerRun_eq_some.mpr ⟨hanswer, verb, hverb, hr⟩] at h
        cases h

/-! ## Paths -/

/-- The text that a matcher begins with. -/
def Matcher.head : Matcher → Bytes
  | .regex pattern => pattern
  | .pathParams [] _ => []
  | .pathParams (f :: _) _ => f

/-- The handler is registered under `/api/admin/`. -/
def Route.UnderAdmin (r : Route) : Prop := isAdminApiPath r.matcher.head = true

instance (r : Route) : Decidable r.UnderAdmin := inferInstanceAs (Decidable (_ = true))

theorem admin_dotfree : ∀ r ∈ routes, r.UnderAdmin → (46 : UInt8) ∉ r.matcher.head := by
  decide +kernel

theorem isPrefixOf_of_matches {f path : Bytes} {fs : List Bytes} {params : Nat}
    (h : (Matcher.pathParams (f :: fs) params).matches path = true) : f <+: path := by
  simp only [Matcher.matches, pathParamsMatch, Bool.and_eq_true] at h
  exact List.isPrefixOf_iff_prefix.mp h.1.2

theorem isAdminApiPath_of_route {r : Route} {path : Bytes} (hr : r ∈ routes)
    (hadmin : r.UnderAdmin) (h : r.matcher.matches path = true) : isAdminApiPath path = true := by
  have hdot := admin_dotfree r hr hadmin
  unfold Route.UnderAdmin at hadmin
  cases hm : r.matcher with
  | regex pattern =>
    rw [hm] at h hdot hadmin
    rw [regexMatch_eq hdot h]
    exact hadmin
  | pathParams fragments params =>
    rw [hm] at h hadmin
    cases fragments with
    | nil => cases hadmin
    | cons f fs =>
      have hf : f <+: path := isPrefixOf_of_matches h
      have hunder : ascii "/api/admin/" <+: f := List.isPrefixOf_iff_prefix.mp hadmin
      exact List.isPrefixOf_iff_prefix.mpr (hunder.trans hf)

/-- **Exempt paths.** -/
theorem exempt_not_admin {path : Bytes} (h : isAdminApiPath path = true) :
    isAuthExemptPath path = false := by
  obtain ⟨rest, rfl⟩ := List.isPrefixOf_iff_prefix.mp h
  have hlist : ∀ p ∈ authExemptPaths, ¬ ascii "/api/admin/" <+: p := by decide +kernel
  have hauth : ∀ rest, (ascii "/auth/").isPrefixOf (ascii "/api/admin/" ++ rest) = false :=
    fun _ => rfl
  simp only [isAuthExemptPath, hauth, Bool.or_false, List.contains_eq_mem, decide_eq_false_iff_not]
  exact fun hmem => hlist _ hmem (List.prefix_append _ _)

/-! ## The two checks -/

/-- What the pre-routing handler has found out about a request that it lets pass and that is not
exempt. -/
theorem preRouting_unhandled {s : Server} {req : Request} {res : Response}
    (h : preRouting s req = (.unhandled, res)) (hexempt : isAuthExemptPath req.path = false) :
    (DemoAtRouting s req ∧ isAdminApiPath req.path = false) ∨
      (¬ DemoAtRouting s req ∧ s.isValidSession (sessionFromRequest req) = true ∧
        (isAdminApiPath req.path = true → s.isAdminSession (sessionFromRequest req) = true)) := by
  unfold DemoAtRouting
  simp only [preRouting, hexempt, Bool.false_eq_true, ↓reduceIte] at h
  split at h
  · rename_i hdemo
    split at h
    · cases h
    · rename_i hadmin
      exact .inl ⟨hdemo, by simpa using hadmin⟩
  · rename_i hdemo
    right
    split at h
    · split at h <;> cases h
    · rename_i hvalid
      split at h
      · cases h
      · split at h
        · cases h
        · rename_i hadmin
          rw [not_or] at hvalid
          rw [not_and] at hadmin
          exact ⟨hdemo, by simpa using hvalid.2, fun ha => by simpa using hadmin ha⟩

/-- The server, when the state of `WebAuthnRP` and the time are `valid` at the first check and
`admin` at the second one. -/
def Server.asking (s : Server) (cfg : WebAuthnConfig) (valid admin : WebAuthnRP × Int) : Server :=
  { s with
    isValidSession := fun token => (WebAuthn.isValidSession cfg valid.1 valid.2 token).2
    isAdminSession := fun token => (WebAuthn.isAdminSession cfg admin.1 admin.2 token).2 }

section Sessions

variable {cfg : WebAuthnConfig} {cr : Crypto} {creds : List PasskeyCredential}
  {calls : List SessionCall} {rp : WebAuthnRP}

/-- After the calls the token is that of a session that is valid: it was created, not invalidated
since, has not reached its absolute expiry and was never idle for too long. -/
def SessionAt (cfg : WebAuthnConfig) (cr : Crypto) (creds : List PasskeyCredential)
    (calls : List SessionCall) (now : Int) (token : Bytes) : Prop :=
  ∃ l, lifeOf cfg cr token { credentials := creds } none calls = some l ∧ l.ValidAt cfg now

/-- And it was created for an admin. -/
def AdminAt (cfg : WebAuthnConfig) (cr : Crypto) (creds : List PasskeyCredential)
    (calls : List SessionCall) (now : Int) (token : Bytes) : Prop :=
  ∃ l, lifeOf cfg cr token { credentials := creds } none calls = some l ∧ l.ValidAt cfg now ∧
    l.isAdmin = true

/-- What a query finds is the session of a life that is valid. -/
theorem life_of_touch {token : Bytes} {now : Int} {se : Session}
    (hr : run (sessionStep cfg cr) { credentials := creds } calls = some rp)
    (h : (touchSession cfg rp now token).2 = some se) :
    ∃ l, lifeOf cfg cr token { credentials := creds } none calls = some l ∧ l.ValidAt cfg now ∧
      l.isAdmin = se.isAdmin := by
  rw [touchSession_snd, Option.map_eq_some_iff] at h
  obtain ⟨se₀, hse, rfl⟩ := h
  obtain ⟨hse, hexpired⟩ := Option.filter_eq_some_iff.mp hse
  obtain ⟨l, hl, hd⟩ := (followed_of_run token hr).session se₀ hse
  exact ⟨l, hl, (hd.validAt_iff now).mpr (by simpa using hexpired), hd.isAdmin.symm⟩

theorem sessionAt_of_valid {token : Bytes} {now : Int}
    (hr : run (sessionStep cfg cr) { credentials := creds } calls = some rp)
    (h : (WebAuthn.isValidSession cfg rp now token).2 = true) :
    SessionAt cfg cr creds calls now token := by
  obtain ⟨se, hse⟩ := Option.isSome_iff_exists.mp h
  obtain ⟨l, hl, hv, -⟩ := life_of_touch hr hse
  exact ⟨l, hl, hv⟩

theorem adminAt_of_admin {token : Bytes} {now : Int}
    (hr : run (sessionStep cfg cr) { credentials := creds } calls = some rp)
    (h : (WebAuthn.isAdminSession cfg rp now token).2 = true) :
    AdminAt cfg cr creds calls now token := by
  have hany : (touchSession cfg rp now token).2.any (·.isAdmin) = true := h
  obtain ⟨se, hse, hadmin⟩ := (Option.any_eq_true _ _).mp hany
  obtain ⟨l, hl, hv, hl'⟩ := life_of_touch hr hse
  exact ⟨l, hl, hv, hl'.trans hadmin⟩

/-! ## Demo tokens -/

/-- `random` are the 16 bytes drawn. -/
def generateDemoToken (random : Bytes) : Bytes := ascii "demo_" ++ hex random

/-- A call that creates a session draws 32 bytes. -/
def DrawsToken : SessionCall → Prop
  | .other (.completeAuthentication _ _ random) => random.length = 32
  | .createIdentitySession _ random _ _ => random.length = 32
  | _ => True

theorem length_generateDemoToken {random : Bytes} (h : random.length = 16) :
    (generateDemoToken random).length = 37 := by
  have hhex : (hex random).length = 32 := by
    simp [hex, List.length_flatMap, h]
  rw [generateDemoToken, List.length_append, hhex]
  rfl

/-- Session tokens are longer. -/
theorem demo_ne_session {random drawn : Bytes} (h : random.length = 16) (hd : drawn.length = 32) :
    toBase64url drawn ≠ generateDemoToken random := by
  intro heq
  have hlen := congrArg List.length heq
  rw [length_toBase64url, hd, length_generateDemoToken h] at hlen
  omega

/-- A call creates no session with a demo token. -/
theorem effect_demo {random : Bytes} (h : random.length = 16) (rp : WebAuthnRP) {c : SessionCall}
    (hc : DrawsToken c) : (c.effect cfg cr (generateDemoToken random) rp).apply none = none := by
  have huse (now : Int) (token : Bytes) :
      (useEffect cfg (generateDemoToken random) rp now token).apply none = none := by
    unfold useEffect
    split <;> rfl
  cases c with
  | other c =>
    cases c with
    | completeAuthentication t q drawn =>
      simp only [SessionCall.effect]
      cases hr : (completeAuthentication cfg cr rp t q drawn).2 with
      | error e => rfl
      | ok token =>
        have htoken : token = toBase64url drawn := by
          simp only [completeAuthentication] at hr
          split at hr
          · cases hr
          · split at hr <;> cases hr
            rfl
        dsimp only
        rw [htoken, if_neg (demo_ne_session h hc)]
        rfl
    | _ => rfl
  | createIdentitySession t drawn identity isAdmin =>
    simp only [SessionCall.effect]
    rw [if_neg (demo_ne_session h hc)]
    rfl
  | isValidSession now token => exact huse now token
  | isAdminSession now token => exact huse now token
  | getSessionInfo now token => exact huse now token
  | invalidateSession token =>
    simp only [SessionCall.effect]
    split <;> rfl

/-- No session has a demo token. -/
theorem lifeOf_demo {random : Bytes} (h : random.length = 16) (hd : ∀ c ∈ calls, DrawsToken c)
    (rp : WebAuthnRP) : lifeOf cfg cr (generateDemoToken random) rp none calls = none := by
  induction calls generalizing rp with
  | nil => rfl
  | cons c calls ih =>
    obtain ⟨hc, hcalls⟩ := List.forall_mem_cons.mp hd
    unfold lifeOf
    split
    · rfl
    · rw [effect_demo h rp hc]
      exact ih hcalls _

end Sessions

/-! ## The gate -/

private def bareServer : Server where
  limits := Limits.of 7 9 9 9
  hash := fun _ => Fin.last 15
  registered := fun _ => true
  rateLimiter := fun _ => true
  sessionRateLimiter := fun _ => true
  isValidSession := fun _ => false
  isAdminSession := fun _ => false
  demoEnabled := true
  routing := ⟨AList.insert (ascii "demo_17") 1000 ∅, 999⟩
  handling := ⟨AList.insert (ascii "demo_17") 1000 ∅, 999⟩
  now := 999
  plain := fun _ _ res => res
  purge := fun _ _ res => res
  buildDemoSummaryJson := ascii "demo"
  sections := fun _ => []

private def adminToken : Bytes := toBase64url (List.replicate 32 1)

private def purgeRequest : Request where
  method := ascii "POST"
  path := ascii "/api/admin/purge"
  authorization := ascii "Bearer " ++ adminToken

private def adminSignIn : List SessionCall :=
  [.createIdentitySession ⟨0, 1⟩ (List.replicate 32 1) (ascii "a") true]

private def demoRequest : Request where
  method := ascii "GET"
  path := ascii "/api/client/history"
  cookie := ascii "ntm_session=demo_17"

private def signedIn : WebAuthnRP := (createIdentitySession exampleConfig {} ⟨0, 1⟩
  (List.replicate 32 1) (ascii "a") true).1

end TrafficMonitor.Dashboard
