import TrafficMonitor.Server.Login

/-!
# Dashboard sessions

The session calls of `WebAuthnRP`. A session begins with a passkey login or a Sign in with
Apple identity; three functions ask for it, each of which refreshes the last activity of a
session that is valid and erases one that is not; a background sweep erases the expired ones
as well. The three functions share their lookup, `touchSession`.

The history of a token is its `Life`: when and for whom the session was created, and when it
was used since.

Proved here, for every sequence of calls during which the clock does not run backwards:

* `followed_of_run`: what the table holds of a token, against its life;
* `answers_filter`: without its sweeps, a sequence of calls is answered in the same way;
* `session_validity`: when a token is valid, and what the three functions answer.
-/

namespace TrafficMonitor.WebAuthn

open Runs

variable {cfg : WebAuthnConfig} {cr : Crypto}

/-! ## Calls -/

/-- The session of a token, with its last activity now, unless it has expired and is erased. -/
def touchSession (cfg : WebAuthnConfig) (rp : WebAuthnRP) (now : Int) (token : Bytes) :
    WebAuthnRP × Option Session :=
  match rp.sessions token with
  | none => (rp, none)
  | some se =>
    if se.expired cfg now then
      ({ rp with sessions := Function.update rp.sessions token none }, none)
    else
      let se := { se with lastActivity := now }
      ({ rp with sessions := Function.update rp.sessions token (some se) }, some se)

def isValidSession (cfg : WebAuthnConfig) (rp : WebAuthnRP) (now : Int) (token : Bytes) :
    WebAuthnRP × Bool :=
  let (rp, se) := touchSession cfg rp now token
  (rp, se.isSome)

def isAdminSession (cfg : WebAuthnConfig) (rp : WebAuthnRP) (now : Int) (token : Bytes) :
    WebAuthnRP × Bool :=
  let (rp, se) := touchSession cfg rp now token
  (rp, se.any (·.isAdmin))

structure SessionInfo where
  valid : Bool := false
  isAdmin : Bool := false
  identity : Bytes := []
  deriving DecidableEq, Repr

def getSessionInfo (cfg : WebAuthnConfig) (rp : WebAuthnRP) (now : Int) (token : Bytes) :
    WebAuthnRP × SessionInfo :=
  let (rp, se) := touchSession cfg rp now token
  (rp, match se with
    | none => {}
    | some se => ⟨true, se.isAdmin, se.identity⟩)

def invalidateSession (rp : WebAuthnRP) (token : Bytes) : WebAuthnRP :=
  { rp with sessions := Function.update rp.sessions token none }

/-- The new state and the token; `random` are the bytes drawn. -/
def createIdentitySession (cfg : WebAuthnConfig) (rp : WebAuthnRP) (t : Clock)
    (random identity : Bytes) (isAdmin : Bool) : WebAuthnRP × Bytes :=
  let rp := sweepExpired cfg t.sweep rp
  let token := toBase64url random
  ({ rp with
      sessions := Function.update rp.sessions token
        (some ⟨t.now + hours cfg.sessionTtlHours, t.now, isAdmin, identity⟩) }, token)

inductive SessionCall
  /-- Logins, registrations, deletions of credentials and sweeps. -/
  | other (c : Call)
  | createIdentitySession (t : Clock) (random identity : Bytes) (isAdmin : Bool)
  | isValidSession (now : Int) (token : Bytes)
  | isAdminSession (now : Int) (token : Bytes)
  | getSessionInfo (now : Int) (token : Bytes)
  | invalidateSession (token : Bytes)

/-- The state after a call; all calls are enabled. -/
def sessionStep (cfg : WebAuthnConfig) (cr : Crypto) (rp : WebAuthnRP) :
    SessionCall → Option WebAuthnRP
  | .other c => step cfg cr rp c
  | .createIdentitySession t random identity isAdmin =>
    some (createIdentitySession cfg rp t random identity isAdmin).1
  | .isValidSession now token => some (isValidSession cfg rp now token).1
  | .isAdminSession now token => some (isAdminSession cfg rp now token).1
  | .getSessionInfo now token => some (getSessionInfo cfg rp now token).1
  | .invalidateSession token => some (invalidateSession rp token)

/-- What the clock shows during the call. -/
def SessionCall.readings : SessionCall → List Int
  | .other (.beginAuthentication t _ _) => [t.sweep, t.now]
  | .other (.completeAuthentication t _ _) => [t.sweep, t.now]
  | .other (.beginAdminRegistration t _ _ _) => [t.sweep, t.now]
  | .other (.completeAdminRegistration t _) => [t.sweep, t.now]
  | .other (.deleteCredential _) => []
  | .other (.sweep now) => [now]
  | .createIdentitySession t _ _ _ => [t.sweep, t.now]
  | .isValidSession now _ => [now]
  | .isAdminSession now _ => [now]
  | .getSessionInfo now _ => [now]
  | .invalidateSession _ => []

/-- The clock does not run backwards. -/
def Ordered (calls : List SessionCall) : Prop :=
  (calls.flatMap SessionCall.readings).Pairwise (· ≤ ·)

theorem Ordered.of_snoc {calls : List SessionCall} {c : SessionCall} (h : Ordered (calls ++ [c])) :
    Ordered calls ∧ (∀ r ∈ calls.flatMap SessionCall.readings, ∀ t ∈ c.readings, r ≤ t) ∧
      c.readings.Pairwise (· ≤ ·) := by
  rw [Ordered, List.flatMap_append, List.pairwise_append] at h
  simp only [List.flatMap_cons, List.flatMap_nil, List.append_nil] at h
  exact ⟨h.1, h.2.2, h.2.1⟩

theorem Ordered.of_cons {calls : List SessionCall} {c : SessionCall} (h : Ordered (c :: calls)) :
    Ordered calls ∧ (∀ t ∈ c.readings, ∀ r ∈ calls.flatMap SessionCall.readings, t ≤ r) ∧
      c.readings.Pairwise (· ≤ ·) := by
  rw [Ordered, List.flatMap_cons, List.pairwise_append] at h
  exact ⟨h.2.1, h.2.2, h.1⟩

/-! ## The life of a token -/

/-- A session from its creation on: `uses` are the times at which it was found valid, the
latest first. -/
structure Life where
  created : Int
  isAdmin : Bool
  identity : Bytes
  uses : List Int := []
  deriving DecidableEq, Repr

/-- The session as it is entered in the table. -/
def Life.session (cfg : WebAuthnConfig) (l : Life) : Session :=
  ⟨l.created + hours cfg.sessionTtlHours, l.created, l.isAdmin, l.identity⟩

/-- Not after the absolute expiry, and without a gap above the idle timeout up to now, if one
is set. -/
def Life.ValidAt (cfg : WebAuthnConfig) (now : Int) (l : Life) : Prop :=
  now ≤ l.created + hours cfg.sessionTtlHours ∧
    (0 < cfg.idleTimeoutMinutes → (now :: (l.uses ++ [l.created])).IsChain
      fun later earlier => later ≤ earlier + minutes cfg.idleTimeoutMinutes)

/-- What a call means for a token. -/
inductive Effect
  | creates (l : Life)
  | invalidates
  | uses (now : Int)
  | none

def useEffect (cfg : WebAuthnConfig) (T : Bytes) (rp : WebAuthnRP) (now : Int) (token : Bytes) :
    Effect :=
  if token = T ∧ (touchSession cfg rp now token).2.isSome = true then .uses now else .none

def SessionCall.effect (cfg : WebAuthnConfig) (cr : Crypto) (T : Bytes) (rp : WebAuthnRP) :
    SessionCall → Effect
  | .other (.completeAuthentication t q random) =>
    match (completeAuthentication cfg cr rp t q random).2 with
    | .ok token => if token = T then .creates { created := t.now, isAdmin := false, identity := [] }
      else .none
    | .error _ => .none
  | .other _ => .none
  | .createIdentitySession t random identity isAdmin =>
    if toBase64url random = T then .creates ⟨t.now, isAdmin, identity, []⟩ else .none
  | .isValidSession now token => useEffect cfg T rp now token
  | .isAdminSession now token => useEffect cfg T rp now token
  | .getSessionInfo now token => useEffect cfg T rp now token
  | .invalidateSession token => if token = T then .invalidates else .none

def Effect.apply (l : Option Life) : Effect → Option Life
  | .creates l => some l
  | .invalidates => Option.none
  | .uses now => l.map fun l => { l with uses := now :: l.uses }
  | .none => l

/-- The life of the token after the calls, which begin in the state `rp`. -/
def lifeOf (cfg : WebAuthnConfig) (cr : Crypto) (T : Bytes) :
    WebAuthnRP → Option Life → List SessionCall → Option Life
  | _, l, [] => l
  | rp, l, c :: calls => match sessionStep cfg cr rp c with
    | none => l
    | some rp' => lifeOf cfg cr T rp' ((c.effect cfg cr T rp).apply l) calls

theorem lifeOf_snoc {T : Bytes} {rp rp' : WebAuthnRP} {calls : List SessionCall} {c : SessionCall}
    (l : Option Life) (hr : run (sessionStep cfg cr) rp calls = some rp')
    (hs : (sessionStep cfg cr rp' c).isSome = true) :
    lifeOf cfg cr T rp l (calls ++ [c]) =
      (c.effect cfg cr T rp').apply (lifeOf cfg cr T rp l calls) := by
  induction calls generalizing rp l with
  | nil =>
    cases hr
    obtain ⟨rp'', hs⟩ := Option.isSome_iff_exists.mp hs
    simp [lifeOf, hs]
  | cons d calls ih =>
    obtain ⟨rp₁, hd, hr⟩ := run_cons_eq_some.mp hr
    simp only [List.cons_append, lifeOf, hd]
    exact ih _ hr

/-! ## The table -/

/-- The session is that of the life, with its last use. -/
structure Describes (cfg : WebAuthnConfig) (l : Life) (se : Session) : Prop where
  expiry : se.expiry = l.created + hours cfg.sessionTtlHours
  isAdmin : se.isAdmin = l.isAdmin
  identity : se.identity = l.identity
  last : (l.uses ++ [l.created]).head? = some se.lastActivity
  gaps : 0 < cfg.idleTimeoutMinutes → (l.uses ++ [l.created]).IsChain
    fun later earlier => later ≤ earlier + minutes cfg.idleTimeoutMinutes

theorem describes_session (cfg : WebAuthnConfig) (l : Life) (h : l.uses = []) :
    Describes cfg l (l.session cfg) :=
  ⟨rfl, rfl, rfl, by rw [h]; rfl, fun _ => by simp [h]⟩

/-- A session has not expired as long as its life is valid. -/
theorem Describes.validAt_iff {l : Life} {se : Session} (h : Describes cfg l se) (now : Int) :
    l.ValidAt cfg now ↔ se.expired cfg now = false := by
  obtain ⟨last, before, hu⟩ : ∃ last before, l.uses ++ [l.created] = last :: before :=
    List.exists_cons_of_ne_nil (by simp)
  have hl : se.lastActivity = last := by simpa [hu] using h.last.symm
  have hg := h.gaps
  rw [hu] at hg
  simp only [Life.ValidAt, Session.expired, hu, List.isChain_cons_cons, h.expiry, hl,
    Bool.or_eq_false_iff, Bool.and_eq_false_iff, decide_eq_false_iff_not, Int.not_lt]
  constructor
  · rintro ⟨hx, hi⟩
    refine ⟨hx, ?_⟩
    by_cases h0 : 0 < cfg.idleTimeoutMinutes
    · exact .inr (hi h0).1
    · exact .inl h0
  · rintro ⟨hx, hi⟩
    exact ⟨hx, fun h0 => ⟨hi.resolve_left (absurd h0), hg h0⟩⟩

theorem Describes.use {l : Life} {se : Session} {now : Int} (h : Describes cfg l se)
    (hv : se.expired cfg now = false) :
    Describes cfg { l with uses := now :: l.uses } { se with lastActivity := now } where
  expiry := h.expiry
  isAdmin := h.isAdmin
  identity := h.identity
  last := rfl
  gaps h0 := ((h.validAt_iff now).mpr hv).2 h0

/-- What has expired stays expired. -/
theorem Session.expired_mono {se : Session} {r t : Int} (hr : r ≤ t) (h : se.expired cfg r = true) :
    se.expired cfg t = true := by
  simp only [Session.expired, Bool.or_eq_true, Bool.and_eq_true, decide_eq_true_eq] at h ⊢
  omega

theorem Life.ValidAt.mono {l : Life} {r t : Int} (hr : r ≤ t) (h : l.ValidAt cfg t) :
    l.ValidAt cfg r := by
  obtain ⟨hx, hi⟩ := h
  refine ⟨by omega, fun h0 => ?_⟩
  obtain ⟨last, before, hu⟩ : ∃ last before, l.uses ++ [l.created] = last :: before :=
    List.exists_cons_of_ne_nil (by simp)
  have := hi h0
  rw [hu, List.isChain_cons_cons] at this ⊢
  exact ⟨by omega, this.2⟩

/-- What the table holds of a token, when the readings so far are `R`: the session of its life,
or nothing if there is none or it has been seen not to be valid. -/
structure Followed (cfg : WebAuthnConfig) (R : List Int) (se : Option Session) (l : Option Life) :
    Prop where
  session : ∀ s, se = some s → ∃ l₀, l = some l₀ ∧ Describes cfg l₀ s
  gone : ∀ l₀, l = some l₀ → se = none → ∃ r ∈ R, ¬l₀.ValidAt cfg r

/-- Sweeping removes a session that has expired at some reading. -/
theorem Followed.sweep {R : List Int} {se : Option Session} {l : Option Life}
    (h : Followed cfg R se l) (now : Int) :
    Followed cfg (R ++ [now]) (se.filter fun s => !s.expired cfg now) l where
  session s hs := h.session s (Option.filter_eq_some_iff.mp hs).1
  gone l₀ hl hn := by
    cases se with
    | none =>
      obtain ⟨r, hr, hv⟩ := h.gone l₀ hl rfl
      exact ⟨r, List.mem_append_left _ hr, hv⟩
    | some s =>
      obtain ⟨l₁, hl₁, hd⟩ := h.session s rfl
      cases hl.symm.trans hl₁
      refine ⟨now, by simp, fun hv => ?_⟩
      simp [(hd.validAt_iff now).mp hv] at hn

theorem Followed.weaken {R R' : List Int} {se : Option Session} {l : Option Life}
    (h : Followed cfg R se l) (hR : R ⊆ R') : Followed cfg R' se l :=
  ⟨h.session, fun l₀ hl hn => (h.gone l₀ hl hn).imp fun _ hr => ⟨hR hr.1, hr.2⟩⟩

/-- What a query finds. -/
theorem touchSession_snd (rp : WebAuthnRP) (now : Int) (token : Bytes) :
    (touchSession cfg rp now token).2 = ((rp.sessions token).filter fun s => !s.expired cfg now).map
      fun s => { s with lastActivity := now } := by
  unfold touchSession
  cases rp.sessions token with
  | none => rfl
  | some se => cases h : se.expired cfg now <;> simp [h, Option.filter]

/-- What it leaves: for its token what it has found. -/
theorem touchSession_fst (rp : WebAuthnRP) (now : Int) (token : Bytes) :
    (touchSession cfg rp now token).1 =
      { rp with sessions := Function.update rp.sessions token (touchSession cfg rp now token).2 } := by
  unfold touchSession
  cases hs : rp.sessions token with
  | none => simp [← hs]
  | some se => cases h : se.expired cfg now <;> simp [h]

theorem Followed.touch {R : List Int} {rp : WebAuthnRP} {l : Option Life} {T : Bytes}
    (h : Followed cfg R (rp.sessions T) l) (now : Int) (token : Bytes) :
    Followed cfg (R ++ [now]) ((touchSession cfg rp now token).1.sessions T)
      ((useEffect cfg T rp now token).apply l) := by
  rw [touchSession_fst]
  by_cases ht : token = T
  · subst ht
    have hsw := h.sweep now
    simp only [Function.update_self, useEffect, touchSession_snd]
    cases hf : (rp.sessions token).filter fun s => !s.expired cfg now with
    | none =>
      rw [hf] at hsw
      simpa [Effect.apply] using hsw
    | some se =>
      rw [hf] at hsw
      obtain ⟨l₀, rfl, hd⟩ := hsw.session se rfl
      have hv : se.expired cfg now = false := by
        simpa using (Option.filter_eq_some_iff.mp hf).2
      refine ⟨fun s hs => ?_, fun l₁ _ hn => by cases hn⟩
      cases hs
      exact ⟨_, by simp [Effect.apply], hd.use hv⟩
  · simp only [Function.update_of_ne (Ne.symm ht), useEffect, if_neg fun hc => ht (And.left hc)]
    exact h.weaken (by simp)

theorem followed_none (R : List Int) : Followed cfg R none none :=
  ⟨fun _ hs => (Option.some_ne_none _ hs.symm).elim, fun _ hl => (Option.some_ne_none _ hl.symm).elim⟩

/-- A session that is entered in the table. -/
theorem followed_created (R : List Int) (l : Life) (h : l.uses = []) :
    Followed cfg R (some (l.session cfg)) (some l) where
  session _ hs := by cases hs; exact ⟨l, rfl, describes_session cfg l h⟩
  gone _ _ hn := by cases hn

/-- **One call.** -/
theorem followed_step {R : List Int} {rp rp' : WebAuthnRP} {l : Option Life} {T : Bytes}
    {c : SessionCall} (h : Followed cfg R (rp.sessions T) l)
    (hs : sessionStep cfg cr rp c = some rp') :
    Followed cfg (R ++ c.readings) (rp'.sessions T) ((c.effect cfg cr T rp).apply l) := by
  have hsweep (t : Clock) : Followed cfg (R ++ [t.sweep, t.now])
      ((sweepExpired cfg t.sweep rp).sessions T) l :=
    (h.sweep t.sweep).weaken (by simp)
  cases c with
  | other c =>
    cases c with
    | beginAuthentication t challenge key => cases hs; exact hsweep t
    | completeAuthentication t q random =>
      cases hs
      simp only [SessionCall.readings, SessionCall.effect, completeAuthentication]
      split
      · exact hsweep t
      split
      · exact hsweep t
      · simp only [Function.update_apply]
        split
        · rename_i hT
          rw [if_pos hT.symm]
          exact followed_created _ ⟨t.now, false, [], []⟩ rfl
        · rename_i hT
          rw [if_neg (Ne.symm hT)]
          exact hsweep t
    | beginAdminRegistration t challenge key userId => cases hs; exact hsweep t
    | completeAdminRegistration t q =>
      cases hs
      simp only [SessionCall.readings, completeAdminRegistration]
      split
      · exact hsweep t
      · split <;> exact hsweep t
    | deleteCredential credId =>
      cases hs
      exact h.weaken (by simp)
    | sweep now =>
      cases hs
      exact h.sweep now
  | createIdentitySession t random identity isAdmin =>
    cases hs
    simp only [createIdentitySession, Function.update_apply, SessionCall.effect]
    split
    · rename_i hT
      rw [if_pos hT.symm]
      exact followed_created _ ⟨t.now, isAdmin, identity, []⟩ rfl
    · rename_i hT
      rw [if_neg (Ne.symm hT)]
      exact hsweep t
  | isValidSession now token => cases hs; exact h.touch now token
  | isAdminSession now token => cases hs; exact h.touch now token
  | getSessionInfo now token => cases hs; exact h.touch now token
  | invalidateSession token =>
    cases hs
    simp only [invalidateSession, Function.update_apply, SessionCall.effect]
    split
    · rename_i hT
      rw [if_pos hT.symm]
      exact followed_none _
    · rename_i hT
      rw [if_neg (Ne.symm hT)]
      exact h.weaken (by simp)

theorem sessionStep_isSome (cfg : WebAuthnConfig) (cr : Crypto) (rp : WebAuthnRP) (c : SessionCall) :
    (sessionStep cfg cr rp c).isSome = true := by
  cases c with
  | other c => cases c <;> rfl
  | _ => rfl

/-- **What the table holds** of a token after a sequence of calls. -/
theorem followed_of_run {creds : List PasskeyCredential} {calls : List SessionCall}
    {rp : WebAuthnRP} (T : Bytes)
    (hr : run (sessionStep cfg cr) { credentials := creds } calls = some rp) :
    Followed cfg (calls.flatMap SessionCall.readings) (rp.sessions T)
      (lifeOf cfg cr T { credentials := creds } none calls) := by
  induction calls using List.reverseRecOn generalizing rp with
  | nil =>
    cases hr
    exact followed_none _
  | append_singleton calls c ih =>
    obtain ⟨rp₀, hr₀, hs⟩ := run_snoc_eq_some.mp hr
    rw [List.flatMap_append, lifeOf_snoc none hr₀ (sessionStep_isSome cfg cr rp₀ c)]
    simpa using followed_step (ih hr₀) hs

/-- A session that a query finds is that of a life that is valid, and the other way round. -/
theorem Followed.find_iff {R : List Int} {rp : WebAuthnRP} {l : Option Life} {T : Bytes}
    {now : Int} (h : Followed cfg R (rp.sessions T) l) (hR : ∀ r ∈ R, r ≤ now) (l₀ : Life)
    (hl : l = some l₀) :
    (l₀.ValidAt cfg now → ∃ se, (touchSession cfg rp now T).2 = some se ∧
      se.isAdmin = l₀.isAdmin ∧ se.identity = l₀.identity) ∧
    (¬l₀.ValidAt cfg now → (touchSession cfg rp now T).2 = none) := by
  rw [touchSession_snd]
  cases hs : rp.sessions T with
  | none =>
    obtain ⟨r, hr, hv⟩ := h.gone l₀ hl hs
    exact ⟨fun hv' => absurd (hv'.mono (hR r hr)) hv, fun _ => rfl⟩
  | some se =>
    obtain ⟨l₁, hl₁, hd⟩ := h.session se hs
    cases hl.symm.trans hl₁
    rw [hd.validAt_iff]
    refine ⟨fun hv => ⟨{ se with lastActivity := now }, ?_, hd.isAdmin, hd.identity⟩, fun hv => ?_⟩
    · simp [Option.filter, hv]
    · simp [Option.filter, hv]

/-! ## Sweeps -/

inductive Answer
  | valid (b : Bool)
  | admin (b : Bool)
  | info (i : SessionInfo)
  deriving DecidableEq, Repr

/-- The answer to a query. -/
def SessionCall.answer (cfg : WebAuthnConfig) (rp : WebAuthnRP) : SessionCall → Option Answer
  | .isValidSession now token => some (.valid (WebAuthn.isValidSession cfg rp now token).2)
  | .isAdminSession now token => some (.admin (WebAuthn.isAdminSession cfg rp now token).2)
  | .getSessionInfo now token => some (.info (WebAuthn.getSessionInfo cfg rp now token).2)
  | _ => none

/-- The answers to the queries of a sequence of calls. -/
def answers (cfg : WebAuthnConfig) (cr : Crypto) : WebAuthnRP → List SessionCall → List Answer
  | _, [] => []
  | rp, c :: calls => (c.answer cfg rp).toList ++ match sessionStep cfg cr rp c with
    | none => []
    | some rp' => answers cfg cr rp' calls

def SessionCall.isSweep : SessionCall → Bool
  | .other (.sweep _) => true
  | _ => false

/-- The two states are the same after a sweep. -/
def Agree (cfg : WebAuthnConfig) (now : Int) (rp rp' : WebAuthnRP) : Prop :=
  sweepExpired cfg now rp = sweepExpired cfg now rp'

theorem filter_sweep {now t : Int} (h : now ≤ t) (se : Option Session) :
    (se.filter fun se => !se.expired cfg now).filter (fun se => !se.expired cfg t) =
      se.filter fun se => !se.expired cfg t := by
  rw [Option.filter_filter]
  congr 1
  funext se
  cases hx : se.expired cfg now with
  | false => simp
  | true => simp [Session.expired_mono h hx]

theorem sweep_sweep {now t : Int} (h : now ≤ t) (rp : WebAuthnRP) :
    sweepExpired cfg t (sweepExpired cfg now rp) = sweepExpired cfg t rp := by
  have hp (p : Option Pending) : (p.filter fun p => !(now > p.expiry)).filter
      (fun p => !(t > p.expiry)) = p.filter fun p => !(t > p.expiry) := by
    rw [Option.filter_filter]
    congr 1
    funext p
    by_cases hp : t > p.expiry
    · simp [hp]
    · have : ¬now > p.expiry := by omega
      simp [hp, this]
  simp only [sweepExpired, hp, filter_sweep h]

theorem Agree.mono {now t : Int} {rp rp' : WebAuthnRP} (h : now ≤ t) (ha : Agree cfg now rp rp') :
    Agree cfg t rp rp' := by
  rw [Agree, ← sweep_sweep h rp, ha, sweep_sweep h rp']

theorem agree_sweep {now t : Int} {rp rp' : WebAuthnRP} (h : now ≤ t) (ha : Agree cfg now rp rp') :
    Agree cfg t (sweepExpired cfg now rp) rp' := by
  rw [Agree, sweep_sweep h, ha.mono h]

theorem agree_iff {now : Int} {rp rp' : WebAuthnRP} : Agree cfg now rp rp' ↔
    (sweepExpired cfg now rp).pendingRegs = (sweepExpired cfg now rp').pendingRegs ∧
    (sweepExpired cfg now rp).pendingAuths = (sweepExpired cfg now rp').pendingAuths ∧
    (∀ k, (rp.sessions k).filter (fun se => !se.expired cfg now) =
      (rp'.sessions k).filter fun se => !se.expired cfg now) ∧
    rp.credentials = rp'.credentials := by
  simp only [Agree, sweepExpired, WebAuthnRP.mk.injEq]
  exact and_congr_right fun _ => and_congr_right fun _ => and_congr_left fun _ => funext_iff

/-- The same entry of a token on both sides. -/
theorem Agree.update {now : Int} {rp rp' : WebAuthnRP} (ha : Agree cfg now rp rp') (token : Bytes)
    (se : Option Session) : Agree cfg now
      { rp with sessions := Function.update rp.sessions token se }
      { rp' with sessions := Function.update rp'.sessions token se } := by
  obtain ⟨hregs, hauths, hsessions, hcreds⟩ := agree_iff.mp ha
  refine agree_iff.mpr ⟨hregs, hauths, fun k => ?_, hcreds⟩
  by_cases hk : k = token
  · simp [hk]
  · simpa [hk] using hsessions k

/-- A query answers the same on both sides. -/
theorem Agree.touch {now t : Int} {rp rp' : WebAuthnRP} (ha : Agree cfg now rp rp') (h : now ≤ t)
    (token : Bytes) : (touchSession cfg rp t token).2 = (touchSession cfg rp' t token).2 ∧
      Agree cfg t (touchSession cfg rp t token).1 (touchSession cfg rp' t token).1 := by
  have hsnd : (touchSession cfg rp t token).2 = (touchSession cfg rp' t token).2 := by
    rw [touchSession_snd, touchSession_snd, (agree_iff.mp (ha.mono h)).2.2.1 token]
  refine ⟨hsnd, ?_⟩
  rw [touchSession_fst, touchSession_fst, hsnd]
  exact (ha.mono h).update token _

/-- The other calls begin with a sweep, except deletions. -/
theorem step_sweep {c : Call} {s : Int} (h : (SessionCall.other c).readings.head? = some s)
    (rp : WebAuthnRP) : step cfg cr (sweepExpired cfg s rp) c = step cfg cr rp c := by
  cases c with
  | deleteCredential credId => cases h
  | sweep now =>
    cases h
    simp only [step, sweep_sweep (le_refl s)]
  | beginAuthentication t challenge key =>
    cases h
    simp only [step, beginAuthentication, sweep_sweep (le_refl t.sweep)]
  | completeAuthentication t q random =>
    cases h
    simp only [step, completeAuthentication, sweep_sweep (le_refl t.sweep)]
  | beginAdminRegistration t challenge key userId =>
    cases h
    simp only [step, beginAdminRegistration, sweep_sweep (le_refl t.sweep)]
  | completeAdminRegistration t q =>
    cases h
    simp only [step, completeAdminRegistration, sweep_sweep (le_refl t.sweep)]

/-- One call on two states that agree: the answers are the same, and the states agree
afterwards. -/
theorem Agree.call (cr : Crypto) {now t : Int} {rp rp' : WebAuthnRP} {c : SessionCall}
    (ha : Agree cfg now rp rp')
    (hnow : ∀ r ∈ c.readings, now ≤ r) (ht : ∀ r ∈ c.readings, r ≤ t) (hle : now ≤ t) :
    c.answer cfg rp = c.answer cfg rp' ∧ ∃ rp₁ rp₁', sessionStep cfg cr rp c = some rp₁ ∧
      sessionStep cfg cr rp' c = some rp₁' ∧ Agree cfg t rp₁ rp₁' := by
  have hquery {s : Int} (hs : s ∈ c.readings) (token : Bytes) :=
    And.imp id (Agree.mono (ht s hs)) (ha.touch (hnow s hs) token)
  cases c with
  | other c =>
    refine ⟨rfl, ?_⟩
    cases hs : (SessionCall.other c).readings.head? with
    | some s =>
      have heq : step cfg cr rp c = step cfg cr rp' c := by
        rw [← step_sweep hs rp, ha.mono (hnow s (List.mem_of_head? hs)), step_sweep hs]
      obtain ⟨rp₁, h₁⟩ :=
        Option.isSome_iff_exists.mp (sessionStep_isSome cfg cr rp (.other c))
      exact ⟨rp₁, rp₁, h₁, heq.symm.trans h₁, rfl⟩
    | none =>
      cases c with
      | deleteCredential credId =>
        obtain ⟨hregs, hauths, hsessions, hcreds⟩ := agree_iff.mp (ha.mono hle)
        refine ⟨_, _, rfl, rfl, agree_iff.mpr ⟨hregs, hauths, hsessions, ?_⟩⟩
        simp only [deleteCredential, hcreds]
      | _ => cases hs
  | createIdentitySession u random identity isAdmin =>
    refine ⟨rfl, _, _, rfl, rfl, ?_⟩
    have h : sweepExpired cfg u.sweep rp = sweepExpired cfg u.sweep rp' :=
      ha.mono (hnow _ (by simp [SessionCall.readings]))
    simp only [createIdentitySession, h]
    rfl
  | isValidSession s token =>
    obtain ⟨h, hst⟩ := hquery (List.mem_singleton_self s) token
    exact ⟨by simp [SessionCall.answer, isValidSession, h], _, _, rfl, rfl, hst⟩
  | isAdminSession s token =>
    obtain ⟨h, hst⟩ := hquery (List.mem_singleton_self s) token
    exact ⟨by simp [SessionCall.answer, isAdminSession, h], _, _, rfl, rfl, hst⟩
  | getSessionInfo s token =>
    obtain ⟨h, hst⟩ := hquery (List.mem_singleton_self s) token
    exact ⟨by simp [SessionCall.answer, getSessionInfo, h], _, _, rfl, rfl, hst⟩
  | invalidateSession token => exact ⟨rfl, _, _, rfl, rfl, (ha.mono hle).update token none⟩

/-- **Sweeps.** Without its sweeps, a sequence of calls has the same answers. -/
theorem answers_filter {calls : List SessionCall} (now : Int) {rp rp' : WebAuthnRP}
    (ha : Agree cfg now rp rp') (ht : Ordered calls)
    (hnow : ∀ r ∈ calls.flatMap SessionCall.readings, now ≤ r) :
    answers cfg cr rp calls = answers cfg cr rp' (calls.filter (!·.isSweep)) := by
  induction calls generalizing now rp rp' with
  | nil => rfl
  | cons c calls ih =>
    obtain ⟨ht', hle, hpair⟩ := ht.of_cons
    simp only [List.flatMap_cons, List.mem_append] at hnow
    have hlast : ∃ t, now ≤ t ∧ (∀ r ∈ c.readings, r ≤ t) ∧
        ∀ r ∈ calls.flatMap SessionCall.readings, t ≤ r := by
      cases hr : c.readings.getLast? with
      | none =>
        rw [List.getLast?_eq_none_iff] at hr
        exact ⟨now, le_refl now, by simp [hr], fun r h => hnow r (.inr h)⟩
      | some t =>
        have hmem := List.mem_of_getLast? hr
        refine ⟨t, hnow t (.inl hmem), fun r h => ?_, hle t hmem⟩
        obtain ⟨front, hf⟩ := List.getLast?_eq_some_iff.mp hr
        rw [hf, List.pairwise_append] at hpair
        rw [hf, List.mem_append, List.mem_singleton] at h
        rcases h with h | rfl
        · exact hpair.2.2 r h t (List.mem_singleton_self t)
        · exact le_refl r
    obtain ⟨t, hnt, hrt, htr⟩ := hlast
    cases hsw : c.isSweep with
    | true =>
      obtain ⟨s, rfl⟩ : ∃ s, c = .other (.sweep s) := by
        cases c with
        | other c => cases c <;> first | exact ⟨_, rfl⟩ | cases hsw
        | _ => cases hsw
      have hs := hnow s (.inl (by simp [SessionCall.readings]))
      have hst := hle s (by simp [SessionCall.readings])
      rw [List.filter_cons_of_neg (by simp [hsw])]
      exact ih s (agree_sweep (le_refl s) (ha.mono hs)) ht' hst
    | false =>
      obtain ⟨hans, rp₁, rp₁', h₁, h₁', hagree⟩ :=
        ha.call cr (fun r h => hnow r (.inl h)) hrt hnt
      rw [List.filter_cons_of_pos (by simp [hsw])]
      simp only [answers, h₁, h₁', hans]
      rw [ih t hagree ht' htr]

/-- **Session validity.** After every sequence of calls: a token is valid exactly if it has a
life (it was created, and not invalidated since) that is valid now; the three queries agree on
it, and on the role and the identity given at its creation; and the sweeps have changed no
answer. -/
theorem session_validity {creds : List PasskeyCredential} {calls : List SessionCall}
    {rp : WebAuthnRP} (hr : run (sessionStep cfg cr) { credentials := creds } calls = some rp)
    (token : Bytes) (now : Int) (ht : Ordered (calls ++ [.isValidSession now token])) :
    ((isValidSession cfg rp now token).2 = true ↔
      ∃ l, lifeOf cfg cr token { credentials := creds } none calls = some l ∧ l.ValidAt cfg now) ∧
    (getSessionInfo cfg rp now token).2.valid = (isValidSession cfg rp now token).2 ∧
    ((isAdminSession cfg rp now token).2 = true ↔
      ∃ l, lifeOf cfg cr token { credentials := creds } none calls = some l ∧
        l.ValidAt cfg now ∧ l.isAdmin = true) ∧
    (∀ l, lifeOf cfg cr token { credentials := creds } none calls = some l → l.ValidAt cfg now →
      (getSessionInfo cfg rp now token).2 = ⟨true, l.isAdmin, l.identity⟩) ∧
    answers cfg cr { credentials := creds } calls =
      answers cfg cr { credentials := creds } (calls.filter (!·.isSweep)) := by
  obtain ⟨ht', hle, -⟩ := ht.of_snoc
  have hfollowed := followed_of_run token hr
  have hR : ∀ r ∈ calls.flatMap SessionCall.readings, r ≤ now := fun r hr =>
    hle r hr now (by simp [SessionCall.readings])
  have hsweeps : answers cfg cr { credentials := creds } calls =
      answers cfg cr { credentials := creds } (calls.filter (!·.isSweep)) := by
    cases hcs : calls.flatMap SessionCall.readings with
    | nil => exact answers_filter 0 rfl ht' (by simp [hcs])
    | cons r rs =>
      refine answers_filter r rfl ht' fun s hs => ?_
      rw [Ordered, hcs, List.pairwise_cons] at ht'
      rw [hcs, List.mem_cons] at hs
      rcases hs with rfl | hs
      · exact le_refl s
      · exact ht'.1 s hs
  cases hl : lifeOf cfg cr token { credentials := creds } none calls with
  | none =>
    have hnone : (touchSession cfg rp now token).2 = none := by
      rw [touchSession_snd]
      cases hs : rp.sessions token with
      | none => rfl
      | some se =>
        obtain ⟨l, hl', -⟩ := hfollowed.session se hs
        exact absurd (hl.symm.trans hl') (Option.some_ne_none l).symm
    simp [isValidSession, getSessionInfo, isAdminSession, hnone, hsweeps]
  | some l =>
    obtain ⟨hvalid, hinvalid⟩ := hfollowed.find_iff hR l hl
    by_cases hv : l.ValidAt cfg now
    · obtain ⟨se, hse, hadmin, hid⟩ := hvalid hv
      simp [isValidSession, getSessionInfo, isAdminSession, hse, hv, hadmin, hid, hsweeps]
    · simp [isValidSession, getSessionInfo, isAdminSession, hinvalid hv, hv, hsweeps]

/-- Two sessions, of an administrator and of a user; the second one is invalidated. -/
def exampleSessions : List SessionCall :=
  [.createIdentitySession ⟨0, 1⟩ (List.replicate 32 1) (ascii "a") true,
    .createIdentitySession ⟨2, 3⟩ (List.replicate 32 2) (ascii "b") false,
    .getSessionInfo 4 (toBase64url (List.replicate 32 1)), .other (.sweep 5),
    .invalidateSession (toBase64url (List.replicate 32 2))]

theorem session_validity_identity :
    ∃ rp, run (sessionStep exampleConfig exampleCrypto) {} exampleSessions = some rp ∧
      ((isValidSession exampleConfig rp 6 (toBase64url (List.replicate 32 1))).2 = true ↔
        ∃ l, lifeOf exampleConfig exampleCrypto (toBase64url (List.replicate 32 1)) {} none
          exampleSessions = some l ∧ l.ValidAt exampleConfig 6) :=
  ⟨_, rfl, (session_validity rfl (toBase64url (List.replicate 32 1)) 6
    (by unfold Ordered; decide)).1⟩

end TrafficMonitor.WebAuthn
