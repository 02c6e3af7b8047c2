import TrafficMonitor.Server.CredentialStore

/-!
# Signature counters

The counters of the credentials over runs of calls and restarts. A call that changes the
credentials rewrites their file; a restart forgets everything else and loads the file.

Proved here:

* `counter_step`: a login moves the counter of its credential upwards, or leaves it;
* `counters_increase`: in every run the nonzero counters that a credential is used with are
  strictly increasing, when the authenticator data name the relying party and have the user
  present.
-/

namespace TrafficMonitor.WebAuthn

open Bytes Cbor Runs

variable {cfg : WebAuthnConfig} {cr : Crypto}

/-! ## The service -/

/-- The relying party and the content of the credentials file. -/
structure Service where
  rp : WebAuthnRP := {}
  file : Bytes := []

inductive Event
  | call (c : Call)
  | restart

/-- The calls that end with `saveCredentials`. -/
def Call.saves (cfg : WebAuthnConfig) (cr : Crypto) (rp : WebAuthnRP) : Call → Bool
  | .completeAuthentication t q token => (WebAuthn.completeAuthentication cfg cr rp t q token).2.isOk
  | .completeAdminRegistration t q => (WebAuthn.completeAdminRegistration cfg cr rp t q).2 = []
  | .deleteCredential credId => (WebAuthn.deleteCredential rp credId).2
  | _ => false

def Service.step (cfg : WebAuthnConfig) (cr : Crypto) (s : Service) : Event → Option Service
  | .call c => (WebAuthn.step cfg cr s.rp c).map fun rp =>
    ⟨rp, if c.saves cfg cr s.rp then saveCredentials rp.credentials else s.file⟩
  | .restart => some { s with rp := { credentials := loadCredentials s.file [] } }

/-! ## Counters of a credential -/

/-- The signature counter in authenticator data. -/
def counterOf (authData : Bytes) : Nat := beNat ((authData.drop 33).take 4)

/-- The credential that a login is checked against. -/
def usedBy (cfg : WebAuthnConfig) (cr : Crypto) (credentials : List PasskeyCredential)
    (q : Assertion) : Option PasskeyCredential :=
  let parsed := parseAuthData (cr.sha256 cfg.rpId) (fromBase64url q.authenticatorData) false
  let credId := if parsed.accepted then parsed.credId else q.credentialId
  credentials.find? fun c => c.credId = q.credentialId || c.credId = credId

/-- The nonzero counter of a login that succeeds with the credential. -/
def Event.counter (cfg : WebAuthnConfig) (cr : Crypto) (credId : Bytes) (s : Service) :
    Event → Option Nat
  | .call (.completeAuthentication t q token) =>
    if (completeAuthentication cfg cr s.rp t q token).2.isOk &&
        (usedBy cfg cr s.rp.credentials q).any (·.credId = credId) &&
        counterOf (fromBase64url q.authenticatorData) ≠ 0 then
      some (counterOf (fromBase64url q.authenticatorData))
    else none
  | _ => none

/-- The counters that the credential is used with in a run, in order. -/
def counters (cfg : WebAuthnConfig) (cr : Crypto) (credId : Bytes) : Service → List Event → List Nat
  | _, [] => []
  | s, e :: es => (e.counter cfg cr credId s).toList ++ match s.step cfg cr e with
    | none => []
    | some s' => counters cfg cr credId s' es

/-- The label of a new credential needs no escapes. -/
def Event.CleanLabel : Event → Prop
  | .call (.completeAdminRegistration _ q) => Clean q.label
  | _ => True

/-- The authenticator data of a login are well formed, name the relying party and have the user
present. -/
def Event.Presented (cfg : WebAuthnConfig) (cr : Crypto) : Event → Prop
  | .call (.completeAuthentication _ q _) =>
    WellFormed (fromBase64url q.authenticatorData) ∧
      (fromBase64url q.authenticatorData).take 32 = cr.sha256 cfg.rpId ∧
      UserPresent (fromBase64url q.authenticatorData)
  | _ => True

/-- The credential stays: it is not deleted, and a restart does not pass over its empty id. -/
def Event.Keeps (credId : Bytes) : Event → Prop
  | .call (.deleteCredential id) => id ≠ credId
  | .restart => credId ≠ []
  | _ => True

/-! ## Loading -/

theorem readArray_nameless {c : PasskeyCredential} (h : Stored c) (hid : c.credId = [])
    (hl : Clean c.label) (t : Bytes) : readArray 0 (record c ++ t) = readArray 0 t := by
  have hobj : takeObject 0 false NUL (front c (c.label ++ QUOTE :: RBRACE :: t)) =
      front c (c.label ++ QUOTE :: [RBRACE]) := by
    rw [takeObject_front h, takeObject_string _ hl (by decide)]
    simp [takeObject, show RBRACE ≠ QUOTE by decide, show RBRACE ≠ LBRACE by decide]
  have hrecord : front c (c.label ++ QUOTE :: [RBRACE]) = record c := by
    rw [← record_append, List.append_nil]
  have hincomplete : ¬(readObject (front c (c.label ++ QUOTE :: [RBRACE]))).complete = true := by
    simp [readObject_front h, PasskeyCredential.complete, hid]
  rw [record_append, readArray_front hobj]
  dsimp only
  rw [if_neg hincomplete, hrecord, ← record_append, List.drop_left]

/-- Loading passes over the credentials without an id. -/
theorem loadCredentials_filter {cs : List PasskeyCredential}
    (h : ∀ c ∈ cs, Stored c ∧ Clean c.label) (old : List PasskeyCredential) :
    loadCredentials (saveCredentials cs) old = cs.filter (·.credId ≠ []) := by
  rw [loadCredentials_saveCredentials]
  induction cs with
  | nil => simp [recordsText, arrayEnd, readArray, ascii, RBRACKET, LBRACE]
  | cons c cs ih =>
    obtain ⟨hc, hl⟩ := h c (by simp)
    have ih := ih fun d hd => h d (List.mem_cons_of_mem _ hd)
    have htext : readArray 0 (recordsText (c :: cs) ++ arrayEnd) =
        readArray 0 (record c ++ (recordsText cs ++ arrayEnd)) := by
      simp only [recordsText, List.append_assoc, readArray_comma]
    rw [htext]
    by_cases hid : c.credId = []
    · rw [readArray_nameless hc hid hl, ih, List.filter_cons_of_neg (by simpa using hid)]
    · rw [readArray_record hc hid hl, ih, List.filter_cons_of_pos (by simpa using hid)]

/-! ## A login -/

theorem lookmap_append {α : Type*} {f : α → Option α} {before after : List α} {a b : α}
    (hn : ∀ x ∈ before, f x = none) (ha : f a = some b) :
    (before ++ a :: after).lookmap f = before ++ b :: after := by
  induction before with
  | nil => exact List.lookmap_cons_some f after ha
  | cons x before ih =>
    rw [List.cons_append, List.lookmap_cons_none f _ (hn x (by simp)),
      ih fun y hy => hn y (by simp [hy]), List.cons_append]

/-- What a login that succeeds does to the credentials. -/
theorem checkAssertion_used {rp : WebAuthnRP} {now : Int} {pa : Pending} {q : Assertion}
    {creds : List PasskeyCredential} (h : checkAssertion cfg cr rp now pa q = .ok creds) :
    let n := (parseAuthData (cr.sha256 cfg.rpId) (fromBase64url q.authenticatorData) false).signCount
    ∃ stored before after, usedBy cfg cr rp.credentials q = some stored ∧
      rp.credentials = before ++ stored :: after ∧
      (n = 0 ∧ creds = rp.credentials ∨
        stored.signCount < n ∧ creds = before ++ { stored with signCount := n } :: after) := by
  simp only [checkAssertion] at h
  split at h
  · cases h
  split at h
  · cases h
  split at h
  · cases h
  rename_i stored hfind
  split at h
  · cases h
  split at h
  · cases h
  rename_i hreplay
  obtain ⟨hp, before, after, hsplit, hbefore⟩ := List.find?_eq_some_iff_append.mp hfind
  refine ⟨stored, before, after, hfind, hsplit, ?_⟩
  split at h
  · rename_i hne
    cases h
    refine .inr ⟨by omega, ?_⟩
    rw [hsplit]
    refine lookmap_append (fun c hc => if_neg ?_) (if_pos hp)
    simpa using hbefore c hc
  · rename_i hzero
    cases h
    exact .inl ⟨not_not.mp hzero, rfl⟩

theorem completeAuthentication_cases (rp : WebAuthnRP) (t : Clock) (q : Assertion) (token : Bytes) :
    let r := completeAuthentication cfg cr rp t q token
    r.2.isOk = false ∧ r.1.credentials = rp.credentials ∨
      r.2.isOk = true ∧ ∃ pa, checkAssertion cfg cr (sweepExpired cfg t.sweep rp) t.now pa q =
        .ok r.1.credentials := by
  simp only [completeAuthentication]
  split
  · exact .inl ⟨rfl, rfl⟩
  · split
    · exact .inl ⟨rfl, rfl⟩
    · rename_i pa _ _ creds hok
      exact .inr ⟨rfl, pa, hok⟩

theorem checkAttestation_refused {rp : WebAuthnRP} {now : Int} {pr : Pending} {q : Attestation}
    {e : Bytes} (h : checkAttestation cfg cr rp now pr q = .error e) : e ≠ [] := by
  simp only [checkAttestation] at h
  split at h
  · cases h
    decide
  split at h
  · rename_i e' hcd
    cases h
    simp only [checkClientData] at hcd
    split at hcd
    · cases hcd
      decide
    split at hcd
    · cases hcd
      decide
    split at hcd
    · cases hcd
      decide
    split at hcd
    · cases hcd
      simp [ascii]
    · cases hcd
  split at h
  · cases h
    decide
  split at h
  · cases h
    decide
  split at h
  · cases h
    decide
  · cases h

theorem completeAdminRegistration_cases (rp : WebAuthnRP) (t : Clock) (q : Attestation) :
    let r := completeAdminRegistration cfg cr rp t q
    r.2 ≠ [] ∧ r.1.credentials = rp.credentials ∨
      r.2 = [] ∧ ∃ pr c, checkAttestation cfg cr (sweepExpired cfg t.sweep rp) t.now pr q = .ok c ∧
        r.1.credentials = rp.credentials ++ [c] := by
  simp only [completeAdminRegistration]
  split
  · exact .inl ⟨(by decide : ascii "invalid or expired session" ≠ []), rfl⟩
  · split
    · rename_i e herror
      exact .inl ⟨checkAttestation_refused herror, rfl⟩
    · rename_i pr _ _ c hok
      exact .inr ⟨rfl, pr, c, hok, rfl⟩

/-- What an event does to the credentials and to their file. -/
inductive Change (cfg : WebAuthnConfig) (cr : Crypto) (s : Service) : Event → Service → Prop
  | none {e : Event} {s' : Service} : (∀ credId, e.counter cfg cr credId s = Option.none) →
      s'.rp.credentials = s.rp.credentials → s'.file = s.file → Change cfg cr s e s'
  | login {t : Clock} {q : Assertion} {token : Bytes} {s' : Service} {now : Int} {pa : Pending} :
      (completeAuthentication cfg cr s.rp t q token).2.isOk = true →
      checkAssertion cfg cr (sweepExpired cfg t.sweep s.rp) now pa q = .ok s'.rp.credentials →
      s'.file = saveCredentials s'.rp.credentials →
      Change cfg cr s (.call (.completeAuthentication t q token)) s'
  | registration {t : Clock} {q : Attestation} {s' : Service} {now : Int} {pr : Pending}
      {c : PasskeyCredential} :
      checkAttestation cfg cr (sweepExpired cfg t.sweep s.rp) now pr q = .ok c →
      s'.rp.credentials = s.rp.credentials ++ [c] →
      s'.file = saveCredentials s'.rp.credentials →
      Change cfg cr s (.call (.completeAdminRegistration t q)) s'
  | deletion {credId : Bytes} {s' : Service} :
      s'.rp.credentials = s.rp.credentials.eraseP (·.credId = credId) →
      s'.file = saveCredentials s'.rp.credentials →
      Change cfg cr s (.call (.deleteCredential credId)) s'
  | restart {s' : Service} : s'.rp.credentials = loadCredentials s.file [] →
      s'.file = s.file → Change cfg cr s .restart s'

theorem change_of_call {s : Service} {rp' : WebAuthnRP} {c : Call}
    (h : WebAuthn.step cfg cr s.rp c = some rp') :
    Change cfg cr s (.call c)
      ⟨rp', if c.saves cfg cr s.rp then saveCredentials rp'.credentials else s.file⟩ := by
  cases c with
  | beginAuthentication t challenge key =>
    cases h
    exact .none (fun _ => rfl) rfl rfl
  | beginAdminRegistration t challenge key userId =>
    cases h
    exact .none (fun _ => rfl) rfl rfl
  | sweep now =>
    cases h
    exact .none (fun _ => rfl) rfl rfl
  | deleteCredential credId =>
    cases h
    simp only [Call.saves, deleteCredential]
    by_cases hany : s.rp.credentials.any (·.credId = credId) = true
    · exact .deletion rfl (if_pos hany)
    · refine .none (fun _ => rfl) ?_ (if_neg hany)
      exact List.eraseP_of_forall_not fun c hc hid =>
        hany (List.any_eq_true.mpr ⟨c, hc, hid⟩)
  | completeAuthentication t q token =>
    cases h
    rcases @completeAuthentication_cases cfg cr s.rp t q token with
      ⟨hok, hcreds⟩ | ⟨hok, pa, hcheck⟩
    · exact .none (fun _ => by simp [Event.counter, hok]) hcreds (if_neg (by simp [Call.saves, hok]))
    · exact .login hok hcheck (if_pos hok)
  | completeAdminRegistration t q =>
    cases h
    rcases @completeAdminRegistration_cases cfg cr s.rp t q with
      ⟨hok, hcreds⟩ | ⟨hok, pr, c, hcheck, hcreds⟩
    · exact .none (fun _ => rfl) hcreds (if_neg (by simp [Call.saves, hok]))
    · exact .registration hcheck hcreds (if_pos (decide_eq_true hok))

theorem change_of_step {s s' : Service} {e : Event} (h : s.step cfg cr e = some s') :
    Change cfg cr s e s' := by
  cases e with
  | call c =>
    obtain ⟨rp', hs, rfl⟩ := Option.map_eq_some_iff.mp h
    exact change_of_call hs
  | restart =>
    cases h
    exact .restart rfl rfl

/-! ## Runs -/

/-- The ids are those of one credential each, and the file holds the credentials that have an id. -/
structure Good (s : Service) : Prop where
  stored : ∀ c ∈ s.rp.credentials, Stored c ∧ Clean c.label
  nodup : (s.rp.credentials.map (·.credId)).Nodup
  file : loadCredentials s.file [] = s.rp.credentials.filter (·.credId ≠ [])

theorem Good.saved {s : Service} (stored : ∀ c ∈ s.rp.credentials, Stored c ∧ Clean c.label)
    (nodup : (s.rp.credentials.map (·.credId)).Nodup)
    (file : s.file = saveCredentials s.rp.credentials) : Good s :=
  ⟨stored, nodup, by rw [file, loadCredentials_filter stored]⟩

/-- A login keeps the ids and the labels. -/
theorem ids_of_checkAssertion {rp : WebAuthnRP} {now : Int} {pa : Pending} {q : Assertion}
    {creds : List PasskeyCredential} (h : checkAssertion cfg cr rp now pa q = .ok creds) :
    creds.map (·.credId) = rp.credentials.map (·.credId) ∧
      creds.map (·.label) = rp.credentials.map (·.label) := by
  obtain ⟨stored, before, after, -, hsplit, ⟨-, rfl⟩ | ⟨-, rfl⟩⟩ := checkAssertion_used h
  · exact ⟨rfl, rfl⟩
  · rw [hsplit]
    simp

theorem label_of_checkAttestation {rp : WebAuthnRP} {now : Int} {pr : Pending} {q : Attestation}
    {c : PasskeyCredential} (h : checkAttestation cfg cr rp now pr q = .ok c) :
    c.label = (if q.label = [] then ascii "My Device" else q.label) ∧
      c.credId ∉ rp.credentials.map (·.credId) := by
  simp only [checkAttestation] at h
  split at h
  · cases h
  split at h
  · cases h
  split at h
  · cases h
  split at h
  · cases h
  split at h
  · cases h
  rename_i hany
  cases h
  refine ⟨rfl, ?_⟩
  simpa using hany

theorem good_step {s s' : Service} {e : Event} (hg : Good s) (hl : e.CleanLabel)
    (h : s.step cfg cr e = some s') : Good s' := by
  cases change_of_step h with
  | none hcounter hcreds hfile =>
    refine ⟨?_, ?_, ?_⟩
    · rw [hcreds]
      exact hg.stored
    · rw [hcreds]
      exact hg.nodup
    · rw [hcreds, hfile]
      exact hg.file
  | login hok hcheck hfile =>
    obtain ⟨hids, hlabels⟩ := ids_of_checkAssertion hcheck
    have hstored := stored_of_checkAssertion (fun c hc => (hg.stored c hc).1) hcheck
    refine .saved (fun c hc => ⟨hstored c hc, ?_⟩) (by rw [hids]; exact hg.nodup) hfile
    have hmem := List.mem_map_of_mem (f := PasskeyCredential.label) hc
    rw [hlabels] at hmem
    obtain ⟨d, hd, hdl⟩ := List.mem_map.mp hmem
    exact hdl ▸ (hg.stored d hd).2
  | registration hcheck hcreds hfile =>
    obtain ⟨hlabel, hnew⟩ := label_of_checkAttestation hcheck
    refine .saved (fun c hc => ?_) ?_ hfile
    · rw [hcreds] at hc
      rcases List.mem_append.mp hc with hc | hc
      · exact hg.stored c hc
      · obtain rfl := List.mem_singleton.mp hc
        refine ⟨stored_of_checkAttestation hcheck, ?_⟩
        rw [hlabel]
        split
        · unfold Clean
          decide
        · exact hl
    · rw [hcreds, List.map_append, List.nodup_append]
      refine ⟨hg.nodup, by simp, fun a ha b hb hab => hnew ?_⟩
      obtain rfl := hab.trans (List.mem_singleton.mp hb)
      exact ha
  | deletion hcreds hfile =>
    refine .saved (fun c hc => ?_) ?_ hfile
    · rw [hcreds] at hc
      exact hg.stored c (List.mem_of_mem_eraseP hc)
    · rw [hcreds]
      exact hg.nodup.sublist (List.eraseP_sublist.map _)
  | restart hcreds hfile =>
    rw [hg.file] at hcreds
    refine ⟨fun c hc => ?_, ?_, ?_⟩
    · rw [hcreds] at hc
      exact hg.stored c (List.mem_of_mem_filter hc)
    · rw [hcreds]
      exact hg.nodup.sublist (List.filter_sublist.map _)
    · rw [hfile, hg.file, hcreds, List.filter_filter]
      simp

theorem signCount_of_accepted {rpHash authData : Bytes}
    (h : (parseAuthData rpHash authData false).accepted = true) :
    (parseAuthData rpHash authData false).signCount = counterOf authData := by
  unfold parseAuthData at h ⊢
  split at h
  · cases h
  rename_i hlen
  rw [if_neg hlen]
  split at h
  · cases h
  rename_i hhash
  rw [if_neg hhash]
  dsimp only at h ⊢
  split at h
  · cases h
  rename_i hup
  rw [if_neg hup]
  split
  · rfl
  · exact parseAttested_signCount _ _

/-- **Step.** The counter of the credential moves to that of a login with it, which is greater. -/
theorem counter_step {s s' : Service} {e : Event} {c : PasskeyCredential} (hg : Good s)
    (hp : e.Presented cfg cr) (hk : e.Keeps c.credId) (hc : c ∈ s.rp.credentials)
    (h : s.step cfg cr e = some s') :
    ∃ c' ∈ s'.rp.credentials, c'.credId = c.credId ∧
      match e.counter cfg cr c.credId s with
      | none => c'.signCount = c.signCount
      | some n => c.signCount < n ∧ c'.signCount = n := by
  cases change_of_step h with
  | none hcounter hcreds hfile =>
    rw [hcounter]
    exact ⟨c, hcreds ▸ hc, rfl, rfl⟩
  | @login t q token _ now pa hok hcheck hfile =>
    obtain ⟨stored, before, after, hused, hsplit, hcreds⟩ := checkAssertion_used hcheck
    have hcount := signCount_of_accepted ((parseAuthData_accepted _).mpr hp)
    have hused : usedBy cfg cr s.rp.credentials q = some stored := hused
    have hsplit : s.rp.credentials = before ++ stored :: after := hsplit
    rw [hcount] at hcreds
    rw [Event.counter, hok, hused]
    rcases hcreds with ⟨hzero, hcreds⟩ | ⟨hlt, hcreds⟩
    · rw [if_neg (by simp [hzero])]
      exact ⟨c, hcreds ▸ hc, rfl, rfl⟩
    by_cases hid : stored.credId = c.credId
    · have hstored : stored ∈ s.rp.credentials := by simp [hsplit]
      obtain rfl := List.inj_on_of_nodup_map hg.nodup hstored hc hid
      refine ⟨{ stored with signCount := counterOf (fromBase64url q.authenticatorData) },
        by simp [hcreds], rfl, ?_⟩
      rw [if_pos (by simp; omega)]
      exact ⟨hlt, rfl⟩
    · -- another credential was used
      have hmem : c ∈ s'.rp.credentials := by
        rw [hsplit] at hc
        rw [hcreds]
        simp only [List.mem_append, List.mem_cons] at hc ⊢
        rcases hc with hc | rfl | hc
        · exact .inl hc
        · exact absurd rfl hid
        · exact .inr (.inr hc)
      rw [if_neg (by simp [hid])]
      exact ⟨c, hmem, rfl, rfl⟩
  | registration hcheck hcreds hfile =>
    exact ⟨c, by rw [hcreds]; exact List.mem_append_left _ hc, rfl, rfl⟩
  | deletion hcreds hfile =>
    refine ⟨c, ?_, rfl, rfl⟩
    rw [hcreds]
    exact (List.mem_eraseP_of_neg (by simpa using Ne.symm hk)).mpr hc
  | restart hcreds hfile =>
    refine ⟨c, ?_, rfl, rfl⟩
    rw [hcreds, hg.file]
    exact List.mem_filter.mpr ⟨hc, decide_eq_true hk⟩

/-- The counters of a run follow that of the credential upwards. -/
theorem counters_of_run {s s' : Service} {es : List Event} {c : PasskeyCredential} (hg : Good s)
    (hl : ∀ e ∈ es, e.CleanLabel) (hp : ∀ e ∈ es, e.Presented cfg cr)
    (hk : ∀ e ∈ es, e.Keeps c.credId) (hc : c ∈ s.rp.credentials)
    (hr : run (Service.step cfg cr) s es = some s') :
    (c.signCount :: counters cfg cr c.credId s es).Pairwise (· < ·) ∧
      ∃ c' ∈ s'.rp.credentials, c'.credId = c.credId ∧
        c'.signCount = (c.signCount :: counters cfg cr c.credId s es).getLast (by simp) := by
  induction es generalizing s c with
  | nil =>
    cases hr
    exact ⟨by simp [counters], c, hc, rfl, rfl⟩
  | cons e es ih =>
    obtain ⟨s₁, hs, hr⟩ := run_cons_eq_some.mp hr
    obtain ⟨c₁, hc₁, hid, hcounter⟩ :=
      counter_step hg (hp e (by simp)) (hk e (by simp)) hc hs
    obtain ⟨hpair, c', hc', hid', hlast⟩ := ih (good_step hg (hl e (by simp)) hs)
      (fun e he => hl e (by simp [he])) (fun e he => hp e (by simp [he]))
      (fun e he => by rw [hid]; exact hk e (by simp [he])) hc₁ hr
    rw [hid] at hpair hid'
    simp only [hid] at hlast
    have hcons : counters cfg cr c.credId s (e :: es) =
        (e.counter cfg cr c.credId s).toList ++ counters cfg cr c.credId s₁ es := by
      rw [counters, hs]
    cases hn : e.counter cfg cr c.credId s with
    | none =>
      rw [hn] at hcounter
      have hcounter : c₁.signCount = c.signCount := hcounter
      rw [hcounter] at hpair
      simp only [hcounter] at hlast
      simp only [hcons, hn]
      exact ⟨hpair, c', hc', hid', hlast⟩
    | some n =>
      rw [hn] at hcounter
      obtain ⟨hlt, hcounter⟩ := hcounter
      rw [hcounter] at hpair
      simp only [hcounter] at hlast
      simp only [hcons, hn]
      refine ⟨List.pairwise_cons.mpr ⟨fun m hm => ?_, hpair⟩, c', hc', hid', ?_⟩
      · rcases List.mem_cons.mp hm with rfl | hm
        · exact hlt
        · exact hlt.trans ((List.pairwise_cons.mp hpair).1 m hm)
      · rw [hlast]
        simp

theorem good_of_run {s s' : Service} {es : List Event} (hg : Good s) (hl : ∀ e ∈ es, e.CleanLabel)
    (hr : run (Service.step cfg cr) s es = some s') : Good s' := by
  induction es generalizing s with
  | nil =>
    cases hr
    exact hg
  | cons e es ih =>
    obtain ⟨s₁, hs, hr⟩ := run_cons_eq_some.mp hr
    exact ih (good_step hg (hl e (by simp)) hs) (fun e he => hl e (by simp [he])) hr

theorem good_start : Good {} := ⟨by simp, by simp, by decide⟩

/-- **Counters.** While a credential stays, the nonzero counters that it is used with are strictly
increasing and above the one that it began with; its counter is the last of them; and a login with
a counter that is not above it is refused. -/
theorem counters_increase {s s' : Service} {before es : List Event} {c : PasskeyCredential}
    (hb : run (Service.step cfg cr) {} before = some s) (hc : c ∈ s.rp.credentials)
    (hr : run (Service.step cfg cr) s es = some s')
    (hl : ∀ e ∈ before ++ es, e.CleanLabel) (hk : ∀ e ∈ es, e.Keeps c.credId)
    (hp : ∀ e ∈ es, e.Presented cfg cr) :
    (c.signCount :: counters cfg cr c.credId s es).Pairwise (· < ·) ∧
      ∃ c' ∈ s'.rp.credentials, c'.credId = c.credId ∧
        c'.signCount = (c.signCount :: counters cfg cr c.credId s es).getLast (by simp) ∧
        ∀ t q token, (Event.call (.completeAuthentication t q token)).Presented cfg cr →
          usedBy cfg cr s'.rp.credentials q = some c' →
          counterOf (fromBase64url q.authenticatorData) ≠ 0 →
          counterOf (fromBase64url q.authenticatorData) ≤ c'.signCount →
          (completeAuthentication cfg cr s'.rp t q token).2.isOk = false := by
  have hg := good_of_run good_start (fun e he => hl e (List.mem_append_left _ he)) hb
  have hl := fun e he => hl e (List.mem_append_right _ he)
  obtain ⟨hpair, c', hc', hid, hlast⟩ := counters_of_run hg hl hp hk hc hr
  refine ⟨hpair, c', hc', hid, hlast, fun t q token hpq hused hne hle => ?_⟩
  by_contra hok
  have hok : (completeAuthentication cfg cr s'.rp t q token).2.isOk = true := by simpa using hok
  have hg' := good_of_run hg hl hr
  obtain ⟨s'', hs⟩ : ∃ s'', s'.step cfg cr (.call (.completeAuthentication t q token)) = some s'' :=
    ⟨_, rfl⟩
  obtain ⟨c'', -, -, hcounter⟩ := counter_step hg' hpq trivial hc' hs
  rw [Event.counter, if_pos (by simp [hok, hused, hne])] at hcounter
  exact absurd hcounter.1 (Nat.not_lt.mpr hle)

/-! ## Two credentials in use -/

private def passkeyX : Bytes := fromBase64url (ascii "61dyjKSwCVEP-vvVn8Dl_FoD3MC7oCZr-Ct8eYg2Bus")
private def passkeyY : Bytes := fromBase64url (ascii "g-veE9xmZaLwP9kf1g_ueHMeFNKQ5acViDvN050jkZE")

/-- Authenticator data with the counters 5 and 6 of a present user, and with the counter 5 of an
absent one, and their signatures with the client data. -/
private def assertion5 : Bytes × Bytes :=
  (ascii "_4YmFeDo6gP1PugeB5_1lAoAFFhiC_oCQozzxbNmNcoBAAAABQ",
    ascii ("MEQCIB55hCW4YoMtrUUObL_sIu5gdEOW7AyGnSUjk7PU8nQxAiA_wEPEn9QrrBaiWH48HGLovPu7exQSwvBMx0" ++
      "q1MTByJg"))
private def assertion6 : Bytes × Bytes :=
  (ascii "_4YmFeDo6gP1PugeB5_1lAoAFFhiC_oCQozzxbNmNcoBAAAABg",
    ascii ("MEUCIQCkr_ik4RcfnvDwZalg78qiD25GNXvj-SfiBK8ASQdLLwIgWkjUkmDtFPd1qVGK13Lmoja4ubNZSV686f" ++
      "LnZW7AJzQ"))
private def absent5 : Bytes × Bytes :=
  (ascii "_4YmFeDo6gP1PugeB5_1lAoAFFhiC_oCQozzxbNmNcoAAAAABQ",
    ascii ("MEUCIHtmGfOTZPLxQMNabtRiTcu_9Hdrhi3QDoD4YBNw0fmvAiEAvw2DXbFWlisk8E5a6DMmJhhQP-csokdqUi" ++
      "QXVFqEpXY"))

/-- The crypto library on these signatures. -/
private def passkeyCrypto : Crypto where
  sha256 := exampleCrypto.sha256
  sha256_length := exampleCrypto.sha256_length
  verifyP256 x y msg sig :=
    x = passkeyX && y = passkeyY && [assertion5, assertion6, absent5].any fun p =>
      msg = fromBase64url p.1 ++ exampleCrypto.sha256 (fromBase64url exampleClientData) &&
        sig = fromBase64url p.2

private def passkeyAttestation : Attestation where
  sessionKey := toBase64url exampleKey
  attestationObject := toBase64url ([0xa1, 0x68] ++ ascii "authData" ++ [0x58, 136] ++
    exampleCrypto.sha256 exampleConfig.rpId ++ [0x41, 0, 0, 0, 0] ++ List.replicate 16 0 ++
    [0, 4, 1, 2, 3, 4] ++ [0xa5, 0x01, 0x02, 0x03, 0x26, 0x20, 0x01, 0x21, 0x58, 0x20] ++ passkeyX ++
    [0x22, 0x58, 0x20] ++ passkeyY)
  clientDataJson := toBase64url (ascii "\x7b\"type\":\"webauthn.create\",\"challenge\":\"" ++
    toBase64url exampleChallenge ++ ascii "\",\"origin\":\"https://ntm.example\"\x7d")
  label := ascii "Phone"

private def passkeyRegistration : List Event :=
  (registrationCalls passkeyAttestation).map .call

private def passkeyLogin (p : Bytes × Bytes) : List Event :=
  [.call (.beginAuthentication ⟨0, 0⟩ exampleChallenge exampleKey),
    .call (.completeAuthentication exampleClock
      ⟨toBase64url exampleKey, ascii "AQIDBA", p.1, exampleClientData, p.2⟩ exampleKey)]

/-- The credential after the registration. -/
private def passkey : PasskeyCredential where
  credId := ascii "AQIDBA"
  pubkeyX := toBase64url passkeyX
  pubkeyY := toBase64url passkeyY
  label := ascii "Phone"

/-- The run of the logins after the registration, and what they show. -/
private def passkeyRun (es : List Event) : Option (List PasskeyCredential × List Nat ×
    List PasskeyCredential) :=
  (run (Service.step exampleConfig passkeyCrypto) {} passkeyRegistration).bind fun s =>
    (run (Service.step exampleConfig passkeyCrypto) s es).map fun s' =>
      (s.rp.credentials, counters exampleConfig passkeyCrypto passkey.credId s es,
        s'.rp.credentials)

private theorem passkey_runs :
    passkeyRun (passkeyLogin assertion5 ++ .restart :: passkeyLogin assertion6) =
        some ([passkey], [5, 6], [{ passkey with signCount := 6 }]) ∧
      passkeyRun (passkeyLogin absent5 ++ passkeyLogin absent5) =
        some ([passkey], [5, 5], [passkey]) := by
  simp only [passkeyRun, passkeyLogin, passkeyCrypto, assertion5, assertion6, absent5, ascii_append]
  iterate 9 rw [ascii_ofList]
  decide +kernel

private theorem exists_passkeyRun {es : List Event} {ns : List Nat} {creds : List PasskeyCredential}
    (h : passkeyRun es = some ([passkey], ns, creds)) :
    ∃ s s', run (Service.step exampleConfig passkeyCrypto) {} passkeyRegistration = some s ∧
      run (Service.step exampleConfig passkeyCrypto) s es = some s' ∧
      s.rp.credentials = [passkey] ∧
      counters exampleConfig passkeyCrypto passkey.credId s es = ns ∧ s'.rp.credentials = creds := by
  obtain ⟨s, hs, h⟩ := Option.bind_eq_some_iff.mp h
  obtain ⟨s', hs', h⟩ := Option.map_eq_some_iff.mp h
  obtain ⟨h₁, h₂⟩ := Prod.mk.inj h
  obtain ⟨h₂, h₃⟩ := Prod.mk.inj h₂
  exact ⟨s, s', hs, hs', h₁, h₂, h₃⟩

/-- A login with the counter 5, a restart, and a login with the counter 6. -/
theorem counters_increase_passkey :
    ∃ s s', run (Service.step exampleConfig passkeyCrypto) {} passkeyRegistration = some s ∧
      run (Service.step exampleConfig passkeyCrypto) s
        (passkeyLogin assertion5 ++ .restart :: passkeyLogin assertion6) = some s' ∧
      ∃ c' ∈ s'.rp.credentials, c'.signCount = 6 := by
  obtain ⟨s, s', hs, hs', hcreds, hcounters, -⟩ := exists_passkeyRun passkey_runs.1
  have hp (p : Bytes × Bytes)
      (h : (parseAuthData (passkeyCrypto.sha256 exampleConfig.rpId) (fromBase64url p.1) false).accepted =
        true) : ∀ e ∈ passkeyLogin p, e.Presented exampleConfig passkeyCrypto := by
    intro e he
    rcases List.mem_cons.mp he with rfl | he
    · trivial
    · obtain rfl := List.mem_singleton.mp he
      exact (parseAuthData_accepted _).mp h
  have hlogin (p : Bytes × Bytes) : ∀ e ∈ passkeyLogin p, e.CleanLabel ∧ e.Keeps passkey.credId := by
    intro e he
    rcases List.mem_cons.mp he with rfl | he
    · exact ⟨trivial, trivial⟩
    · obtain rfl := List.mem_singleton.mp he
      exact ⟨trivial, trivial⟩
  have hregistration : ∀ e ∈ passkeyRegistration, e.CleanLabel := by
    intro e he
    rcases List.mem_cons.mp he with rfl | he
    · trivial
    · obtain rfl := List.mem_singleton.mp he
      exact (by unfold Clean; decide : Clean passkeyAttestation.label)
  have hes : ∀ e ∈ passkeyLogin assertion5 ++ .restart :: passkeyLogin assertion6,
      e.CleanLabel ∧ e.Keeps passkey.credId ∧ e.Presented exampleConfig passkeyCrypto := by
    intro e he
    rcases List.mem_append.mp he with he | he
    · exact ⟨(hlogin _ e he).1, (hlogin _ e he).2, hp _ (by decide +kernel) e he⟩
    rcases List.mem_cons.mp he with rfl | he
    · exact ⟨trivial, (by decide : passkey.credId ≠ []), trivial⟩
    · exact ⟨(hlogin _ e he).1, (hlogin _ e he).2, hp _ (by decide +kernel) e he⟩
  have h := counters_increase (c := passkey) hs (by simp [hcreds]) hs'
    (fun e he => (List.mem_append.mp he).elim (hregistration e) fun he => (hes e he).1)
    (fun e he => (hes e he).2.1) (fun e he => (hes e he).2.2)
  obtain ⟨-, c', hc', -, hlast, -⟩ := h
  refine ⟨s, s', hs, hs', c', hc', ?_⟩
  rw [hlast]
  simp [hcounters]

/-- The counter 5 is accepted twice: the data are well formed, but the user is not present. -/
theorem counter_replayed :
    ∃ s s', run (Service.step exampleConfig passkeyCrypto) {} passkeyRegistration = some s ∧
      run (Service.step exampleConfig passkeyCrypto) s
        (passkeyLogin absent5 ++ passkeyLogin absent5) = some s' ∧
      counters exampleConfig passkeyCrypto passkey.credId s
        (passkeyLogin absent5 ++ passkeyLogin absent5) = [5, 5] ∧
      s'.rp.credentials = [passkey] ∧ passkey.signCount = 0 ∧
      WellFormed (fromBase64url absent5.1) ∧
      (fromBase64url absent5.1).take 32 = passkeyCrypto.sha256 exampleConfig.rpId ∧
      ¬UserPresent (fromBase64url absent5.1) := by
  obtain ⟨s, s', hs, hs', -, hcounters, hcreds⟩ := exists_passkeyRun passkey_runs.2
  refine ⟨s, s', hs, hs', hcounters, hcreds, rfl, ?_, by decide +kernel, by unfold UserPresent; decide +kernel⟩
  refine ⟨(fromBase64url absent5.1).take 32, 0, [0, 0, 0, 5], [], by decide +kernel, rfl,
    by decide +kernel, fun h => absurd rfl h⟩

end TrafficMonitor.WebAuthn
