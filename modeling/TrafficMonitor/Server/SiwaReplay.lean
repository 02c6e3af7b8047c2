import Mathlib.Data.Int.DivMod
import TrafficMonitor.Server.SiwaValidator

/-!
# Replays of native sign-ins

`verifyNative` remembers the subject and the expiry of each token that it accepts until 60
seconds after that expiry, and accepts a token until 30 seconds after it.

Proved here, for every sequence of calls during which the clock does not run backwards, as long
as the expiries are in the range of the arithmetic:

* `remembers_of_run`: what was accepted is remembered or too old to be accepted;
* `native_guarded`: no subject and expiry is accepted twice, and what is accepted is signed
  with a key of Apple, for an allowed audience, and at most 30 seconds old.
-/

namespace TrafficMonitor.Siwa

open Bytes Runs

/-! ## Numbers -/

/-- The integer field that `jwtGetLong` reads, without bounds. -/
def integerField (json key : Bytes) : Int :=
  match findAfter (QUOTE :: key ++ [QUOTE, COLON]) json with
  | none => 0
  | some rest => match rest.dropWhile fun b => b = SP with
    | [] => 0
    | b :: s =>
      if b = 45 then -(digitsValue (s.takeWhile isDigit) : Int)
      else digitsValue ((b :: s).takeWhile isDigit)

theorem llong_of_lt {n : Int} (hlo : -2 ^ 63 ≤ n) (hhi : n < 2 ^ 63) : llong n = n := by
  unfold llong
  rw [Int.bmod_eq_of_le] <;> omega

theorem llong_step (v d : Int) : llong (llong v * 10 + d) = llong (v * 10 + d) := by
  unfold llong
  rw [← Int.bmod_add_bmod, Int.bmod_mul_bmod, Int.bmod_add_bmod]

theorem foldl_llong {s : Bytes} (hs : ∀ c ∈ s, isDigit c = true) (n : Nat) :
    s.foldl (fun v c => llong (v * 10 + (c.toNat - 48))) (llong n) =
      llong (s.foldl (fun n b => 10 * n + (b.toNat - 48)) n : Nat) := by
  induction s generalizing n with
  | nil => rw [List.foldl_nil, List.foldl_nil]
  | cons c s ih =>
    have hc := hs c (by simp)
    simp only [isDigit, Bool.and_eq_true, decide_eq_true_eq, UInt8.le_iff_toNat_le] at hc
    have hc : 48 ≤ c.toNat := hc.1
    rw [List.foldl_cons, List.foldl_cons, llong_step, ← ih fun d hd => hs d (by simp [hd])]
    congr 2
    omega

theorem readLong_eq (s : Bytes) : readLong s = llong (digitsValue (s.takeWhile isDigit)) :=
  foldl_llong (fun _ hc => List.mem_takeWhile_imp hc) 0

theorem jwtGetLong_eq (json key : Bytes) : jwtGetLong json key = llong (integerField json key) := by
  unfold jwtGetLong integerField
  cases findAfter (QUOTE :: key ++ [QUOTE, COLON]) json with
  | none => decide
  | some rest =>
    dsimp only
    cases rest.dropWhile fun b => b = SP with
    | nil => decide
    | cons b s =>
      dsimp only
      split
      · rw [readLong_eq]
        exact Int.bmod_neg_bmod
      · exact readLong_eq _

/-! ## Accepted tokens -/

namespace JwtParts

def sub (parts : JwtParts) : Bytes := jwtGetStr parts.payloadJson (ascii "sub")

/-- The expiry that the token names, as an integer. -/
def expiry (parts : JwtParts) : Int := integerField parts.payloadJson (ascii "exp")

end JwtParts

/-- The token that the call accepts as a native sign-in. -/
def SignIn.accepted (cr : Primitives) (v : SiwaValidator) : SignIn → Option Bytes
  | .beginFlow .. => none
  | .verifyCallback .. => none
  | .verifyNative prune io idToken allowedAuds =>
    if (Siwa.verifyNative cr v prune io idToken allowedAuds).2.ok then some idToken else none

/-- The tokens that the calls accept, in order. -/
def acceptedTokens (cr : Primitives) : SiwaValidator → List SignIn → List Bytes
  | _, [] => []
  | v, c :: cs => match signInStep cr v c with
    | none => []
    | some v' => (c.accepted cr v).toList ++ acceptedTokens cr v' cs

/-- What the clock of the day shows during the call. -/
def SignIn.readings : SignIn → List Int
  | .beginFlow .. => []
  | .verifyCallback _ io _ _ _ => [io.now]
  | .verifyNative prune io _ _ => [prune, io.now]

/-- The clock does not run backwards. -/
def Ordered (cs : List SignIn) : Prop := (cs.flatMap SignIn.readings).Pairwise (· ≤ ·)

/-- The subject and the expiry of a token. -/
def identity (idToken : Bytes) : Option (Bytes × Int) :=
  (parseJwt idToken).map fun parts => (parts.sub, parts.expiry)

/-- The token is signed with a cached or fetched key of Apple, for an allowed audience, and is at
most 30 seconds older than its expiry. -/
structure Trusted (cr : Primitives) (v : SiwaValidator) (prune : Int) (io : VerifyIo)
    (idToken : Bytes) (allowedAuds : List Bytes) (parts : JwtParts) (key : SiwaJwksKey) : Prop where
  parsed : parseJwt idToken = some parts
  alg : jwtGetStr parts.headerJson (ascii "alg") = ascii "RS256"
  kid : key.kid = jwtGetStr parts.headerJson (ascii "kid")
  source : key ∈ v.jwksKeys ∨
    ∃ f ∈ (SignIn.verifyNative prune io idToken allowedAuds).fetches v, key ∈ f.fetch.keys
  signed : rsaVerifyRS256 cr key parts.signingInput parts.sigB64 = true
  issuer : jwtGetStr parts.payloadJson (ascii "iss") = ascii "https://appleid.apple.com"
  audience : jwtGetStr parts.payloadJson (ascii "aud") ∈ allowedAuds
  recent : io.now ≤ parts.expiry + 30

/-- What the call accepts is trusted. -/
def SignIn.Sound (cr : Primitives) (v : SiwaValidator) : SignIn → Prop
  | .beginFlow .. => True
  | .verifyCallback .. => True
  | .verifyNative prune io idToken allowedAuds =>
    (Siwa.verifyNative cr v prune io idToken allowedAuds).2.ok = true →
      ∃ parts key, Trusted cr v prune io idToken allowedAuds parts key

/-- No subject and expiry is accepted twice, so no token is, and all that is accepted is trusted. -/
structure Guarded (cr : Primitives) (cs : List SignIn) : Prop where
  once : ((acceptedTokens cr {} cs).map identity).Nodup
  tokens : (acceptedTokens cr {} cs).Nodup
  sound : Meets (signInStep cr) (SignIn.Sound cr) {} cs

/-- The expiry and the times that are computed from it are in the range of a `long long`, and a
token with a negative expiry is too old. -/
def SignIn.InRange : SignIn → Prop
  | .beginFlow .. => True
  | .verifyCallback .. => True
  | .verifyNative _ io idToken _ => ∀ parts, parseJwt idToken = some parts →
    -2 ^ 63 < parts.expiry ∧ parts.expiry + 60 < 2 ^ 63 ∧
      (parts.expiry < 0 → parts.expiry + 30 < io.now)

/-! ## One token -/

theorem validateAppleClaims_eq_nil {payloadJson : Bytes} {allowedAuds : List Bytes}
    {nonceHash : Bytes} {now : Int} :
    validateAppleClaims payloadJson allowedAuds nonceHash now = [] ↔
      jwtGetStr payloadJson (ascii "iss") = ascii "https://appleid.apple.com" ∧
      jwtGetStr payloadJson (ascii "aud") ∈ allowedAuds ∧
      jwtGetLong payloadJson (ascii "exp") ≠ 0 ∧
      now ≤ llong (jwtGetLong payloadJson (ascii "exp") + 30) ∧
      (nonceHash ≠ [] → jwtGetStr payloadJson (ascii "nonce") = nonceHash) := by
  have hne (text : String) (h : ascii text ≠ []) : ¬ascii text = [] := h
  unfold validateAppleClaims
  split
  · rename_i h
    simp [h, hne "iss mismatch" (by decide)]
  rename_i hiss
  dsimp only
  split
  · rename_i h
    simp [h, hne "aud not in allowlist: " (by decide)]
  rename_i haud
  split
  · rename_i h
    simp only [Bool.or_eq_true, decide_eq_true_eq] at h
    simp only [hne "token expired" (by decide), false_iff]
    rintro ⟨-, -, h0, hnow, -⟩
    rcases h with h | h
    · exact h0 h
    · exact absurd hnow (by simpa [kClockSkewSec] using h)
  rename_i hexp
  simp only [Bool.or_eq_true, decide_eq_true_eq, not_or, not_lt, gt_iff_lt] at hexp
  have hiss := not_not.mp hiss
  have haud := not_not.mp haud
  split
  · rename_i h
    simp only [ne_eq, Bool.and_eq_true, decide_eq_true_eq] at h
    simp [hne "nonce mismatch" (by decide), h]
  · rename_i h
    simp only [ne_eq, Bool.and_eq_true, decide_eq_true_eq, not_and, not_not] at h
    exact iff_of_true rfl ⟨hiss, haud, hexp.1, hexp.2, h⟩

theorem checkToken_ok {cr : Primitives} {now : Int} {parts : JwtParts} {allowedAuds : List Bytes}
    {nonceHash : Bytes} {key : SiwaJwksKey} :
    (checkToken cr now parts allowedAuds nonceHash key).ok = true ↔
      rsaVerifyRS256 cr key parts.signingInput parts.sigB64 = true ∧
      validateAppleClaims parts.payloadJson allowedAuds nonceHash now = [] ∧ parts.sub ≠ [] := by
  simp only [checkToken]
  cases rsaVerifyRS256 cr key parts.signingInput parts.sigB64 with
  | false => simp
  | true =>
    by_cases hc : validateAppleClaims parts.payloadJson allowedAuds nonceHash now = []
    · by_cases hs : jwtGetStr parts.payloadJson (ascii "sub") = [] <;> simp [hc, hs, JwtParts.sub]
    · simp [hc]

/-- A key that a lookup finds. -/
theorem matchKey_ok {v : SiwaValidator} {io : VerifyIo} {kid : Bytes} {key : SiwaJwksKey}
    (h : (matchKey v io kid).2 = .ok key) : key.kid = kid ∧
      (key ∈ v.jwksKeys ∨ ∃ f ∈ v.fetches io kid, key ∈ f.fetch.keys) := by
  rw [matchKey_eq] at h
  split at h
  · cases h
  rename_i hk
  split at h
  · rename_i k hfind
    cases h
    refine ⟨by simpa using List.find?_some hfind, ?_⟩
    have hmem := List.mem_of_find?_eq_some hfind
    unfold SiwaValidator.known at hmem
    split at hmem
    · exact .inl hmem
    · rename_i hf
      exact .inr ⟨io.first, by simp [SiwaValidator.fetches, hf], hmem⟩
  · rename_i hfind
    have hm : v.Misses io kid := ⟨hk, find_eq_none.mp hfind⟩
    split at h
    · cases h
    · dsimp only at h
      split at h
      · rename_i hfind
        cases h
        exact ⟨by simpa using List.find?_some hfind, .inr ⟨io.second,
          by simp [SiwaValidator.fetches, hm], List.mem_of_find?_eq_some hfind⟩⟩
      · cases h

theorem verifyJwt_ok {cr : Primitives} {v : SiwaValidator} {io : VerifyIo} {idToken : Bytes}
    {allowedAuds : List Bytes} {nonceHash : Bytes}
    (h : (verifyJwt cr v io idToken allowedAuds nonceHash).2.ok = true) :
    ∃ parts key, parseJwt idToken = some parts ∧
      jwtGetStr parts.headerJson (ascii "alg") = ascii "RS256" ∧
      (matchKey v io (jwtGetStr parts.headerJson (ascii "kid"))).2 = .ok key ∧
      (checkToken cr io.now parts allowedAuds nonceHash key).ok = true := by
  unfold verifyJwt at h
  cases hp : parseJwt idToken with
  | none => simp [hp] at h
  | some parts =>
    simp only [hp] at h
    split at h
    · cases h
    · rename_i halg
      cases hk : matchKey v io (jwtGetStr parts.headerJson (ascii "kid")) with
      | mk w r =>
        rw [hk] at h
        cases r with
        | error text => cases h
        | ok key => exact ⟨parts, key, rfl, not_not.mp halg, by rw [hk], h⟩

/-- What the replay memory lets pass is decided by `verifyJwt`. -/
theorem verifyNative_ok {cr : Primitives} {v : SiwaValidator} {prune : Int} {io : VerifyIo}
    {idToken : Bytes} {allowedAuds : List Bytes}
    (h : (verifyNative cr v prune io idToken allowedAuds).2.ok = true) :
    isReplay v prune idToken = false ∧ (verifyJwt cr v io idToken allowedAuds []).2.ok = true := by
  cases hp : parseJwt idToken with
  | none => simp [verifyNative, hp] at h
  | some parts =>
    rw [verifyNative_eq hp] at h
    split at h
    · rename_i hr
      exact ⟨by simp [isReplay, hp, hr], h⟩
    · split at h
      · cases h
      · rename_i hn
        rw [Bool.not_eq_true] at hn
        refine ⟨hn, ?_⟩
        rwa [verifyJwt_congr (show v.cache = (pruneReplays prune v).cache from rfl)]

theorem jwtGetLong_exp {parts : JwtParts} (hlo : -2 ^ 63 ≤ parts.expiry)
    (hhi : parts.expiry < 2 ^ 63) : jwtGetLong parts.payloadJson (ascii "exp") = parts.expiry := by
  rw [jwtGetLong_eq, ← JwtParts.expiry, llong_of_lt hlo hhi]

/-- **Acceptance.** A token that is accepted is trusted, has a subject, and has an expiry that
is not zero. -/
theorem verifyNative_trusted {cr : Primitives} {v : SiwaValidator} {prune : Int} {io : VerifyIo}
    {idToken : Bytes} {allowedAuds : List Bytes}
    (h : (verifyNative cr v prune io idToken allowedAuds).2.ok = true)
    (hin : (SignIn.verifyNative prune io idToken allowedAuds).InRange) :
    ∃ parts key, Trusted cr v prune io idToken allowedAuds parts key ∧ parts.sub ≠ [] ∧
      0 < parts.expiry := by
  obtain ⟨hn, h⟩ := verifyNative_ok h
  obtain ⟨parts, key, hp, halg, hkey, htoken⟩ := verifyJwt_ok h
  obtain ⟨hsigned, hclaims, hsub⟩ := checkToken_ok.mp htoken
  obtain ⟨hiss, haud, h0, hnow, -⟩ := validateAppleClaims_eq_nil.mp hclaims
  obtain ⟨hlo, hhi, hneg⟩ := hin parts hp
  rw [jwtGetLong_exp (by omega) (by omega)] at h0 hnow
  rw [llong_of_lt (by omega) (by omega)] at hnow
  obtain ⟨hkid, hsource⟩ := matchKey_ok hkey
  refine ⟨parts, key, ⟨hp, halg, hkid, ?_, hsigned, hiss, haud, hnow⟩, hsub, ?_⟩
  · have hlookup : (SignIn.verifyNative prune io idToken allowedAuds).lookup v =
        some (io, jwtGetStr parts.headerJson (ascii "kid")) := by
      simp [SignIn.lookup, hn, askedKid, hp, halg]
    rwa [SignIn.fetches, hlookup]
  · by_contra hpos
    have := hneg (by omega)
    omega

/-! ## The replay memory -/

theorem replayKey_inj {s s' : Bytes} {e e' : Int} (he : 0 < e) (he' : 0 < e')
    (h : replayKey s e = replayKey s' e') : s = s' ∧ e = e' := by
  have hcolon (n : Nat) : COLON ∉ (decimal n).reverse := fun hm =>
    not_mem_decimal (by decide) n (List.mem_reverse.mp hm)
  have hcut (s : Bytes) (n : Nat) :
      Lines.cut COLON (s ++ COLON :: decimal n).reverse = some ((decimal n).reverse, s.reverse) := by
    rw [List.reverse_append, List.reverse_cons, List.append_assoc]
    exact Lines.cut_append COLON _ _ (hcolon n)
  have hr := hcut s e.toNat
  rw [← replayKey, h, replayKey, hcut] at hr
  obtain ⟨hd, hs⟩ := Prod.mk.inj (Option.some.inj hr)
  have hn := congrArg digitsValue (List.reverse_injective hd)
  rw [digitsValue_decimal, digitsValue_decimal] at hn
  exact ⟨(List.reverse_injective hs).symm, by omega⟩

theorem replays_matchKey (v : SiwaValidator) (io : VerifyIo) (kid : Bytes) :
    (matchKey v io kid).1.nativeReplayCache = v.nativeReplayCache := by
  rw [matchKey_eq]
  split
  · rfl
  · split
    · rfl
    · split <;> rfl

theorem replays_verifyJwt (cr : Primitives) (v : SiwaValidator) (io : VerifyIo) (idToken : Bytes)
    (allowedAuds : List Bytes) (nonceHash : Bytes) :
    (verifyJwt cr v io idToken allowedAuds nonceHash).1.nativeReplayCache = v.nativeReplayCache := by
  unfold verifyJwt
  split
  · rfl
  · rename_i parts _
    dsimp only
    split
    · rfl
    · have h := replays_matchKey v io (jwtGetStr parts.headerJson (ascii "kid"))
      split <;> simp_all

/-- What was accepted up to a time is remembered or too old, and what is remembered has its key. -/
structure Remembers (v : SiwaValidator) (seen : List (Bytes × Int)) (time : Int) : Prop where
  seen : ∀ sub exp, (sub, exp) ∈ seen → 0 < exp ∧
    (v.nativeReplayCache (replayKey sub exp) = some exp ∨ exp + 60 < time)
  range : ∀ k exp, v.nativeReplayCache k = some exp →
    0 < exp ∧ exp + 60 < 2 ^ 63 ∧ ∃ sub, k = replayKey sub exp

theorem Remembers.mono {v v' : SiwaValidator} {seen : List (Bytes × Int)} {time time' : Int}
    (h : Remembers v seen time) (hv : v'.nativeReplayCache = v.nativeReplayCache)
    (ht : time ≤ time') : Remembers v' seen time' := by
  refine ⟨fun sub exp hm => ?_, fun k exp hk => h.range k exp (by rwa [← hv])⟩
  obtain ⟨hpos, hseen⟩ := h.seen sub exp hm
  rw [hv]
  exact ⟨hpos, hseen.imp_right fun h => by omega⟩

theorem Remembers.prune {v : SiwaValidator} {seen : List (Bytes × Int)} {time prune : Int}
    (h : Remembers v seen time) (ht : time ≤ prune) :
    Remembers (pruneReplays prune v) seen prune := by
  have hkeep {k : Bytes} {exp : Int} (hk : v.nativeReplayCache k = some exp) :
      (pruneReplays prune v).nativeReplayCache k =
        if prune ≤ exp + 60 then some exp else none := by
    obtain ⟨hpos, hlt, -⟩ := h.range k exp hk
    have hl : llong (exp + 60) = exp + 60 := llong_of_lt (by omega) hlt
    simp only [pruneReplays, hk, Option.filter, hl]
    by_cases hle : prune ≤ exp + 60 <;> simp [hle]
  refine ⟨fun sub exp hm => ?_, fun k exp hk => ?_⟩
  · obtain ⟨hpos, hk | hold⟩ := h.seen sub exp hm
    · rw [hkeep hk]
      split
      · exact ⟨hpos, .inl rfl⟩
      · exact ⟨hpos, .inr (by omega)⟩
    · exact ⟨hpos, .inr (by omega)⟩
  · cases hv : v.nativeReplayCache k with
    | none => simp [pruneReplays, hv] at hk
    | some e =>
      rw [hkeep hv] at hk
      split at hk
      · cases hk
        exact h.range k exp hv
      · cases hk

theorem Remembers.remember {v : SiwaValidator} {seen : List (Bytes × Int)} {time : Int}
    (h : Remembers v seen time) {sub : Bytes} {exp : Int} (hpos : 0 < exp)
    (hlt : exp + 60 < 2 ^ 63) : Remembers (remember sub exp v) ((sub, exp) :: seen) time := by
  refine ⟨fun s e hm => ?_, fun k e hk => ?_⟩
  · rcases List.mem_cons.mp hm with heq | hm
    · cases heq
      exact ⟨hpos, .inl (by simp [Siwa.remember])⟩
    · obtain ⟨he, hseen⟩ := h.seen s e hm
      refine ⟨he, hseen.imp_left fun hk => ?_⟩
      by_cases heq : replayKey s e = replayKey sub exp
      · obtain ⟨rfl, rfl⟩ := replayKey_inj he hpos heq
        simp [Siwa.remember]
      · simpa [Siwa.remember, heq] using hk
  · by_cases heq : k = replayKey sub exp
    · subst heq
      simp only [Siwa.remember, Function.update_self, Option.some.injEq] at hk
      subst hk
      exact ⟨hpos, hlt, sub, rfl⟩
    · exact h.range k e (by simpa [Siwa.remember, heq] using hk)

/-! ## Runs -/

/-- One native sign-in: what it accepts is new, and is remembered. -/
theorem remembers_verifyNative {cr : Primitives} {v : SiwaValidator} {seen : List (Bytes × Int)}
    {time prune : Int} {io : VerifyIo} {idToken : Bytes} {allowedAuds : List Bytes}
    (h : Remembers v seen time) (ht : time ≤ prune) (hnow : prune ≤ io.now)
    (hin : (SignIn.verifyNative prune io idToken allowedAuds).InRange) :
    let r := verifyNative cr v prune io idToken allowedAuds
    if r.2.ok then ∃ parts, parseJwt idToken = some parts ∧
      (parts.sub, parts.expiry) ∉ seen ∧
      Remembers r.1 ((parts.sub, parts.expiry) :: seen) io.now
    else Remembers r.1 seen io.now := by
  intro r
  have htrusted := fun hok => @verifyNative_trusted cr v _ _ _ _ hok hin
  cases hp : parseJwt idToken with
  | none =>
    have hr : r = (v, { error := ascii "malformed JWT" }) := by simp [r, verifyNative, hp]
    rw [hr]
    exact h.mono rfl (by omega)
  | some parts =>
    have hr : r = _ := verifyNative_eq hp cr v prune io allowedAuds
    have hj (v : SiwaValidator) := replays_verifyJwt cr v io idToken allowedAuds []
    split at hr
    · -- a token that the memory does not record is not accepted
      rename_i hrec
      rw [if_neg fun hok => ?_]
      · exact h.mono (by rw [hr, hj]) (by omega)
      · obtain ⟨q, key, ht, hsub, hpos⟩ := htrusted hok
        cases hp.symm.trans ht.parsed
        obtain ⟨hlo, hhi, -⟩ := hin parts hp
        rw [JwtParts.recorded, jwtGetLong_exp (by omega) (by omega)] at hrec
        simp_all [JwtParts.sub]
    · split at hr
      · rw [hr]
        exact (h.prune ht).mono rfl hnow
      · rename_i hrec hreplay
        have hm := (h.prune ht).mono (hj _) hnow
        split
        · rename_i hok
          obtain ⟨q, key, ht', hsub, hpos⟩ := htrusted hok
          cases hp.symm.trans ht'.parsed
          obtain ⟨hlo, hhi, -⟩ := hin parts hp
          have hexp := jwtGetLong_exp (show -2 ^ 63 ≤ parts.expiry by omega) (by omega)
          refine ⟨parts, rfl, fun hseen => ?_, ?_⟩
          · obtain ⟨-, hk | hold⟩ := (h.prune ht).seen _ _ hseen
            · refine hreplay ?_
              simp_all [isReplay, JwtParts.sub]
            · have := ht'.recent
              omega
          · rw [hr] at hok ⊢
            dsimp only at hok ⊢
            rw [if_pos hok, hexp]
            exact hm.remember hpos (by omega)
        · rename_i hok
          rw [hr] at hok ⊢
          dsimp only at hok ⊢
          rw [if_neg hok]
          exact hm

theorem ordered_cons {c : SignIn} {cs : List SignIn} : Ordered (c :: cs) ↔
    c.readings.Pairwise (· ≤ ·) ∧ Ordered cs ∧
      ∀ r ∈ c.readings, ∀ r' ∈ cs.flatMap SignIn.readings, r ≤ r' := by
  rw [Ordered, List.flatMap_cons, List.pairwise_append, Ordered]

theorem replays_verifyCallback (cr : Primitives) (v : SiwaValidator) (sweep : Int) (io : VerifyIo)
    (state idToken : Bytes) (allowedAuds : List Bytes) :
    (verifyCallback cr v sweep io state idToken allowedAuds).1.nativeReplayCache =
      v.nativeReplayCache := by
  unfold verifyCallback
  dsimp only
  split
  · rfl
  · exact replays_verifyJwt ..

/-- From a memory that knows what was accepted: nothing of it is accepted, and nothing twice. -/
theorem nodup_of_run {cr : Primitives} {v : SiwaValidator} {seen : List (Bytes × Int)} {time : Int}
    {cs : List SignIn} (h : Remembers v seen time) (ho : Ordered cs)
    (hfrom : ∀ r ∈ cs.flatMap SignIn.readings, time ≤ r) (hin : ∀ c ∈ cs, c.InRange) :
    ((acceptedTokens cr v cs).map identity).Nodup ∧
      ∀ p ∈ seen, some p ∉ (acceptedTokens cr v cs).map identity := by
  induction cs generalizing v seen time with
  | nil => simp [acceptedTokens]
  | cons c cs ih =>
    obtain ⟨hc, ho', hle⟩ := ordered_cons.mp ho
    have hin' : ∀ c ∈ cs, c.InRange := fun d hd => hin d (by simp [hd])
    rw [List.flatMap_cons] at hfrom
    cases c with
    | beginFlow sweep now state nonceRaw =>
      exact ih (v := beginFlow v sweep now state nonceRaw) (h.mono rfl le_rfl) ho'
        (fun r hr => hfrom r (by simp [hr])) hin'
    | verifyCallback sweep io state idToken allowedAuds =>
      have hv := replays_verifyCallback cr v sweep io state idToken allowedAuds
      exact ih (h.mono hv (hfrom io.now (by simp [SignIn.readings]))) ho'
        (hle io.now (by simp [SignIn.readings])) hin'
    | verifyNative prune io idToken allowedAuds =>
      simp only [SignIn.readings, List.pairwise_cons, List.mem_singleton, forall_eq] at hc
      have hstep := @remembers_verifyNative cr v seen time prune io idToken allowedAuds h
        (hfrom prune (by simp [SignIn.readings])) hc.1 (hin _ (by simp))
      have hrest := hle io.now (by simp [SignIn.readings])
      dsimp only at hstep
      simp only [acceptedTokens, signInStep, SignIn.accepted]
      split at hstep
      · rename_i hok
        obtain ⟨parts, hp, hnew, hm⟩ := hstep
        obtain ⟨hnodup, hseen⟩ := ih hm ho' hrest hin'
        have hid : identity idToken = some (parts.sub, parts.expiry) := by simp [identity, hp]
        simp only [hok, if_true, Option.toList_some, List.map_cons, hid, List.singleton_append,
          List.nodup_cons]
        refine ⟨⟨hseen _ (by simp), hnodup⟩, fun p hp' hmem => ?_⟩
        rcases List.mem_cons.mp hmem with heq | hmem
        · cases heq
          exact hnew hp'
        · exact hseen p (by simp [hp']) hmem
      · rename_i hok
        simp only [hok, Bool.false_eq_true, if_false, Option.toList_none, List.nil_append]
        exact ih hstep ho' hrest hin'

/-- **Replay protection.** -/
theorem native_guarded (cr : Primitives) (cs : List SignIn) (ho : Ordered cs)
    (hin : ∀ c ∈ cs, c.InRange) : Guarded cr cs := by
  have hempty (time : Int) : Remembers {} [] time := ⟨by simp, by simp⟩
  obtain ⟨time, hfrom⟩ : ∃ time, ∀ r ∈ cs.flatMap SignIn.readings, time ≤ r := by
    unfold Ordered at ho
    cases hr : cs.flatMap SignIn.readings with
    | nil => exact ⟨0, by simp⟩
    | cons r rs =>
      rw [hr] at ho
      exact ⟨r, by simpa using (List.pairwise_cons.mp ho).1⟩
  have honce := (@nodup_of_run cr {} [] time cs (hempty time) ho hfrom hin).1
  refine ⟨honce, honce.of_map, meets_of_forall (fun v c hc => ?_) _⟩
  cases c with
  | beginFlow => trivial
  | verifyCallback => trivial
  | verifyNative prune io idToken allowedAuds =>
    intro hok
    obtain ⟨parts, key, ht, -⟩ := verifyNative_trusted hok (hin _ hc)
    exact ⟨parts, key, ht⟩

/-- A sign-in at the time `now` with a token whose header names the key `a` and whose signature
is `AAA`, while Apple's server delivers this key. -/
private def signInAt (now : Int) (payload : Bytes) : SignIn :=
  let io : JwksIo := ⟨0, .response 200
    (ascii "\x7b\"keys\":[\x7b\"kid\":\"a\",\"n\":\"AQAB\",\"e\":\"AQAB\"\x7d]\x7d"), 0⟩
  .verifyNative now ⟨io, io, now⟩
    (ascii "eyJhbGciOiJSUzI1NiIsImtpZCI6ImEifQ." ++ payload ++ ascii ".AAA") [ascii "i"]

/-- The payload of issuer, audience `i`, subject `s` and the expiry 2000. -/
private def payload2000 : Bytes :=
  ascii "eyJpc3MiOiJodHRwczovL2FwcGxlaWQuYXBwbGUuY29tIiwiYXVkIjoiaSIsImV4cCI6Mj" ++
  ascii "AwMCwic3ViIjoicyJ9"

/-- The same with the expiry 9223372036854775760. -/
private def payloadLate : Bytes :=
  ascii "eyJpc3MiOiJodHRwczovL2FwcGxlaWQuYXBwbGUuY29tIiwiYXVkIjoiaSIsImV4cCI6OT" ++
  ascii "IyMzM3MjAzNjg1NDc3NTc2MCwic3ViIjoicyJ9"

theorem native_guarded_replayed :
    let cr : Primitives := ⟨fun _ _ _ _ => true, fun _ => []⟩
    let cs := [signInAt 1000 payload2000, signInAt 2030 payload2000, signInAt 2031 payload2000]
    Guarded cr cs ∧ (acceptedTokens cr {} cs).length = 1 := by
  refine ⟨native_guarded _ _ (by simp [Ordered, SignIn.readings, signInAt]) fun c hc => ?_, ?_⟩
  swap
  · simp only [signInAt, payload2000]
    iterate 6 rw [ascii_ofList]
    decide +kernel
  have hexp : (parseJwt (ascii "eyJhbGciOiJSUzI1NiIsImtpZCI6ImEifQ." ++ payload2000 ++
      ascii ".AAA")).all fun parts => parts.expiry = 2000 := by
    simp only [payload2000]
    iterate 4 rw [ascii_ofList]
    decide +kernel
  simp only [List.mem_cons, List.not_mem_nil, or_false] at hc
  rcases hc with rfl | rfl | rfl <;> intro parts hp <;>
    · rw [hp, Option.all_some, decide_eq_true_eq] at hexp
      omega

/-- The expiry is so late that 60 seconds more are not a `long long`: the pruning forgets the
token at once. -/
theorem late_expiry_replayed :
    let cr : Primitives := ⟨fun _ _ _ _ => true, fun _ => []⟩
    let cs := [signInAt 1000 payloadLate, signInAt 1000 payloadLate]
    Ordered cs ∧ (acceptedTokens cr {} cs).length = 2 ∧ ¬Guarded cr cs := by
  have hlen : ∀ l : List Bytes, l = [l.getD 0 [], l.getD 0 []] → ¬l.Nodup := by
    rintro l h
    rw [h]
    simp
  refine ⟨by simp [Ordered, SignIn.readings, signInAt], ?_, fun h => hlen _ ?_ h.tokens⟩
  · simp only [signInAt, payloadLate]
    iterate 6 rw [ascii_ofList]
    decide +kernel
  · simp only [signInAt, payloadLate]
    iterate 6 rw [ascii_ofList]
    decide +kernel

end TrafficMonitor.Siwa
