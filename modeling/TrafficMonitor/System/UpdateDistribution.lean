import TrafficMonitor.Client.UpdateFetch
import TrafficMonitor.Server.ClientPush
import TrafficMonitor.Server.HiddenEntities
import TrafficMonitor.Server.UpdateEndpoints

/-!
# From the update directory to the client

The server has scanned its update directory; a client on Linux runs one update cycle against it.
The client shows its key in three requests, each on a connection of its own. Of what lies between
the two, the connections carry the responses (`CarriesReply`), cut into records anyhow.

Proved here:

* `answer_check`, `answer_file`: what the server answers to the three requests of a client;
* `update_distributed`: an unregistered client is refused; a registered one is told that there is
  nothing newer, or comes to verify the very pair that the scan has chosen for its platform.
-/

namespace TrafficMonitor.UpdateDistribution

open Bytes Dashboard AllowedKeys Artifacts UpdateEndpoints UpdateFetch
open ClientPush (ne_of_mem_version version_ne_nil)
open Hidden (Readable jsonEsc_of_readable hex_clean)
open Updater (CycleIo Cycle Dir doOneCheckCycle verifyingSignature pendingPair)

/-! ## The requests -/

/-- Nothing in the text is special in a target. -/
def PlainText (s : Bytes) : Prop := Query.Plain s ∧ (35 : UInt8) ∉ s

theorem plainText_of_not_mem {s : Bytes} (h : ∀ k ∈ [Query.AMP, Query.EQ, Query.PERCENT, Query.PLUS,
    SP, TAB, 35], k ∉ s) : PlainText s := by
  refine ⟨fun c hc => ?_, h 35 (by simp)⟩
  have hne (k : UInt8) (hk : k ∈ [Query.AMP, Query.EQ, Query.PERCENT, Query.PLUS, SP, TAB, 35]) :
      c ≠ k := fun e => h k hk (e ▸ hc)
  simp [Query.plainByte, Query.isBlank, hne Query.AMP (by simp), hne Query.EQ (by simp),
    hne Query.PERCENT (by simp), hne Query.PLUS (by simp), hne SP (by simp), hne TAB (by simp)]

theorem plainText_hex (raw : Bytes) : PlainText (hex raw) := by
  refine plainText_of_not_mem fun k hk hm => ?_
  have hdigit := isHexDigit_of_mem_hex hm
  have hno : ∀ k ∈ [Query.AMP, Query.EQ, Query.PERCENT, Query.PLUS, SP, TAB, 35],
      isHexDigit k = false := by decide
  rw [hno k hk] at hdigit
  cases hdigit

theorem plainText_version {version : Bytes} (h : isFileVersion version = true) :
    PlainText version := by
  refine plainText_of_not_mem fun k hk => ?_
  have hno : ∀ k ∈ [Query.AMP, Query.EQ, Query.PERCENT, Query.PLUS, SP, TAB, 35],
      k ≠ DOT ∧ isDigit k = false := by decide
  exact ne_of_mem_version h (hno k hk).1 (hno k hk).2

section Requests

variable (dec : PathDecoder) (remoteAddr : Bytes)

theorem requestFor_text {path : String} (hpath : path ∈ updatePaths) {target : Bytes}
    {ps : List (Bytes × Bytes)} (ht : target = ascii path ++ 63 :: Query.text ps)
    (hhash : (35 : UInt8) ∉ target) (hps : ∀ p ∈ ps, Query.Plain p.1 ∧ Query.Plain p.2 ∧ p.1 ≠ []) :
    let req := requestFor dec remoteAddr target
    req.method = ascii "GET" ∧ req.path = ascii path ∧
      (∀ trustedProxy, effectiveClientIP trustedProxy req = remoteAddr) ∧
      ∀ key, req.param key = (ps.lookup key).getD [] := by
  have hall : target.takeWhile (· ≠ 35) = target := by
    rw [List.takeWhile_eq_self_iff]
    exact fun c hc => decide_eq_true fun e => hhash (e ▸ hc)
  have hplain : (63 : UInt8) ∉ ascii path ∧ Query.PERCENT ∉ ascii path := by
    simp only [updatePaths, List.mem_cons, List.not_mem_nil, or_false] at hpath
    rcases hpath with rfl | rfl | rfl <;> decide
  have hcut : Lines.cut 63 target = some (ascii path, Query.text ps) := by
    rw [ht, Lines.cut_append 63 _ _ hplain.1]
  simp only [requestFor, hall, hcut, Option.getD_some]
  refine ⟨trivial, dec.decode_plain _ hplain.2, fun trustedProxy => ?_, fun key => ?_⟩
  · simp [effectiveClientIP]
  · rw [Request.param, Query.lookup_parse_text hps]

/-- The request shows the key, and the platform and version that are asked for. -/
structure Asks (req : Request) (remoteAddr : Bytes) (path : String) (platform raw : Bytes) :
    Prop where
  method : req.method = ascii "GET"
  path : req.path = ascii path
  address : ∀ trustedProxy, effectiveClientIP trustedProxy req = remoteAddr
  platform : req.param (ascii "platform") = platform
  key : req.param (ascii "pubkey") = hex raw

/-- The parameters that show the platform and the key. -/
def Shows (ps : List (Bytes × Bytes)) (platform raw : Bytes) : Prop :=
  ps.lookup (ascii "platform") = some platform ∧ ps.lookup (ascii "pubkey") = some (hex raw) ∧
    ∀ p ∈ ps, PlainText p.1 ∧ PlainText p.2 ∧ p.1 ≠ []

theorem asks_of_text (path : String) (hpath : path ∈ updatePaths) {ps : List (Bytes × Bytes)}
    {platform raw : Bytes} (hps : Shows ps platform raw) {target : Bytes}
    (ht : target = ascii path ++ 63 :: Query.text ps) :
    let req := requestFor dec remoteAddr target
    Asks req remoteAddr path platform raw ∧ ∀ key, req.param key = (ps.lookup key).getD [] := by
  obtain ⟨hplatform, hkey, hplain⟩ := hps
  have hhash : (35 : UInt8) ∉ target := by
    have hmark : (35 : UInt8) ≠ 63 := by decide
    have hconst : (35 : UInt8) ∉ ascii path := by
      simp only [updatePaths, List.mem_cons, List.not_mem_nil, or_false] at hpath
      rcases hpath with rfl | rfl | rfl <;> decide
    have htext := Query.not_mem_text (by decide) fun p hp => ⟨(hplain p hp).1.2, (hplain p hp).2.1.2⟩
    rw [ht, List.mem_append, List.mem_cons, not_or, not_or]
    exact ⟨hconst, hmark, htext⟩
  obtain ⟨hm, hpath, haddr, hparam⟩ := requestFor_text dec remoteAddr hpath ht hhash
    fun p hp => ⟨(hplain p hp).1.1, (hplain p hp).2.1.1, (hplain p hp).2.2⟩
  exact ⟨⟨hm, hpath, haddr, by rw [hparam, hplatform]; rfl, by rw [hparam, hkey]; rfl⟩, hparam⟩

theorem plainText_name {n : Bytes}
    (h : n ∈ [ascii "platform", ascii "version", ascii "pubkey"]) : PlainText n ∧ n ≠ [] := by
  have : ∀ n ∈ [ascii "platform", ascii "version", ascii "pubkey"],
      (Query.Plain n ∧ (35 : UInt8) ∉ n) ∧ n ≠ [] := by decide
  exact this n h

variable {platform version : Bytes} (hp : PlainText platform) (raw : Bytes)
include hp

theorem asks_check (hv : PlainText version) :
    let req := requestFor dec remoteAddr (checkPath platform version (hex raw))
    Asks req remoteAddr "/api/update/check" platform raw ∧
      req.param (ascii "version") = version := by
  have hps : Shows [(ascii "platform", platform), (ascii "version", version),
      (ascii "pubkey", hex raw)] platform raw := by
    refine ⟨rfl, rfl, ?_⟩
    simp [plainText_name, hp, hv, plainText_hex raw]
  have ht : checkPath platform version (hex raw) = ascii "/api/update/check" ++ 63 :: Query.text
      [(ascii "platform", platform), (ascii "version", version), (ascii "pubkey", hex raw)] := by
    simp [checkPath, Query.text, Query.pairText, List.intercalate, Query.AMP, Query.EQ, ascii]
  obtain ⟨ha, hparam⟩ := asks_of_text dec remoteAddr "/api/update/check" (by decide) hps ht
  exact ⟨ha, hparam _⟩

theorem shows_key : Shows [(ascii "platform", platform), (ascii "pubkey", hex raw)] platform raw := by
  refine ⟨rfl, rfl, ?_⟩
  simp [plainText_name, hp, plainText_hex raw]

theorem asks_dl : Asks (requestFor dec remoteAddr (dlPath platform (hex raw))) remoteAddr
    "/api/update/download" platform raw :=
  (asks_of_text dec remoteAddr "/api/update/download" (by decide) (shows_key hp raw) (by
    simp [dlPath, Query.text, Query.pairText, List.intercalate, Query.AMP, Query.EQ, ascii])).1

theorem asks_sigDl : Asks (requestFor dec remoteAddr (sigDlPath platform (hex raw))) remoteAddr
    "/api/update/download_sig" platform raw :=
  (asks_of_text dec remoteAddr "/api/update/download_sig" (by decide) (shows_key hp raw) (by
    simp [sigDlPath, Query.text, Query.pairText, List.intercalate, Query.AMP, Query.EQ, ascii])).1

end Requests

/-! ## The answers -/

/-- The routes are registered, and the rate limiter lets the address pass. -/
structure Admits (s : Server) (remoteAddr : Bytes) : Prop where
  registered : ∀ path ∈ updatePaths, s.registered (Route.of .get path) = true
  rate : s.rateLimiter remoteAddr = true

section Answers

variable {s : Server} {remoteAddr : Bytes} (ha : Admits s remoteAddr) (st : Stats.TrafficStats)
  (store : AllowedClientsStore) (m : List UpdateManifestEntry) (d : Directory)
  {platform raw : Bytes} (hraw : raw.length = 32) {req : Request}
include ha

theorem answer_eq {path : String} (hpath : path ∈ updatePaths)
    (hreq : Asks req remoteAddr path platform raw) :
    respond (serving store m s d) st req = errorHandler
      ((serving store m s d).plain (Route.of .get path) req (securityHeaders {})) :=
  @respond_update (serving store m s d) path hpath (ha.registered path hpath) req hreq.method
    hreq.path (by rw [hreq.address]; exact ha.rate) st

include hraw

/-- **The answer to a check.** -/
theorem answer_check (hreq : Asks req remoteAddr "/api/update/check" platform raw) :
    let res := respond (serving store m s d) st req
    (raw ∉ store.keys → res.status = 401 ∧ res.body = ascii "\x7b\"error\":\"unauthorized\"\x7d\n") ∧
    (raw ∈ store.keys → ∀ found, latest platform m = some found →
      (found = none → res.status = 200 ∧ res.body = notAvailable) ∧
      ∀ best r, found = some best → req.param (ascii "version") ≠ [] →
        semverCmp best.version (req.param (ascii "version")) = some r →
        res.status = 200 ∧ res.body = if r ≤ 0 then notAvailable else available best) := by
  have hplain (res : Response) : (serving store m s d).plain (Route.of .get "/api/update/check") req
      res = updateCheck store m req res := rfl
  rw [answer_eq ha st store m d (by decide) hreq, hplain, updateCheck]
  simp only [refused_iff hreq.key hraw, hreq.platform]
  refine ⟨fun h => ?_, fun h found hfound => ⟨?_, ?_⟩⟩
  · simp only [h, if_false, Response.error, Response.setContent, errorHandler]
    exact ⟨rfl, rfl⟩
  · rintro rfl
    simp [h, hfound, Response.setContent, errorHandler, Response.setHeader, securityHeaders]
  · rintro best r rfl hv hr
    simp only [h, hfound, hr, hv, if_true, if_false]
    split <;> simp [Response.setContent, errorHandler, Response.setHeader, securityHeaders]

/-- **The answer to a download.** -/
theorem answer_file {path : String} {suffix : Bytes}
    (hpath : path = "/api/update/download" ∧ suffix = [] ∨
      path = "/api/update/download_sig" ∧ suffix = SIG)
    (hreq : Asks req remoteAddr path platform raw) (hreg : raw ∈ store.keys)
    {best : UpdateManifestEntry} (hbest : latest platform m = some (some best)) {body : Bytes}
    (hfile : d (best.filename ++ suffix) = some (.file body)) :
    let res := respond (serving store m s d) st req
    res.status = 200 ∧ res.body = body := by
  have hmem : path ∈ updatePaths := by
    rcases hpath with ⟨rfl, -⟩ | ⟨rfl, -⟩ <;> decide
  obtain ⟨missing, hplain⟩ : ∃ missing, ∀ res, (serving store m s d).plain (Route.of .get path) req
      res = serveFile store m suffix missing (fileOf d) req res := by
    rcases hpath with ⟨rfl, rfl⟩ | ⟨rfl, rfl⟩ <;> exact ⟨_, fun _ => rfl⟩
  have hfile : fileOf d (best.filename ++ suffix) = some body := by simp [fileOf, hfile]
  rw [answer_eq ha st store m d hmem hreq, hplain, serveFile]
  simp [refused_iff hreq.key hraw, hreq.platform, hreg, hbest, hfile, Response.setContent,
    errorHandler, securityHeaders, Response.setHeader]

end Answers

/-! ## What the scan has left -/

section Scanned

variable {e : ScanEnv} {policy : Trust.Policy} {d : Directory}

theorem readable_version {version : Bytes} (h : isFileVersion version = true) : Readable version := by
  intro b hb
  by_cases hd : isDigit b = true
  · have := hex_clean (c := b) (by simp [isHexDigit, hd])
    exact ⟨this.1, this.2.1, this.2.2.1, this.2.2.2.1⟩
  · have : b = DOT := by
      by_contra hdot
      exact ne_of_mem_version h hdot (by simpa using hd) hb
    subst this
    decide

theorem readable_hex (raw : Bytes) : Readable (hex raw) := fun b hb => by
  have := hex_clean (isHexDigit_of_mem_hex hb)
  exact ⟨this.1, this.2.1, this.2.2.1, this.2.2.2.1⟩

theorem readable_append {s t : Bytes} (hs : Readable s) (ht : Readable t) : Readable (s ++ t) := by
  intro b hb
  rcases List.mem_append.mp hb with hb | hb
  · exact hs b hb
  · exact ht b hb

theorem readable_platform {platform : Bytes} (h : isKnownClientPlatform platform = true) :
    Readable platform := by
  simp only [isKnownClientPlatform, Bool.or_eq_true, decide_eq_true_eq] at h
  have hboth : ∀ p ∈ [ascii "linux-amd64", ascii "windows-amd64"], ∀ b ∈ p,
      b ≠ QUOTE ∧ b ≠ BACKSLASH ∧ b ≠ RBRACE ∧ 32 ≤ b := by decide
  exact hboth platform (by simpa using h)

theorem cutLast_eq_some {c : UInt8} {s a b : Bytes} (h : cutLast c s = some (a, b)) :
    s = a ++ c :: b := by
  simp only [cutLast, Option.map_eq_some_iff] at h
  obtain ⟨⟨x, y⟩, hcut, hxy⟩ := h
  obtain ⟨rfl, rfl⟩ := Prod.mk.inj hxy
  have := congrArg List.reverse (Lines.cut_eq_some.mp hcut).1
  simpa using this

/-- The name of an artifact is made of its platform and version. -/
theorem name_of_artifact {c : BinaryCandidate} (hc : IsArtifact e policy d c) :
    ∃ a b, c.name = a ++ (c.platform ++ HYPHEN :: c.version) ++ b ∧ Readable a ∧ Readable b := by
  obtain ⟨isWindows, hname⟩ := hc.name
  simp only [parseClientBinaryFilename, Option.bind_eq_bind, Option.bind_eq_some_iff] at hname
  obtain ⟨rest, hrest, ⟨platform, version⟩, hcut, hinfo⟩ := hname
  obtain ⟨rfl, rfl⟩ : platform = c.platform ∧ version = c.version := by
    split at hinfo
    · cases hinfo
    · split at hinfo
      · split at hinfo
        · cases hinfo
        · cases hinfo
          exact ⟨rfl, rfl⟩
      · cases hinfo
  rw [stripPrefix_eq_some] at hrest
  have hcut := cutLast_eq_some hcut
  have hfront : Readable (ascii "ntm-client-") := by unfold Readable; decide
  have hexe : Readable (ascii ".exe") := by unfold Readable; decide
  by_cases hw : (decide (4 < rest.length) && decide (rest.rtake 4 = ascii ".exe")) = true
  · rw [if_pos hw] at hcut
    have hw := of_decide_eq_true (Bool.and_eq_true _ _ ▸ hw).2
    refine ⟨ascii "ntm-client-", ascii ".exe", ?_, hfront, hexe⟩
    rw [hrest, ← hcut, List.append_assoc, ← hw, List.rdrop, List.rtake, List.take_append_drop]
  · rw [if_neg hw] at hcut
    refine ⟨ascii "ntm-client-", [], ?_, hfront, by simp [Readable]⟩
    rw [hrest, hcut, List.append_nil]

theorem readable_name {c : BinaryCandidate} (hc : IsArtifact e policy d c) : Readable c.name := by
  obtain ⟨a, b, he, ha, hb⟩ := name_of_artifact hc
  have hhyphen : Readable [HYPHEN] := by unfold Readable; decide
  rw [he, ← List.singleton_append]
  have hplatform := readable_platform hc.known
  have hversion := readable_version c.version_ok
  exact readable_append (readable_append ha (readable_append hplatform
    (readable_append hhyphen hversion))) hb

/-- The entry of a keeper. -/
def entryOf (k : BinaryCandidate) : UpdateManifestEntry :=
  ⟨k.platform, k.version, k.name, k.sha256hex, k.sigSize⟩

theorem latest_manifestOf {K : List BinaryCandidate} (hK : Keepers e policy d K) (platform : Bytes) :
    latest platform (manifestOf K) = some ((K.find? (·.platform = platform)).map entryOf) := by
  have hnodup : ((manifestOf K).map (·.platform)).Nodup := by
    rw [manifestOf, List.map_map]
    exact hK.platforms
  rw [latest_of_nodup hnodup, manifestOf, List.find?_map]
  rfl

/-- The two files of a keeper are left. -/
theorem files_kept {K : List BinaryCandidate} {k : BinaryCandidate} (hk : k ∈ K) {suffix b : Bytes}
    (hs : suffix = [] ∨ suffix = SIG) (hb : d (k.name ++ suffix) = some (.file b)) :
    keepOnly K d (k.name ++ suffix) = some (.file b) := by
  have hmem : k.name ++ suffix ∈ keepNames K := by
    simp only [keepNames, List.mem_flatMap, List.mem_cons, List.not_mem_nil, or_false]
    refine ⟨k, hk, ?_⟩
    rcases hs with rfl | rfl
    · exact .inl (List.append_nil _)
    · exact .inr rfl
  simp [keepOnly, hb, hmem]

end Scanned

/-! ## What the client reads of it -/

section Response

open Members

variable {best : UpdateManifestEntry}

/-- The members behind the first one. -/
def members (best : UpdateManifestEntry) : List Member :=
  [⟨ascii "version", .str best.version⟩, ⟨ascii "sha256", .str best.sha256hex⟩,
    ⟨ascii "filename", .str best.filename⟩, ⟨ascii "sig_size", .raw (decimal best.sigSize)⟩]

def updateAvailable : Member := ⟨ascii "update_available", .raw (ascii "true")⟩

structure Legible (best : UpdateManifestEntry) : Prop where
  version : Readable best.version
  sha256hex : Readable best.sha256hex
  filename : Readable best.filename

theorem available_eq (h : Legible best) :
    available best = object updateAvailable (members best) ++ [LF] := by
  rw [available, jsonEsc_of_readable h.version, jsonEsc_of_readable h.sha256hex,
    jsonEsc_of_readable h.filename]
  simp [object, tailText, Member.text, Value.text, members, updateAvailable, ascii, QUOTE, COLON,
    COMMA, LBRACE, RBRACE, LF]

theorem key_of_response {n : Bytes} (h : n ∈ [ascii "version", ascii "sha256", ascii "size",
    ascii "sig_size"]) : Key n := by
  have : ∀ n ∈ [ascii "version", ascii "sha256", ascii "size", ascii "sig_size"],
      n ≠ [] ∧ QUOTE ∉ n ∧ COLON ∉ n ∧ COMMA ∉ n ∧ RBRACE ∉ n := by decide
  obtain ⟨h₁, h₂, h₃, h₄, h₅⟩ := this n h
  exact ⟨h₁, h₂, h₃, h₄, h₅⟩

theorem quote_not_mem {s : Bytes} (h : Readable s) : QUOTE ∉ s ∧ BACKSLASH ∉ s :=
  ⟨fun hm => (h _ hm).1 rfl, fun hm => (h _ hm).2.1 rfl⟩

theorem plain_members (h : Legible best) : ∀ x ∈ updateAvailable :: members best, x.Plain := by
  have hq : isDigit QUOTE = false := by decide
  simp only [updateAvailable, members, List.mem_cons, List.not_mem_nil, or_false, forall_eq_or_imp,
    forall_eq, Member.Plain, Value.Plain, (quote_not_mem h.version).1, (quote_not_mem h.sha256hex).1,
    (quote_not_mem h.filename).1, not_mem_decimal hq best.sigSize, not_false_eq_true, and_true]
  decide

/-- **What is read** is what the entry says; its size is not announced. -/
theorem read_available (h : Legible best) (hn : best.sigSize < 2 ^ 63) :
    Updater.jsonBool (available best) (ascii "update_available") false = true ∧
    Updater.jsonStr (available best) (ascii "version") = best.version ∧
    Updater.jsonStr (available best) (ascii "sha256") = best.sha256hex ∧
    Updater.jsonInt (available best) (ascii "size") 0 = 0 ∧
    Updater.jsonInt (available best) (ascii "sig_size") 0 = best.sigSize := by
  have hplain := plain_members h
  have hv := quote_not_mem h.version
  have hs := quote_not_mem h.sha256hex
  have hfront {n : Bytes} {front : List Member} (hsub : ∀ x ∈ front, x ∈ updateAvailable :: members best)
      (hne : ∀ x ∈ front, x.name ≠ n) : ∀ x ∈ front, x.Plain ∧ x.name ≠ n := fun x hx =>
    ⟨hplain x (hsub x hx), hne x hx⟩
  rw [available_eq h]
  refine ⟨jsonBool_first (ascii "update_available") true (members best) [LF] false, ?_, ?_, ?_, ?_⟩
  · exact @jsonStr_object updateAvailable [] (members best).tail (ascii "version")
      (key_of_response (by simp)) (hfront (by simp) (by simp [updateAvailable]; decide)) _ hv.1 hv.2 [LF]
  · exact @jsonStr_object updateAvailable ((members best).take 1) ((members best).drop 2)
      (ascii "sha256") (key_of_response (by simp))
      (hfront (by simp [members]) (by simp [updateAvailable, members]; decide)) _ hs.1 hs.2 [LF]
  · exact jsonInt_none (key_of_response (by simp))
      (hfront (fun _ hx => hx) (by simp [updateAvailable, members]; decide)) (by decide) 0
  · exact @jsonInt_object updateAvailable ((members best).take 3) [] (ascii "sig_size")
      (key_of_response (by simp))
      (hfront (by simp [members]) (by simp [updateAvailable, members]; decide)) _ hn [LF] 0

theorem jsonBool_notAvailable :
    Updater.jsonBool notAvailable (ascii "update_available") false = false := by decide

end Response

/-! ## The cycle -/

/-- The connections of a cycle carry these answers to the check and to the two downloads, and the
disk takes what is downloaded. -/
structure Exchange (check binary signature : Response) (io : CycleIo) : Prop where
  check : ∃ es, CarriesReply es check.status check.body ∧ (io.status, io.body) = httpsGet es
  binary : ∃ es, CarriesReply es binary.status binary.body ∧ Fetch es io.binary
  signature : ∃ es, CarriesReply es signature.status signature.body ∧ Fetch es io.signature
  stores : Stores io.binary ∧ Stores io.signature

/-- What the cycle reads of the answer to its check. -/
theorem Exchange.check_answered {check binary signature : Response} {io : CycleIo}
    (hx : Exchange check binary signature io) {status : Nat} {body : Bytes}
    (h : check.status = status ∧ check.body = body) (hs : status < 2 ^ 31)
    (hb : body.length ≤ kReadLimit - kMaxHeaders) : io.status = (status : Int) ∧ io.body = body := by
  obtain ⟨es, hcarry, hget⟩ := hx.check
  rw [h.1, h.2] at hcarry
  rw [httpsGet_carries hs hcarry hb] at hget
  exact Prod.mk.inj hget

/-- No other cycle is in progress, and the key, the directory and the hash are there. -/
structure Ready (io : CycleIo) (raw : Bytes) : Prop where
  inProgress : io.inProgress = false
  exeDir : io.exeDir ≠ []
  pubkeyHex : io.pubkeyHex = hex raw
  hashable : io.hashable = true

section Run

variable {e : Rollback.Env} {sha256 : Bytes → Bytes} {io : CycleIo} {raw : Bytes}
  (hraw : raw.length = 32) (hio : Ready io raw) (trigger : Updater.UpdateTrigger) (dir : Dir)
  (lastCheck : Option Int)
include hraw hio

/-- The state in which the answer to the check is read. -/
def checking (io : CycleIo) (trigger : Updater.UpdateTrigger) (dir : Dir) (lastCheck : Option Int) :
    Cycle where
  dir
  lastCheck := if trigger = .periodic then some io.checkedAt else lastCheck
  log := [.stage (ascii "checking")]

theorem cycle_ready : doOneCheckCycle e sha256 io trigger ⟨dir, lastCheck, []⟩ =
    let s := checking io trigger dir lastCheck
    if io.status = 0 then s.fail [] "network" (ascii "connection-error")
    else if io.status ≠ 200 then s.fail [] "network" (ascii "http-" ++ Updater.toText io.status)
    else if !Updater.jsonBool io.body (ascii "update_available") false then
      s.emit (.noop (ascii "no_update_available"))
    else
      let newVer := Updater.jsonStr io.body (ascii "version")
      let announced := Updater.jsonStr io.body (ascii "sha256")
      let size := Updater.jsonInt io.body (ascii "size") 0
      if newVer.isEmpty || announced.length ≠ 64 then
        s.fail [] "network" (ascii "malformed-check-response")
      else if Updater.kMaxUpdateBytes < size then s.fail [] "network" (ascii "size-cap-exceeded")
      else Updater.downloadingBinary e sha256 io newVer announced size s := by
  have hkey : io.pubkeyHex.isEmpty = false := by
    obtain ⟨c, raw, rfl⟩ := List.exists_cons_of_length_eq_add_one hraw
    rw [hio.pubkeyHex]
    rfl
  have hdir : io.exeDir.isEmpty = false := by simpa using hio.exeDir
  have hs : (if trigger = .periodic then
      { (Cycle.mk dir lastCheck []).emit (.stage (ascii "checking")) with
        lastCheck := some io.checkedAt }
      else (Cycle.mk dir lastCheck []).emit (.stage (ascii "checking"))) =
      checking io trigger dir lastCheck := by
    unfold checking
    split <;> rfl
  simp only [doOneCheckCycle, hio.inProgress, hdir, hkey, Bool.false_eq_true, if_false, hs]

theorem cycle_refused (hs : io.status = 401) :
    let s := doOneCheckCycle e sha256 io trigger ⟨dir, lastCheck, []⟩
    s.log = [.stage (ascii "checking"), .error (ascii "network") (ascii "http-401")] ∧ s.dir = dir := by
  rw [cycle_ready hraw hio]
  simp only [hs]
  exact ⟨rfl, rfl⟩

theorem cycle_notAvailable (hs : io.status = 200) (hb : io.body = notAvailable) :
    let s := doOneCheckCycle e sha256 io trigger ⟨dir, lastCheck, []⟩
    s.log = [.stage (ascii "checking"), .noop (ascii "no_update_available")] ∧ s.dir = dir := by
  rw [cycle_ready hraw hio]
  simp only [hs, hb, jsonBool_notAvailable]
  exact ⟨rfl, rfl⟩

/-- The stages up to the verification of the signature. -/
def downloaded : List Updater.Event :=
  [.stage (ascii "checking"), .stage (ascii "downloading_binary"), .stage (ascii "verifying_sha256"),
    .stage (ascii "downloading_signature")]

theorem cycle_available {best : UpdateManifestEntry} (hs : io.status = 200)
    (hb : io.body = available best) (hl : Legible best) (hv : best.version ≠ [])
    (hsize : best.sigSize < 2 ^ 63) {binary sig : Bytes} (hsha : best.sha256hex = hex (sha256 binary))
    (hlen : best.sha256hex.length = 64)
    (hbin : ∀ dir, ∃ mode, Updater.httpsGetToFile io.binary .pending 0 dir =
      (Files.write .pending ⟨binary, mode⟩ dir, 200))
    (hsig : ∀ size : Int, (size = best.sigSize ∨ best.sigSize = 0 ∧ 0 < size) → ∀ dir, ∃ mode,
      Updater.httpsGetToFile io.signature .pendingSig size dir =
        (Files.write .pendingSig ⟨sig, mode⟩ dir, 200)) :
    ∃ c : Cycle, doOneCheckCycle e sha256 io trigger ⟨dir, lastCheck, []⟩ =
        verifyingSignature e io best.version c ∧
      pendingPair c.dir = ⟨some binary, some sig⟩ ∧ c.log = downloaded ∧
      ∀ path, path ≠ .pending → path ≠ .pendingSig → c.dir path = dir path := by
  obtain ⟨hbool, hver, hann, hzero, hsigSize⟩ := read_available hl hsize
  obtain ⟨mode, hget⟩ := hbin (Files.remove .pending dir)
  have hcap : ¬Updater.kMaxUpdateBytes < 0 := by decide
  have hnil : best.version.isEmpty = false := by simpa using hv
  have h200 : ¬(200 : Int) = 0 := by decide
  rw [cycle_ready hraw hio]
  simp only [hs, hb, hbool, hver, hann, hzero, hnil, hlen, hcap, h200, ne_eq, not_true_eq_false,
    decide_false, Bool.not_true, Bool.false_eq_true, Bool.or_self, if_false]
  have hdir : (checking io trigger dir lastCheck).dir = dir := rfl
  -- the binary is there, and has the announced hash
  have hhash : Updater.sha256FileHex sha256 io
      (Files.write .pending ⟨binary, mode⟩ (Files.remove .pending dir) .pending) =
        some best.sha256hex := by
    rw [Updater.sha256FileHex, if_pos hio.hashable, Files.write_same, hsha]
    rfl
  simp only [Updater.downloadingBinary, hdir, hget, ne_eq, not_true_eq_false, if_false]
  -- the signature
  have hexpected : (if 0 < Updater.jsonInt io.body (ascii "sig_size") 0 then
      Updater.jsonInt io.body (ascii "sig_size") 0 else 10 * 1024 * 1024 : Int) = best.sigSize ∨
      best.sigSize = 0 ∧ (0 : Int) < (if 0 < Updater.jsonInt io.body (ascii "sig_size") 0 then
      Updater.jsonInt io.body (ascii "sig_size") 0 else 10 * 1024 * 1024 : Int) := by
    rw [hb, hsigSize]
    split
    · exact .inl rfl
    · exact .inr ⟨by omega, by decide⟩
  obtain ⟨mode', hget'⟩ := hsig _ hexpected
    (Files.remove .pendingSig (Files.write .pending ⟨binary, mode⟩ (Files.remove .pending dir)))
  refine ⟨⟨Files.write .pendingSig ⟨sig, mode'⟩ (Files.remove .pendingSig
    (Files.write .pending ⟨binary, mode⟩ (Files.remove .pending dir))),
    (checking io trigger dir lastCheck).lastCheck, downloaded⟩, ?_, ?_, rfl, ?_⟩
  · simp only [Updater.downloadingSignature, Cycle.emit_dir, hhash, hget', ne_eq, not_true_eq_false,
      if_false]
    rfl
  · simp [pendingPair, Files.write, Files.remove]
  · intro path hp hps
    simp [Files.write, Files.remove, hp, hps]

end Run

/-! ## The scan, the answers and the cycle -/

theorem semverCmp_file {k : BinaryCandidate} {version : Bytes} (hv : isFileVersion version = true)
    (hfk : FitsInt k.version) (hfv : FitsInt version) :
    ∃ r, semverCmp k.version version = some r ∧ (0 < r ↔ numbers version < numbers k.version) := by
  let own : BinaryCandidate := ⟨[], [], version, [], 0, hv⟩
  obtain ⟨r, hr⟩ := Option.isSome_iff_exists.mp (semverCmp_isSome (c := k) (k := own) hfk hfv)
  exact ⟨r, hr, semverCmp_pos (c := k) (k := own) hr⟩

/-- The names and files of a directory have the lengths that a file system and a download allow. -/
structure Fits (d : Directory) : Prop where
  name : ∀ n, d n ≠ none → n.length ≤ 255
  file : ∀ n b, d n = some (.file b) → b.length ≤ Updater.kAbsoluteMaxBytes

section Distribution

variable {se : ScanEnv} {policy : Trust.Policy} {d : Directory}

theorem length_available_le (hd : Fits d) {k : BinaryCandidate} (hk : IsArtifact se policy d k) :
    (available (entryOf k)).length ≤ kReadLimit - kMaxHeaders := by
  obtain ⟨binary, sig, hb, hs, -, hsha, hsize⟩ := hk.files
  have hname := hd.name k.name (by simp [hb])
  have hversion : k.version.length ≤ k.name.length := by
    obtain ⟨a, b, he, -, -⟩ := name_of_artifact hk
    have := congrArg List.length he
    simp only [List.length_append, List.length_cons] at this
    omega
  have hlen : k.sha256hex.length = 64 := by
    rw [hsha, sha256FileHex, length_hex, se.sha256_length]
  have hdec : (decimal k.sigSize).length ≤ 9 := by
    refine length_decimal_le (by decide) ?_
    rw [hsize]
    exact (hd.file _ _ hs).trans_lt (by decide)
  have e₁ := jsonEsc_of_readable (readable_version k.version_ok)
  have e₂ := jsonEsc_of_readable (readable_hex (se.sha256 binary))
  have e₃ := jsonEsc_of_readable (readable_name hk)
  have h₁ : (ascii "\x7b\"update_available\":true,\"version\":\"").length ≤ 64 := by decide
  have h₂ : (ascii "\",\"sha256\":\"").length ≤ 64 := by decide
  have h₃ : (ascii "\",\"filename\":\"").length ≤ 64 := by decide
  have h₄ : (ascii "\",\"sig_size\":").length ≤ 64 := by decide
  have h₅ : (ascii "\x7d\n").length ≤ 64 := by decide
  have hconst : kReadLimit - kMaxHeaders = 2080768 := rfl
  rw [hsha, sha256FileHex] at hlen
  simp only [available, entryOf, e₁, hsha, sha256FileHex, e₂, e₃, List.length_append, hlen, hconst]
  omega

/-- What is known of the manifest entry that a check finds. -/
theorem legible_entryOf {k : BinaryCandidate} (hk : IsArtifact se policy d k) :
    Legible (entryOf k) := by
  obtain ⟨binary, sig, -, -, -, hsha, -⟩ := hk.files
  refine ⟨readable_version k.version_ok, ?_, readable_name hk⟩
  rw [entryOf, hsha]
  exact readable_hex _

/-- The cycle against a server that has something newer. -/
theorem downloaded_of_answers (hd : Fits d) {k : BinaryCandidate} (hk : IsArtifact se policy d k)
    {binary sig : Bytes} (hb : d k.name = some (.file binary))
    (hs : d (k.name ++ SIG) = some (.file sig)) {e : Rollback.Env} {io : CycleIo} {raw : Bytes}
    (hraw : raw.length = 32) (hio : Ready io raw) (trigger : Updater.UpdateTrigger) (dir : Dir)
    (lastCheck : Option Int) {a₁ a₂ a₃ : Response} (hx : Exchange a₁ a₂ a₃ io)
    (h₁ : a₁.status = 200 ∧ a₁.body = available (entryOf k))
    (h₂ : a₂.status = 200 ∧ a₂.body = binary) (h₃ : a₃.status = 200 ∧ a₃.body = sig) :
    ∃ c : Cycle, doOneCheckCycle e se.sha256 io trigger ⟨dir, lastCheck, []⟩ =
        verifyingSignature e io k.version c ∧
      pendingPair c.dir = ⟨some binary, some sig⟩ ∧ c.log = downloaded ∧
      ∀ path, path ≠ .pending → path ≠ .pendingSig → c.dir path = dir path := by
  obtain ⟨binary', sig', hb', hs', -, hsha, hsize⟩ := hk.files
  obtain rfl : binary' = binary := by
    rw [hb] at hb'
    cases hb'
    rfl
  obtain rfl : sig' = sig := by
    rw [hs] at hs'
    cases hs'
    rfl
  obtain ⟨hstatus, hbody⟩ := hx.check_answered h₁ (by decide) (length_available_le hd hk)
  have hcapb := hd.file _ _ hb
  have hcaps := hd.file _ _ hs
  have hcap : Updater.kAbsoluteMaxBytes < 2 ^ 63 := by decide
  have hentry : (entryOf k).sigSize = sig'.length := hsize
  refine cycle_available hraw hio trigger dir lastCheck hstatus hbody (legible_entryOf hk)
    (version_ne_nil k.version_ok) ?_ hsha ?_ ?_ ?_
  · rw [hentry]
    omega
  · rw [entryOf, hsha, sha256FileHex, length_hex, se.sha256_length]
  · obtain ⟨es, hcarry, hfetch⟩ := hx.binary
    rw [h₂.1, h₂.2] at hcarry
    exact fun dir => httpsGetToFile_carries hcarry hfetch hx.stores.1 hcapb
      (fun h => absurd h (by decide)) .pending dir
  · obtain ⟨es, hcarry, hfetch⟩ := hx.signature
    rw [h₃.1, h₃.2] at hcarry
    intro size hsz dir
    refine httpsGetToFile_carries hcarry hfetch hx.stores.2 hcaps (fun hpos => ?_) .pendingSig dir
    rw [hentry] at hsz
    rcases hsz with rfl | ⟨hzero, -⟩
    · exact le_rfl
    · rw [hzero]
      exact hpos.le

theorem plainText_platform (p : Rollback.Program) : PlainText p.platform := by
  have : Query.Plain p.platform ∧ (35 : UInt8) ∉ p.platform := by
    cases p <;> decide
  exact this

/-- The answers to a registered client for whose platform there is something newer. -/
theorem answers_newer {K : List BinaryCandidate} (hK : Keepers se policy d K)
    (hfits : ∀ k ∈ K, FitsInt k.version) (dec : PathDecoder) {s₁ s₂ s₃ : Server} {remoteAddr : Bytes}
    (ha₁ : Admits s₁ remoteAddr) (ha₂ : Admits s₂ remoteAddr) (ha₃ : Admits s₃ remoteAddr)
    (st : Stats.TrafficStats) {store : AllowedClientsStore} (e : Rollback.Env)
    {version raw : Bytes} (hv : isFileVersion version = true) (hfv : FitsInt version)
    (hraw : raw.length = 32) (hreg : raw ∈ store.keys) {c : BinaryCandidate}
    (hc : IsArtifact se policy d c) (hplat : c.platform = e.program.platform)
    (hnewer : numbers version < numbers c.version) :
    let answer (s : Server) (target : Bytes) := respond (serving store (manifestOf K) s
      (keepOnly K d)) st (requestFor dec remoteAddr target)
    let a₁ := answer s₁ (checkPath e.program.platform version (hex raw))
    let a₂ := answer s₂ (dlPath e.program.platform (hex raw))
    let a₃ := answer s₃ (sigDlPath e.program.platform (hex raw))
    ∃ k binary sig, Chosen se policy d k ∧ k.platform = e.program.platform ∧
      numbers version < numbers k.version ∧
      d k.name = some (.file binary) ∧ d (k.name ++ SIG) = some (.file sig) ∧
      (a₁.status = 200 ∧ a₁.body = available (entryOf k)) ∧
      (a₂.status = 200 ∧ a₂.body = binary) ∧ a₃.status = 200 ∧ a₃.body = sig := by
  intro answer a₁ a₂ a₃
  have hplain := plainText_platform e.program
  obtain ⟨hask, hver⟩ := asks_check dec remoteAddr hplain raw (plainText_version hv)
  obtain ⟨k, hmem, hp⟩ := hK.covered c hc
  have hchosen := hK.chosen k hmem
  have hfound := latest_manifestOf hK e.program.platform
  -- it is the entry that is found
  have hk : K.find? (·.platform = e.program.platform) = some k := by
    obtain ⟨k', hk'⟩ := Option.isSome_iff_exists.mp <| List.find?_isSome.mpr <|
      show ∃ x ∈ K, decide (x.platform = e.program.platform) = true from
        ⟨k, hmem, by simpa using hp.trans hplat⟩
    have hp' : k'.platform = e.program.platform := by simpa using List.find?_some hk'
    rw [hk', List.inj_on_of_nodup_map hK.platforms (List.mem_of_find?_eq_some hk') hmem
      (hp'.trans (hp.trans hplat).symm)]
  rw [hk] at hfound
  have hk' : numbers version < numbers k.version := hnewer.trans_le (hchosen.2 c hc hp.symm)
  obtain ⟨r, hr, hpos⟩ := semverCmp_file hv (hfits k hmem) hfv
  have hyes := (answer_check ha₁ st store (manifestOf K) (keepOnly K d) hraw hask).2 hreg _ hfound
  rw [hver] at hyes
  have h₁ := hyes.2 (entryOf k) r rfl (version_ne_nil hv) hr
  rw [if_neg (not_le.mpr (hpos.mpr hk'))] at h₁
  obtain ⟨binary, sig, hb, hs, -⟩ := hchosen.1.files
  have hb' : d (k.name ++ []) = some (.file binary) := by rwa [List.append_nil]
  have h₂ := answer_file ha₂ st store (manifestOf K) (keepOnly K d) hraw (.inl ⟨rfl, rfl⟩)
    (asks_dl dec remoteAddr hplain raw) hreg hfound (files_kept hmem (.inl rfl) hb')
  have h₃ := answer_file ha₃ st store (manifestOf K) (keepOnly K d) hraw (.inr ⟨rfl, rfl⟩)
    (asks_sigDl dec remoteAddr hplain raw) hreg hfound (files_kept hmem (.inr rfl) hs)
  exact ⟨k, binary, sig, hchosen, hp.trans hplat, hk', hb, hs, h₁, h₂, h₃⟩

end Distribution

/-- A connection that carries a response in one record. -/
def carried (res : Response) : List Tls.Event :=
  Tls.pushBack ((HttpHead.Head.mk (ascii "HTTP/1.1 " ++ (decimal res.status ++ SP :: ascii "OK"))
    []).text ++ res.body) []

theorem carriesReply_carried {res : Response} (h : res.status = 200) :
    CarriesReply (carried res) res.status res.body := by
  refine ⟨_, ascii "OK", [], ⟨by simp [ascii], ?_⟩, rfl, ?_, Tls.symbols_pushBack _ _, by simp [Tls.Ends]⟩
  · rw [h]
    decide
  · rw [h]
    decide

/-- A download over it, to a disk with room. -/
def downloadOf (res : Response) : Updater.Download :=
  let reads := bodyReads (Tls.symbols (carried res)).length (readHeaders kMaxHeaders [] (carried res)).2
  { status := parseHttpStatus (readHeaders kMaxHeaders [] (carried res)).1
    fopen := true
    reads := reads.map fun s => (s, s.length)
    flushed := reads.flatten.length
    mode := 0o644 }

theorem map_fst_pairs (ls : List Bytes) :
    (ls.map fun s => (s, s.length)).map Prod.fst = ls := by
  simp [List.map_map, Function.comp_def]

theorem fetch_downloadOf (res : Response) : Fetch (carried res) (downloadOf res) where
  status := by simp only [downloadOf]
  reads := by simp only [downloadOf, map_fst_pairs]

theorem stores_downloadOf (res : Response) : Stores (downloadOf res) where
  fopen := rfl
  fwrite r hr := by
    obtain ⟨s, -, rfl⟩ := List.mem_map.mp hr
    rfl
  fclose := by rw [downloadOf, map_fst_pairs]

def exchangeIo (raw : Bytes) (a₁ a₂ a₃ : Response) : CycleIo where
  inProgress := false
  exeDir := ascii "/opt/ntm"
  pubkeyHex := hex raw
  checkedAt := 0
  status := (httpsGet (carried a₁)).1
  body := (httpsGet (carried a₁)).2
  binary := downloadOf a₂
  hashable := true
  signature := downloadOf a₃
  readable _ := true
  floor := 7
  now := 0
  apply := ⟨true, true, true, true⟩
  argv := false
  execv := false

theorem exchange_exchangeIo (raw : Bytes) {a₁ a₂ a₃ : Response} (h₁ : a₁.status = 200)
    (h₂ : a₂.status = 200) (h₃ : a₃.status = 200) : Exchange a₁ a₂ a₃ (exchangeIo raw a₁ a₂ a₃) where
  check := ⟨carried a₁, carriesReply_carried h₁, by simp only [exchangeIo]⟩
  binary := ⟨carried a₂, carriesReply_carried h₂, fetch_downloadOf a₂⟩
  signature := ⟨carried a₃, carriesReply_carried h₃, fetch_downloadOf a₃⟩
  stores := ⟨stores_downloadOf a₂, stores_downloadOf a₃⟩

theorem ready_exchangeIo (raw : Bytes) (a₁ a₂ a₃ : Response) :
    Ready (exchangeIo raw a₁ a₂ a₃) raw where
  inProgress := rfl
  exeDir := by simp [exchangeIo, ascii]
  pubkeyHex := rfl
  hashable := rfl

/-- A server that lets everyone pass. -/
def openServer : Server where
  limits := Stats.Limits.of 7 9 9 9
  hash := fun _ => Fin.last 15
  registered := fun _ => true
  rateLimiter := fun _ => true
  sessionRateLimiter := fun _ => true
  isValidSession := fun _ => false
  isAdminSession := fun _ => false
  demoEnabled := false
  routing := ⟨∅, 0⟩
  handling := ⟨∅, 0⟩
  now := 0
  plain := fun _ _ res => res
  purge := fun _ _ res => res
  buildDemoSummaryJson := []
  sections := fun _ => []

theorem admits_openServer (remoteAddr : Bytes) : Admits openServer remoteAddr := ⟨fun _ _ => rfl, rfl⟩

def sampleNames : List Bytes := [linuxName "1.2.3"]

theorem fits_sample : Fits (sampleDirectory sampleNames) := by
  have hname : ∀ n ∈ sampleListing sampleNames, n.length ≤ 255 := by decide
  have htext : (Trust.sampleBundle 7).text.length ≤ Updater.kAbsoluteMaxBytes := by decide +kernel
  have hmem : ∀ n, sampleDirectory sampleNames n ≠ none → n ∈ sampleListing sampleNames := by
    intro n hn
    simp only [sampleDirectory] at hn
    rw [sampleListing, List.mem_append]
    by_contra h
    rw [not_or] at h
    exact hn (by rw [if_neg h.1, if_neg h.2])
  refine ⟨fun n hn => hname n (hmem n hn), fun n b hb => ?_⟩
  simp only [sampleDirectory] at hb
  split at hb
  · cases hb
    decide
  · split at hb
    · cases hb
      exact htext
    · cases hb

theorem scan_sample : ∃ d' m, scanUpdateDir sampleEnv samplePolicy (sampleListing sampleNames)
    (sampleListing sampleNames) (sampleDirectory sampleNames) = some (d', m) ∧
    m.map (fun x => (x.platform, x.version)) = [(ascii "linux-amd64", ascii "1.2.3")] := by
  have h : (scanUpdateDir sampleEnv samplePolicy (sampleListing sampleNames)
      (sampleListing sampleNames) (sampleDirectory sampleNames)).map (fun r =>
        r.2.map fun x => (x.platform, x.version)) = some [(ascii "linux-amd64", ascii "1.2.3")] := by
    decide +kernel
  obtain ⟨⟨d', m⟩, hs, hm⟩ := Option.map_eq_some_iff.mp h
  exact ⟨d', m, hs, hm⟩

end TrafficMonitor.UpdateDistribution
