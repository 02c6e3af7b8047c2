import TrafficMonitor.Basic.Base64
import TrafficMonitor.Basic.HttpHead
import TrafficMonitor.Client.Config

/-!
# The WebSocket upgrade

`WebSocketTransport::doHandshake` and the first part of `wsConnectionThread`: the client asks
for the upgrade with a random key, the server answers with a hash of it, and both go on with
frames on the same connection. In between, an intermediary may write the names of the headers
in another case, and add and reorder headers.

Proved here:

* `upgrade_of_carries`, `doHandshake_of_carries`: what each side makes of a head that carries the
  header it looks for;
* `upgrade_agrees`: through every such intermediary the upgrade succeeds, and on both sides the
  next byte that is read is the first one behind the head;
* `upgrade_sound`: whatever the other side sends, the server answers only a request for its path
  with a key, the client accepts only the hash of its own key, and neither reads past the head.
-/

namespace TrafficMonitor.WsUpgrade

open Bytes Tls HttpHead

def kWsGuid : Bytes := ascii "258EAFA5-E914-47DA-95CA-C5AB0DC85B11"
def kWsPath : Bytes := ascii "/ntm-ws"

/-- The hash function of the crypto library. -/
structure Sha1 where
  digest : Bytes → Bytes
  length_eq : ∀ s, (digest s).length = 20

/-- `computeAccept` and `wsComputeAccept` -/
def computeAccept (sha1 : Sha1) (key : Bytes) : Bytes :=
  Base64.encodeBlock (sha1.digest (key ++ kWsGuid))

/-- The 16 random bytes are drawn by the caller. -/
def generateKey (random : Bytes) : Bytes := Base64.encodeBlock random

/-! ## The client -/

def buildUpgradeRequest (host key : Bytes) : Bytes :=
  ascii "GET " ++ kWsPath ++ ascii " HTTP/1.1\r\nHost: " ++ host ++
    ascii "\r\nUpgrade: websocket\r\nConnection: Upgrade\r\nSec-WebSocket-Key: " ++ key ++
    ascii "\r\nSec-WebSocket-Version: 13\r\n\r\n"

def kAcceptName : Bytes := ascii "sec-websocket-accept"

/-- The value of the accept header, or the error text. -/
def parseUpgradeResponse (response : Bytes) : Except Bytes Bytes :=
  if response.length < 12 || response.take 9 ≠ ascii "HTTP/1.1 " then
    .error (ascii "not an HTTP/1.1 response")
  else if (response.drop 9).take 3 ≠ ascii "101" then
    .error (ascii "expected 101, got: " ++ response.takeWhile (· ≠ CR))
  else match findFolded ClientConfig.toLower (needle kAcceptName) response with
    | none => .error (ascii "Sec-WebSocket-Accept header missing")
    | some rest => .ok (rest.takeWhile (· ≠ CR))

def kMaxResponse : Nat := 8192

/-- `wrote` tells whether the request could be written; `es` is what the connection then holds. -/
def doHandshake (sha1 : Sha1) (random : Bytes) (wrote : Bool) (es : List Event) :
    Except Bytes Unit × List Event :=
  let expected := computeAccept sha1 (generateKey random)
  if !wrote then (.error (ascii "WebSocket upgrade request write failed"), es)
  else match readHead kMaxResponse [] es with
    | (none, es) => (.error (ascii "WebSocket upgrade: no response from server"), es)
    | (some response, es) =>
      match parseUpgradeResponse response with
      | .error e => (.error e, es)
      | .ok serverAccept =>
        if serverAccept ≠ expected then
          (.error (ascii "WebSocket Sec-WebSocket-Accept mismatch (expected=" ++ expected ++
            ascii " got=" ++ serverAccept ++ ascii ")"), es)
        else (.ok (), es)

/-! ## The server -/

/-- The accept loop: `SSL_peek` sees what the first record holds. -/
def isWebSocket : List Event → Bool
  | .record b bs :: _ => (ascii "GET " ++ kWsPath).isPrefixOf (b :: bs)
  | _ => false

def kKeyName : Bytes := ascii "sec-websocket-key"

/-- The value up to the line end, without blanks at its end; empty if there is none. -/
def wsExtractKey (request : Bytes) : Bytes :=
  match findFolded ClientConfig.toLower (needle kKeyName) request with
  | none => []
  | some rest =>
    let key := trimRight fun c => c = SP || c = CR
    if CR ∈ rest then key (rest.takeWhile (· ≠ CR))
    else if LF ∈ rest then key (rest.takeWhile (· ≠ LF))
    else []

def kMaxRequest : Nat := 16384

inductive Reply
  | closed
  | notFound
  | badRequest
  | switching (accept : Bytes)
  deriving DecidableEq, Repr

/-- What is written to the client. -/
def Reply.text : Reply → Bytes
  | .closed => []
  | .notFound => ascii "HTTP/1.1 404 Not Found\r\nContent-Length: 0\r\nConnection: close\r\n\r\n"
  | .badRequest => ascii "HTTP/1.1 400 Bad Request\r\nContent-Length: 0\r\nConnection: close\r\n\r\n"
  | .switching accept =>
    ascii "HTTP/1.1 101 Switching Protocols\r\nUpgrade: websocket\r\nConnection: Upgrade\r\n" ++
      ascii "Sec-WebSocket-Accept: " ++ accept ++ ascii "\r\n\r\n"

/-- `wsConnectionThread` up to its reply. -/
def upgrade (sha1 : Sha1) (es : List Event) : Reply × List Event :=
  match readHead kMaxRequest [] es with
  | (none, es) => (.closed, es)
  | (some httpReq, es) =>
    if !hasSub (ascii "GET " ++ kWsPath) httpReq then (.notFound, es)
    else
      let key := wsExtractKey httpReq
      if key = [] then (.badRequest, es) else (.switching (computeAccept sha1 key), es)

/-! ## Heads on the way -/

/-- The request of the client. -/
def requestHead (host key : Bytes) : Head where
  first := ascii "GET /ntm-ws HTTP/1.1"
  headers := [⟨ascii "Host", host⟩, ⟨ascii "Upgrade", ascii "websocket"⟩,
    ⟨ascii "Connection", ascii "Upgrade"⟩, ⟨ascii "Sec-WebSocket-Key", key⟩,
    ⟨ascii "Sec-WebSocket-Version", ascii "13"⟩]

/-- The reply of the server to a key. -/
def switchingHead (accept : Bytes) : Head where
  first := ascii "HTTP/1.1 101 Switching Protocols"
  headers := [⟨ascii "Upgrade", ascii "websocket"⟩, ⟨ascii "Connection", ascii "Upgrade"⟩,
    ⟨ascii "Sec-WebSocket-Accept", accept⟩]

theorem buildUpgradeRequest_eq (host key : Bytes) :
    buildUpgradeRequest host key = (requestHead host key).text := by
  simp [buildUpgradeRequest, requestHead, Head.text, Head.lines, Header.line, joinLines, crlf, ascii,
    kWsPath, CR, LF, COLON, SP]

theorem text_switching (accept : Bytes) :
    (Reply.switching accept).text = (switchingHead accept).text := by
  simp [Reply.text, switchingHead, Head.text, Head.lines, Header.line, joinLines, crlf, ascii, CR, LF,
    COLON, SP]

theorem keepsMarks_toLower : KeepsMarks ClientConfig.toLower := ⟨rfl, rfl, rfl, rfl⟩

/-! ## What the two sides find -/

theorem takeWhile_value {v : Bytes} (hv : CR ∉ v) (t : Bytes) :
    (v ++ CR :: t).takeWhile (· ≠ CR) = v := by
  have hall : ∀ c ∈ v, (decide (c ≠ CR)) = true := fun c hc =>
    decide_eq_true fun e => hv (e ▸ hc)
  rw [List.takeWhile_append_of_pos hall]
  simp

theorem wsExtractKey_of_carries {h : Head} {v : Bytes}
    (hs : h.Carries ClientConfig.toLower kKeyName v) (hv : CR ∉ v) (hsp : SP ∉ v) :
    wsExtractKey h.text = v := by
  obtain ⟨t, ht⟩ := findFolded_of_carries keepsMarks_toLower (by decide) (by decide) hs
  have htrim : trimRight (fun c => c = SP || c = CR) v = v := trimRight_of_last fun hl => by
    have hmem := List.getLast_mem hl
    have h₁ : v.getLast hl ≠ SP := fun e => hsp (e ▸ hmem)
    have h₂ : v.getLast hl ≠ CR := fun e => hv (e ▸ hmem)
    simp [h₁, h₂]
  simp only [wsExtractKey, ht, List.mem_append, List.mem_cons, true_or, or_true, if_true]
  rw [takeWhile_value hv, htrim]

theorem parseUpgradeResponse_of_carries {h : Head} {v : Bytes}
    (hfirst : ascii "HTTP/1.1 101" <+: h.first) (hs : h.Carries ClientConfig.toLower kAcceptName v)
    (hv : CR ∉ v) : parseUpgradeResponse h.text = .ok v := by
  obtain ⟨t, ht⟩ := findFolded_of_carries keepsMarks_toLower (by decide) (by decide) hs
  obtain ⟨f, hf⟩ := hfirst
  obtain ⟨u, hu⟩ : ∃ u, h.text = ascii "HTTP/1.1 " ++ (ascii "101" ++ u) :=
    ⟨f ++ CR :: LF :: (joinLines (h.headers.map Header.line) ++ crlf), by
      simp [Head.text, Head.lines, ← hf, ascii]⟩
  have h₉ : (ascii "HTTP/1.1 ").length = 9 := rfl
  have h₃ : (ascii "101").length = 3 := rfl
  have hlen : ¬h.text.length < 12 := by
    rw [hu, List.length_append, List.length_append, h₉, h₃]
    omega
  have htake : h.text.take 9 = ascii "HTTP/1.1 " := by rw [hu, ← h₉, List.take_left]
  have hcode : (h.text.drop 9).take 3 = ascii "101" := by
    rw [hu, ← h₉, List.drop_left, ← h₃, List.take_left]
  rw [parseUpgradeResponse, ht]
  simp only [hlen, htake, hcode, decide_false, ne_eq, not_true_eq_false, Bool.or_self, if_false,
    Bool.false_eq_true]
  rw [takeWhile_value hv]

theorem hasSub_of_prefix {w s : Bytes} (h : w <+: s) : hasSub w s = true := by
  have hp := List.isPrefixOf_iff_prefix.mpr h
  cases s with
  | nil => simpa [hasSub] using h
  | cons c s => simp [hasSub, hp]

section Sides

variable (sha1 : Sha1) {es : List Event} {h : Head} {v : Bytes} {rest : List Symbol}
  (hc : h.Clean) (he : symbols es = ofBytes h.text ++ rest)
include hc he

/-- **The server's side.** -/
theorem upgrade_of_carries (hlen : h.text.length ≤ kMaxRequest)
    (hpath : ascii "GET " ++ kWsPath <+: h.first)
    (hs : h.Carries ClientConfig.toLower kKeyName v) (hv : CR ∉ v) (hsp : SP ∉ v) (hne : v ≠ []) :
    ∃ es', upgrade sha1 es = (.switching (computeAccept sha1 v), es') ∧ symbols es' = rest := by
  obtain ⟨es', hr, hes⟩ := readHead_text hc hlen he
  have hfirst : h.first <+: h.text :=
    ⟨CR :: LF :: (joinLines (h.headers.map Header.line) ++ crlf), by simp [Head.text, Head.lines]⟩
  refine ⟨es', ?_, hes⟩
  simp only [upgrade, hr, hasSub_of_prefix (hpath.trans hfirst), wsExtractKey_of_carries hs hv hsp,
    Bool.not_true, Bool.false_eq_true, if_false, hne]

/-- **The client's side.** -/
theorem doHandshake_of_carries (hlen : h.text.length ≤ kMaxResponse)
    (hfirst : ascii "HTTP/1.1 101" <+: h.first) {random : Bytes}
    (hs : h.Carries ClientConfig.toLower kAcceptName (computeAccept sha1 (generateKey random))) :
    ∃ es', doHandshake sha1 random true es = (.ok (), es') ∧ symbols es' = rest := by
  obtain ⟨es', hr, hes⟩ := readHead_text hc hlen he
  have hv : CR ∉ computeAccept sha1 (generateKey random) := Base64.not_mem_encodeBlock rfl _
  refine ⟨es', ?_, hes⟩
  simp only [doHandshake, hr, parseUpgradeResponse_of_carries hfirst hs hv, Bool.not_true,
    Bool.false_eq_true, if_false, ne_eq, not_true_eq_false]

end Sides

/-! ## Through an intermediary -/

theorem toLower_upper {c : UInt8} (h : 65 ≤ c.toNat ∧ c.toNat ≤ 90) :
    (ClientConfig.toLower c).toNat = c.toNat + 32 := by
  have hu : (65 ≤ c && c ≤ 90) = true := by
    simpa [UInt8.le_iff_toNat_le] using h
  have h32 : (32 : UInt8).toNat = 32 := rfl
  rw [ClientConfig.toLower, if_pos hu, UInt8.toNat_add, h32]
  omega

theorem toLower_other {c : UInt8} (h : ¬(65 ≤ c.toNat ∧ c.toNat ≤ 90)) :
    ClientConfig.toLower c = c := by
  have hu : ¬(65 ≤ c && c ≤ 90) = true := by
    simpa [UInt8.le_iff_toNat_le] using h
  rw [ClientConfig.toLower, if_neg hu]

/-- A byte below the letters is made of no other. -/
theorem toLower_eq {c d : UInt8} (hd : d.toNat < 65) (h : ClientConfig.toLower c = d) : c = d := by
  by_cases hu : 65 ≤ c.toNat ∧ c.toNat ≤ 90
  · have e := toLower_upper hu
    rw [h] at e
    omega
  · rwa [toLower_other hu] at h

theorem toLower_eq_sp {c : UInt8} : ClientConfig.toLower c = SP → c = SP := toLower_eq (by decide)

theorem toLower_eq_cr {c : UInt8} : ClientConfig.toLower c = CR → c = CR := toLower_eq (by decide)

theorem toLower_toLower (c : UInt8) :
    ClientConfig.toLower (ClientConfig.toLower c) = ClientConfig.toLower c := by
  by_cases hu : 65 ≤ c.toNat ∧ c.toNat ≤ 90
  · have e := toLower_upper hu
    exact toLower_other (by omega)
  · rw [toLower_other hu, toLower_other hu]

theorem sp_not_mem_toLower {s : Bytes} (h : SP ∉ s) : SP ∉ s.map ClientConfig.toLower := by
  rintro hm
  obtain ⟨c, hc, e⟩ := List.mem_map.mp hm
  exact h (toLower_eq_sp e ▸ hc)

theorem carries_key {host key : Bytes} (hhost : SP ∉ host) {h : Head}
    (hf : Forwarded ClientConfig.toLower kKeyName (requestHead host key) h) :
    h.Carries ClientConfig.toLower kKeyName key := by
  have hfirst : Passes ClientConfig.toLower kKeyName (ascii "GET /ntm-ws HTTP/1.1") := by decide
  refine hf.carries keepsMarks_toLower hfirst ⟨⟨ascii "Sec-WebSocket-Key", key⟩, ?_, rfl⟩ ?_
  · simp [requestHead]
  · intro g hg
    simp only [requestHead, List.mem_cons, List.not_mem_nil, or_false] at hg
    rcases hg with rfl | rfl | rfl | rfl | rfl
    · have hn : ¬kKeyName <:+ (ascii "Host").map ClientConfig.toLower := by decide
      have hsp : SP ∉ (ascii "Host").map ClientConfig.toLower := by decide
      exact .inl (passes_of_name keepsMarks_toLower (sp_not_mem_toLower hhost) hn hsp)
    · exact .inl (by decide)
    · exact .inl (by decide)
    · exact .inr ⟨rfl, rfl⟩
    · exact .inl (by decide)

theorem carries_accept {accept : Bytes} {h : Head}
    (hf : Forwarded ClientConfig.toLower kAcceptName (switchingHead accept) h) :
    h.Carries ClientConfig.toLower kAcceptName accept := by
  have hfirst : Passes ClientConfig.toLower kAcceptName
      (ascii "HTTP/1.1 101 Switching Protocols") := by decide
  refine hf.carries keepsMarks_toLower hfirst ⟨⟨ascii "Sec-WebSocket-Accept", accept⟩, ?_, rfl⟩ ?_
  · simp [switchingHead]
  · intro g hg
    simp only [switchingHead, List.mem_cons, List.not_mem_nil, or_false] at hg
    rcases hg with rfl | rfl | rfl
    · exact .inl (by decide)
    · exact .inl (by decide)
    · exact .inr ⟨rfl, rfl⟩

theorem isWebSocket_of_first {h : Head} (hfirst : ascii "GET " ++ kWsPath <+: h.first) {b : UInt8}
    {bs : Bytes} {es : List Event} {rest : List Symbol} (hbs : 10 ≤ bs.length)
    (he : symbols (.record b bs :: es) = ofBytes h.text ++ rest) :
    isWebSocket (.record b bs :: es) = true := by
  obtain ⟨f, hf⟩ := hfirst
  obtain ⟨u, hu⟩ : ∃ u, h.text = (ascii "GET " ++ kWsPath) ++ u :=
    ⟨f ++ CR :: LF :: (joinLines (h.headers.map Header.line) ++ crlf), by
      simp [Head.text, Head.lines, ← hf]⟩
  have hlen : (ascii "GET " ++ kWsPath).length = 11 := rfl
  have e : ofBytes (b :: bs) ++ symbols es
      = ofBytes (ascii "GET " ++ kWsPath) ++ (ofBytes u ++ rest) := by
    rw [← List.append_assoc, ← ofBytes_append, ← hu]
    exact he
  have htake := congrArg (List.take 11) e
  rw [List.take_append_of_le_length (by simpa using hbs), List.take_left' ((length_ofBytes _).trans hlen),
    ofBytes, ← List.map_take] at htake
  have htake := ofBytes_injective htake
  rw [isWebSocket, ← htake]
  exact List.isPrefixOf_iff_prefix.mpr (List.take_prefix 11 _)

/-- The exchange that RFC 6455 works out. -/
def rfcSha1 : Sha1 where
  digest s := if s = ascii "dGhlIHNhbXBsZSBub25jZQ==" ++ kWsGuid then
      [0xb3, 0x7a, 0x4f, 0x2c, 0xc0, 0x62, 0x4f, 0x16, 0x90, 0xf6, 0x46, 0x06, 0xcf, 0x38, 0x59, 0x45,
        0xb2, 0xbe, 0xc4, 0xea]
    else List.replicate 20 0
  length_eq s := by split <;> rfl

def rfcRandom : Bytes := ascii "the sample nonce"

/-- A proxy has written all names in lower case. -/
def rfcRequest : Head :=
  (requestHead (ascii "192.168.1.1") (generateKey rfcRandom)).folded ClientConfig.toLower

def rfcReply : Head :=
  (switchingHead (computeAccept rfcSha1 (generateKey rfcRandom))).folded ClientConfig.toLower

theorem clean_requestHead {host key : Bytes} (hhost : CR ∉ host) (hkey : CR ∉ key) :
    (requestHead host key).Clean := by
  refine ⟨by simp [requestHead, ascii], fun l hl => ?_⟩
  simp only [Head.lines, requestHead, List.map_cons, List.map_nil, List.mem_cons, List.not_mem_nil,
    or_false] at hl
  rcases hl with rfl | rfl | rfl | rfl | rfl | rfl
  all_goals simp [Header.line, ascii, CR, COLON, SP] at hhost hkey ⊢
  all_goals assumption

theorem clean_switchingHead {accept : Bytes} (ha : CR ∉ accept) : (switchingHead accept).Clean := by
  refine ⟨by simp [switchingHead, ascii], fun l hl => ?_⟩
  simp only [Head.lines, switchingHead, List.map_cons, List.map_nil, List.mem_cons,
    List.not_mem_nil, or_false] at hl
  rcases hl with rfl | rfl | rfl | rfl
  all_goals simp [Header.line, ascii, CR, COLON, SP] at ha ⊢
  all_goals assumption

theorem rfcRequest_forwarded : Forwarded ClientConfig.toLower kKeyName
    (requestHead (ascii "192.168.1.1") (generateKey rfcRandom)) rfcRequest :=
  forwarded_folded toLower_toLower (fun _ => toLower_eq_cr) kKeyName
    (clean_requestHead (by decide) (Base64.not_mem_encodeBlock rfl _))

theorem rfcReply_forwarded : Forwarded ClientConfig.toLower kAcceptName
    (switchingHead (computeAccept rfcSha1 (generateKey rfcRandom))) rfcReply :=
  forwarded_folded toLower_toLower (fun _ => toLower_eq_cr) kAcceptName
    (clean_switchingHead (Base64.not_mem_encodeBlock rfl _))

theorem length_rfcRequest : rfcRequest.text.length ≤ kMaxRequest := by
  have hkey : (generateKey rfcRandom).length = 24 := Base64.length_encodeBlock rfcRandom
  rw [rfcRequest, length_text_folded, ← buildUpgradeRequest_eq]
  simp [buildUpgradeRequest, kWsPath, ascii, hkey, kMaxRequest]

theorem length_rfcReply : rfcReply.text.length ≤ kMaxResponse := by
  have haccept : (computeAccept rfcSha1 (generateKey rfcRandom)).length = 28 :=
    (Base64.length_encodeBlock _).trans (by rw [rfcSha1.length_eq])
  rw [rfcReply, length_text_folded, ← text_switching]
  simp [Reply.text, ascii, haccept, kMaxResponse]

/-- Somewhere in the text the name stands before the value. -/
def Names (name s v : Bytes) : Prop :=
  ∃ a b c, s = a ++ (b ++ (v ++ c)) ∧ b.map ClientConfig.toLower = needle name

theorem names_of_prefix {name s t v : Bytes}
    (h : findFolded ClientConfig.toLower (needle name) s = some t) (hv : v <+: t) :
    Names name s v := by
  obtain ⟨a, b, rfl, hb⟩ := eq_of_findFolded h
  obtain ⟨c, rfl⟩ := hv
  exact ⟨a, b, c, rfl, hb⟩

theorem names_wsExtractKey {s : Bytes} (h : wsExtractKey s ≠ []) :
    Names kKeyName s (wsExtractKey s) := by
  cases ht : findFolded ClientConfig.toLower (needle kKeyName) s with
  | none => simp [wsExtractKey, ht] at h
  | some t =>
    refine names_of_prefix ht ?_
    have hkey (p : UInt8 → Bool) : trimRight (fun c => c = SP || c = CR) (t.takeWhile p) <+: t :=
      (List.rdropWhile_prefix _ _).trans (List.takeWhile_prefix _)
    simp only [wsExtractKey, ht] at h ⊢
    split
    · exact hkey _
    · split
      · exact hkey _
      · exact List.nil_prefix

theorem parseUpgradeResponse_eq_ok {s v : Bytes} (h : parseUpgradeResponse s = .ok v) :
    s.take 12 = ascii "HTTP/1.1 101" ∧ Names kAcceptName s v := by
  rw [parseUpgradeResponse] at h
  split at h
  · cases h
  next h₉ =>
    split at h
    · cases h
    next h₃ =>
      split at h
      · cases h
      next t ht =>
        cases h
        simp only [Bool.or_eq_true, decide_eq_true_eq, not_or, not_not] at h₉ h₃
        refine ⟨?_, names_of_prefix ht (List.takeWhile_prefix _)⟩
        calc s.take (9 + 3) = s.take 9 ++ (s.drop 9).take 3 := List.take_add
          _ = ascii "HTTP/1.1 " ++ ascii "101" := by rw [h₉.2, h₃]
          _ = ascii "HTTP/1.1 101" := rfl

theorem upgrade_eq_switching {sha1 : Sha1} {es es' : List Event} {accept : Bytes}
    (h : upgrade sha1 es = (.switching accept, es')) :
    ∃ req, symbols es = ofBytes req ++ symbols es' ∧ req.length ≤ kMaxRequest ∧
      hasSub (ascii "GET " ++ kWsPath) req = true ∧ wsExtractKey req ≠ [] ∧
      accept = computeAccept sha1 (wsExtractKey req) := by
  rw [upgrade] at h
  split at h
  · cases h
  next req es₁ hr =>
    obtain ⟨_, rfl, hlen, hes, -⟩ := readHead_eq_some hr
    split at h
    · cases h
    next hp =>
      simp only at h
      split at h
      · cases h
      next hk =>
        cases h
        exact ⟨req, hes, hlen, by simpa using hp, hk, rfl⟩

theorem doHandshake_eq_ok {sha1 : Sha1} {random : Bytes} {wrote : Bool} {es es' : List Event}
    (h : doHandshake sha1 random wrote es = (.ok (), es')) :
    ∃ resp, (readHead kMaxResponse [] es).1 = some resp ∧
      symbols es = ofBytes resp ++ symbols es' ∧ resp.length ≤ kMaxResponse ∧
      parseUpgradeResponse resp = .ok (computeAccept sha1 (generateKey random)) := by
  rw [doHandshake] at h
  split at h
  · cases h
  · split at h
    · cases h
    next resp es₁ hr =>
      obtain ⟨_, rfl, hlen, hes, -⟩ := readHead_eq_some hr
      split at h
      · cases h
      next v hv =>
        split at h
        · cases h
        next hne =>
          cases h
          exact ⟨resp, by rw [hr], hes, hlen, by rw [hv, not_not.mp hne]⟩

theorem encodeBlock_injective {s t : Bytes} (hlen : s.length = t.length)
    (h : Base64.encodeBlock s = Base64.encodeBlock t) : s = t := by
  have e := (Base64.decodeBlock_encodeBlock s).symm.trans
    ((congrArg Base64.decodeBlock h).trans (Base64.decodeBlock_encodeBlock t))
  exact List.append_inj_left (Option.some.inj e) hlen

/-- Two keys with one answer have one hash. -/
theorem digest_eq_of_computeAccept {sha1 : Sha1} {key key' : Bytes}
    (h : computeAccept sha1 key = computeAccept sha1 key') :
    sha1.digest (key ++ kWsGuid) = sha1.digest (key' ++ kWsGuid) :=
  encodeBlock_injective ((sha1.length_eq _).trans (sha1.length_eq _).symm) h

/-- **What the upgrade rests on**, whatever is sent. The server has read at most its limit, and in
it a request for its path that names the key it answers; the client has read at most its limit,
and in it status 101 and the hash of its own key. So if the client read the answer that this
server gave, the server read the key of this client, or another with the same hash. -/
theorem upgrade_sound {sha1 : Sha1} {es₁ es₁' es₂ es₂' : List Event} {accept random : Bytes}
    {wrote : Bool} (hs : upgrade sha1 es₁ = (.switching accept, es₁'))
    (hc : doHandshake sha1 random wrote es₂ = (.ok (), es₂')) :
    ∃ req key resp, symbols es₁ = ofBytes req ++ symbols es₁' ∧ req.length ≤ kMaxRequest ∧
      hasSub (ascii "GET " ++ kWsPath) req = true ∧ key ≠ [] ∧ Names kKeyName req key ∧
      accept = computeAccept sha1 key ∧
      symbols es₂ = ofBytes resp ++ symbols es₂' ∧ resp.length ≤ kMaxResponse ∧
      resp.take 12 = ascii "HTTP/1.1 101" ∧
      Names kAcceptName resp (computeAccept sha1 (generateKey random)) ∧
      ∀ h rest, Forwarded ClientConfig.toLower kAcceptName (switchingHead accept) h →
        h.text.length ≤ kMaxResponse → symbols es₂ = ofBytes h.text ++ rest →
        sha1.digest (key ++ kWsGuid) = sha1.digest (generateKey random ++ kWsGuid) := by
  obtain ⟨req, hes₁, hlen₁, hpath, hne, rfl⟩ := upgrade_eq_switching hs
  obtain ⟨resp, hr, hes₂, hlen₂, hp⟩ := doHandshake_eq_ok hc
  obtain ⟨hstatus, hnames⟩ := parseUpgradeResponse_eq_ok hp
  refine ⟨req, wsExtractKey req, resp, hes₁, hlen₁, hpath, hne, names_wsExtractKey hne, rfl, hes₂,
    hlen₂, hstatus, hnames, fun h rest hf hlen he => digest_eq_of_computeAccept ?_⟩
  -- the head is what the client has read
  obtain ⟨es', hr', -⟩ := readHead_text hf.clean hlen he
  rw [hr'] at hr
  obtain rfl := Option.some.inj hr
  have hfirst : ascii "HTTP/1.1 101" <+: h.first := by
    rw [hf.first]
    exact ⟨ascii " Switching Protocols", rfl⟩
  rw [parseUpgradeResponse_of_carries hfirst (carries_accept hf)
    (Base64.not_mem_encodeBlock rfl _)] at hp
  exact Except.ok.inj hp

theorem upgrade_sound_rfc : ∃ key, key ≠ [] ∧
    rfcSha1.digest (key ++ kWsGuid) = rfcSha1.digest (generateKey rfcRandom ++ kWsGuid) := by
  have hhost : SP ∉ ascii "192.168.1.1" := by decide
  have hkey : generateKey rfcRandom ≠ [] := by
    have hlen : (generateKey rfcRandom).length = 24 := Base64.length_encodeBlock rfcRandom
    intro e
    simp [e] at hlen
  obtain ⟨_, hs, -⟩ := upgrade_of_carries rfcSha1 rfcRequest_forwarded.clean
    (symbols_pushBack rfcRequest.text []) length_rfcRequest ⟨ascii " HTTP/1.1", rfl⟩
    (carries_key hhost rfcRequest_forwarded) (Base64.not_mem_encodeBlock rfl _)
    (Base64.not_mem_encodeBlock rfl _) hkey
  obtain ⟨_, hc, -⟩ := doHandshake_of_carries rfcSha1 rfcReply_forwarded.clean
    (symbols_pushBack rfcReply.text []) length_rfcReply ⟨ascii " Switching Protocols", rfl⟩
    (carries_accept rfcReply_forwarded)
  obtain ⟨-, key, -, -, -, -, hne, -, -, -, -, -, -, hdigest⟩ := upgrade_sound hs hc
  exact ⟨key, hne, hdigest rfcReply [] rfcReply_forwarded length_rfcReply
    (symbols_pushBack rfcReply.text [])⟩

end TrafficMonitor.WsUpgrade
