import TrafficMonitor.Server.SiwaAdmins
import TrafficMonitor.Server.SiwaBase64url

/-!
# JSON web tokens

`parseJwt` cuts a token at its first two dots and decodes the two segments before them with
the lenient base64url reader. The grammar of a signed token is three segments in base64url
without padding, `Valid`.

Proved here:

* `parseJwt_isSome`: a token is accepted exactly if it has two dots and the reader finds two
  characters in each of the segments before them;
* `parsed_right_iff`: when a token is parsed as the grammar says.
-/

namespace TrafficMonitor.Siwa

open Bytes WebAuthn

def DOT : UInt8 := 46

structure JwtParts where
  headerB64 : Bytes
  payloadB64 : Bytes
  sigB64 : Bytes
  signingInput : Bytes
  headerJson : Bytes
  payloadJson : Bytes
  deriving DecidableEq, Repr

def parseJwt (token : Bytes) : Option JwtParts :=
  match Lines.cut DOT token with
  | none => none
  | some (header, rest) => match Lines.cut DOT rest with
    | none => none
    | some (payload, sig) =>
      let hBytes := siwaBase64urlDecode header
      let pBytes := siwaBase64urlDecode payload
      if hBytes.isEmpty || pBytes.isEmpty then none
      else some ⟨header, payload, sig, header ++ DOT :: payload, hBytes, pBytes⟩

/-! ## The grammar -/

/-- The characters of base64url. -/
def isUrlChar (c : UInt8) : Bool := isAlnum c || c = 45 || c = 95

/-- A text without foreign characters, of a length that base64url without padding can have. -/
def Segment (s : Bytes) : Prop := (∀ c ∈ s, isUrlChar c = true) ∧ s.length % 4 ≠ 1

/-- Three segments between dots, of which only the signature may be empty. -/
def Valid (token : Bytes) : Prop :=
  ∃ header payload sig, token = header ++ DOT :: (payload ++ DOT :: sig) ∧ Segment header ∧
    Segment payload ∧ Segment sig ∧ header ≠ [] ∧ payload ≠ []

/-- The bytes that the segment is the base64url text of, and no others. -/
def Preimage (segment data : Bytes) : Prop := ∀ b, toBase64url b = segment ↔ b = data

/-- The token is accepted if it is valid, and then its parts are as in the grammar. -/
structure ParsedRight (token : Bytes) : Prop where
  accepted : (parseJwt token).isSome = true ↔ Valid token
  parts : ∀ p, parseJwt token = some p →
    ∃ header payload sig, token = header ++ DOT :: (payload ++ DOT :: sig) ∧ DOT ∉ header ∧
      DOT ∉ payload ∧ Preimage header p.headerJson ∧ Preimage payload p.payloadJson ∧
      p.signingInput = header ++ DOT :: payload

/-- The base64url text of some bytes. -/
def Canonical (segment : Bytes) : Prop := ∃ b, toBase64url b = segment

/-- If the reader finds enough in the segments before the first two dots, then they are
canonical, and what follows is a segment. -/
def Strict (token : Bytes) : Prop :=
  ∀ header payload sig, token = header ++ DOT :: (payload ++ DOT :: sig) → DOT ∉ header →
    DOT ∉ payload → 2 ≤ header.countP isReadable → 2 ≤ payload.countP isReadable →
    Canonical header ∧ Canonical payload ∧ Segment sig

/-! ## What is accepted -/

/-- The segments before the first two dots. -/
theorem segments_inj {header payload sig header' payload' sig' : Bytes} (hd : DOT ∉ header)
    (hd' : DOT ∉ payload) (hh : DOT ∉ header') (hh' : DOT ∉ payload')
    (h : header ++ DOT :: (payload ++ DOT :: sig) = header' ++ DOT :: (payload' ++ DOT :: sig')) :
    header = header' ∧ payload = payload' ∧ sig = sig' := by
  have hcut := Lines.cut_append DOT header (payload ++ DOT :: sig) hd
  rw [h, Lines.cut_append DOT header' _ hh] at hcut
  obtain ⟨rfl, he⟩ := Prod.mk.inj (Option.some.inj hcut)
  have hcut' := Lines.cut_append DOT payload' sig' hh'
  rw [he, Lines.cut_append DOT payload sig hd'] at hcut'
  obtain ⟨rfl, rfl⟩ := Prod.mk.inj (Option.some.inj hcut')
  exact ⟨rfl, rfl, rfl⟩

theorem parseJwt_eq_some {token : Bytes} {p : JwtParts} : parseJwt token = some p ↔
    ∃ header payload sig, token = header ++ DOT :: (payload ++ DOT :: sig) ∧ DOT ∉ header ∧
      DOT ∉ payload ∧ 2 ≤ header.countP isReadable ∧ 2 ≤ payload.countP isReadable ∧
      p = ⟨header, payload, sig, header ++ DOT :: payload, fromBase64url header,
        fromBase64url payload⟩ := by
  constructor
  · intro h
    unfold parseJwt at h
    split at h
    · cases h
    rename_i header rest hcut
    split at h
    · cases h
    rename_i payload sig hcut'
    obtain ⟨rfl, hd⟩ := Lines.cut_eq_some.mp hcut
    obtain ⟨rfl, hd'⟩ := Lines.cut_eq_some.mp hcut'
    simp only [siwaBase64urlDecode_eq, Bool.or_eq_true, List.isEmpty_iff, fromBase64url_eq_nil] at h
    split at h
    · cases h
    rename_i hn
    rw [not_or, Nat.not_lt, Nat.not_lt] at hn
    exact ⟨header, payload, sig, rfl, hd, hd', hn.1, hn.2, (Option.some.inj h).symm⟩
  · rintro ⟨header, payload, sig, rfl, hd, hd', hh, hp, rfl⟩
    rw [parseJwt, Lines.cut_append DOT header _ hd]
    dsimp only
    rw [Lines.cut_append DOT payload sig hd']
    have : ¬(header.countP isReadable < 2 ∨ payload.countP isReadable < 2) := by omega
    simp only [siwaBase64urlDecode_eq, Bool.or_eq_true, List.isEmpty_iff, fromBase64url_eq_nil, this,
      ↓reduceIte]

theorem isReadable_of_isUrlChar {c : UInt8} (h : isUrlChar c = true) : isReadable c = true := by
  have : ∀ c, isUrlChar c = true → isReadable c = true := by decide +kernel
  exact this c h

theorem dot_not_mem_segment {s : Bytes} (h : Segment s) : DOT ∉ s := fun hd =>
  absurd (h.1 DOT hd) (by decide)

/-- A segment that is not empty has two characters for the reader. -/
theorem two_le_of_segment {s : Bytes} (h : Segment s) (hne : s ≠ []) : 2 ≤ s.countP isReadable := by
  rw [List.countP_eq_length.mpr fun c hc => isReadable_of_isUrlChar (h.1 c hc)]
  have := List.length_pos_of_ne_nil hne
  have := h.2
  omega

theorem segment_of_canonical {s : Bytes} (h : Canonical s) : Segment s := by
  obtain ⟨b, rfl⟩ := h
  rw [toBase64url_eq]
  constructor
  · intro c hc
    obtain ⟨n, hn, rfl⟩ := List.mem_map.mp hc
    have : ∀ n < 64, isUrlChar (encUrl n) = true := by decide +kernel
    exact this n (Base64.lt_of_mem_sextets hn)
  · rw [List.length_map]
    fun_induction Base64.sextets b with
    | case1 => decide
    | case2 a => simp [Base64.groupOf]
    | case3 a b => simp [Base64.groupOf]
    | case4 a b c s ih =>
      rw [List.length_append, show (Base64.groupOf (Base64.word a b c)).length = 4 by rfl]
      omega

theorem preimage_of_canonical {s : Bytes} (h : Canonical s) : Preimage s (fromBase64url s) := by
  obtain ⟨b, rfl⟩ := h
  intro c
  rw [fromBase64url_toBase64url]
  constructor
  · intro he
    rw [← fromBase64url_toBase64url c, he, fromBase64url_toBase64url]
  · rintro rfl
    rfl

theorem canonical_of_preimage {s data : Bytes} (h : Preimage s data) : Canonical s :=
  ⟨data, (h data).mpr rfl⟩

/-- **Tokens.** A token is parsed as the grammar says exactly if it is strict. -/
theorem parsed_right_iff (token : Bytes) : ParsedRight token ↔ Strict token := by
  constructor
  · rintro ⟨haccepted, hparts⟩ header payload sig rfl hd hd' hh hp
    have hsome := parseJwt_eq_some.mpr ⟨header, payload, sig, rfl, hd, hd', hh, hp, rfl⟩
    obtain ⟨_, _, _, he, h, h', hph, hpp, -⟩ := hparts _ hsome
    obtain ⟨rfl, rfl, rfl⟩ := segments_inj hd hd' h h' he
    obtain ⟨_, _, _, he, hs, hs', hs'', -, -⟩ := haccepted.mp (Option.isSome_of_mem hsome)
    obtain ⟨rfl, rfl, rfl⟩ :=
      segments_inj hd hd' (dot_not_mem_segment hs) (dot_not_mem_segment hs') he
    exact ⟨canonical_of_preimage hph, canonical_of_preimage hpp, hs''⟩
  · intro hs
    refine ⟨⟨fun h => ?_, ?_⟩, fun p hsome => ?_⟩
    · obtain ⟨p, hsome⟩ := Option.isSome_iff_exists.mp h
      obtain ⟨header, payload, sig, rfl, hd, hd', hh, hp, -⟩ := parseJwt_eq_some.mp hsome
      obtain ⟨hch, hcp, hsig⟩ := hs header payload sig rfl hd hd' hh hp
      refine ⟨header, payload, sig, rfl, segment_of_canonical hch, segment_of_canonical hcp, hsig,
        ?_, ?_⟩
      · rintro rfl
        simp at hh
      · rintro rfl
        simp at hp
    · rintro ⟨header, payload, sig, rfl, hh, hp, -, hne, hne'⟩
      exact Option.isSome_of_mem (parseJwt_eq_some.mpr ⟨header, payload, sig, rfl,
        dot_not_mem_segment hh, dot_not_mem_segment hp, two_le_of_segment hh hne,
        two_le_of_segment hp hne', rfl⟩)
    · obtain ⟨header, payload, sig, rfl, hd, hd', hh, hp, rfl⟩ := parseJwt_eq_some.mp hsome
      obtain ⟨hch, hcp, -⟩ := hs header payload sig rfl hd hd' hh hp
      exact ⟨header, payload, sig, rfl, hd, hd', preimage_of_canonical hch,
        preimage_of_canonical hcp, rfl⟩

private theorem accepted_malformed :
    ∀ token ∈ [ascii "e30.e30.AA.AA", ascii "e!30.e30.AA", ascii "e30=.e30.AA", ascii "e31.e30.AA"],
      (parseJwt token).isSome = true ∧ ¬ParsedRight token := by
  have hstrict (header payload sig : Bytes) (h : Strict (header ++ DOT :: (payload ++ DOT :: sig)))
      (hd : DOT ∉ header ∧ DOT ∉ payload)
      (hr : 2 ≤ header.countP isReadable ∧ 2 ≤ payload.countP isReadable) :
      Segment header ∧ toBase64url (fromBase64url header) = header ∧ Segment sig := by
    obtain ⟨hh, -, hs⟩ := h header payload sig rfl hd.1 hd.2 hr.1 hr.2
    exact ⟨segment_of_canonical hh, (preimage_of_canonical hh _).mpr rfl, hs⟩
  intro token ht
  rw [parsed_right_iff]
  simp only [List.mem_cons, List.not_mem_nil, or_false] at ht
  rcases ht with rfl | rfl | rfl | rfl <;> refine ⟨by decide +kernel, fun h => ?_⟩
  · have := (hstrict (ascii "e30") (ascii "e30") (ascii "AA.AA") h
      (by decide) (by decide +kernel)).2.2.1 DOT (by decide)
    revert this
    decide
  · have := (hstrict (ascii "e!30") (ascii "e30") (ascii "AA") h
      (by decide) (by decide +kernel)).1.1 33 (by decide)
    revert this
    decide
  · have := (hstrict (ascii "e30=") (ascii "e30") (ascii "AA") h
      (by decide) (by decide +kernel)).1.1 61 (by decide)
    revert this
    decide
  · have := (hstrict (ascii "e31") (ascii "e30") (ascii "AA") h
      (by decide) (by decide +kernel)).2.1
    revert this
    decide +kernel

/-- Four tokens that are accepted: with a fourth segment, with a foreign character, with
padding, and with an unused bit set. None of them is parsed as the grammar says. -/
theorem malformed_tokens_accepted :
    ((parseJwt (ascii "e30.e30.AA.AA")).isSome = true ∧ ¬ParsedRight (ascii "e30.e30.AA.AA")) ∧
    ((parseJwt (ascii "e!30.e30.AA")).isSome = true ∧ ¬ParsedRight (ascii "e!30.e30.AA")) ∧
    ((parseJwt (ascii "e30=.e30.AA")).isSome = true ∧ ¬ParsedRight (ascii "e30=.e30.AA")) ∧
    (parseJwt (ascii "e31.e30.AA")).isSome = true ∧ ¬ParsedRight (ascii "e31.e30.AA") := by
  have h := accepted_malformed
  simp only [List.forall_mem_cons] at h
  exact ⟨h.1, h.2.1, h.2.2.1, h.2.2.2.1⟩

end TrafficMonitor.Siwa
