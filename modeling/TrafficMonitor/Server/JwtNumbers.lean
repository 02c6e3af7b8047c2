import TrafficMonitor.Basic.Signed
import TrafficMonitor.Server.SiwaReplay

/-!
# Number fields of identity tokens

`jwtGetLong` reads the digits behind a key in a `long long`, without a bound, and `verifyNative`
calls it before it looks at the signature. `jwtGetLongChecked` is the same function with a signed
overflow as an outcome. The specification is on the text: a numeral behind the first `"key":`.

Proved here:

* `jwtGetLongChecked_eq`: which digits overflow; `jwtGetLong_of_checked`: what is read otherwise;
* `read_unsigned`: for every payload, the number decides before a signature does;
* `number_right_iff`: which texts are read as specified.
-/

namespace TrafficMonitor.JwtNumbers

open Bytes Siwa

def MINUS : UInt8 := 45

/-! ## The code -/

/-- `readLong`; `none` where a `long long` overflows, which leaves the behaviour undefined. -/
def readLongChecked (s : Bytes) : Option Int :=
  (s.takeWhile isDigit).foldlM (Signed.push 10 (fun c => c.toNat - 48) 64) 0

def jwtGetLongChecked (json key : Bytes) : Option Int :=
  match findAfter (QUOTE :: key ++ [QUOTE, COLON]) json with
  | none => some 0
  | some rest => match rest.dropWhile fun b => b = SP with
    | [] => some 0
    | b :: s =>
      if b = MINUS then (readLongChecked s).bind fun v => Signed.checked 64 (-v)
      else readLongChecked (b :: s)

/-! ## The specification -/

/-- The blanks of JSON, which `jwtGetStr` skips. -/
def isBlank (b : UInt8) : Bool := b = SP || b = TAB || b = LF || b = CR

/-- An integer as it is written. -/
structure Numeral where
  neg : Bool
  digits : Bytes
  digits_ne_nil : digits ≠ []
  digits_digit : ∀ c ∈ digits, isDigit c = true

namespace Numeral

def text (m : Numeral) : Bytes := if m.neg then MINUS :: m.digits else m.digits

def value (m : Numeral) : Int := if m.neg then -(digitsValue m.digits : Int) else digitsValue m.digits

end Numeral

/-- The text behind the first `"key":`; there is none if the key does not occur. -/
def behind (json key : Bytes) : Bytes := (findAfter (QUOTE :: key ++ [QUOTE, COLON]) json).getD []

/-- The numeral stands behind the key and some blanks, with all of its digits. -/
def Stands (json key blanks : Bytes) (m : Numeral) : Prop :=
  ∃ rest, behind json key = blanks ++ (m.text ++ rest) ∧ (∀ c ∈ blanks, isBlank c = true) ∧
    ∀ c ∈ rest.head?, isDigit c = false

/-- The integer behind the key is read if it fits a `long long`, zero otherwise, and nothing
overflows. -/
structure NumberRight (json key : Bytes) : Prop where
  value : ∀ blanks m, Stands json key blanks m → Signed.Fits 64 m.value →
    jwtGetLong json key = m.value
  notFound : (∀ blanks m, Stands json key blanks m → ¬ Signed.Fits 64 m.value) →
    jwtGetLong json key = 0
  defined : jwtGetLongChecked json key ≠ none

/-- Behind spaces, the digits of a numeral are below 2⁶³. A numeral behind other blanks, which
`jwtGetLong` does not skip, is zero or does not fit. -/
structure Bounded (json key : Bytes) : Prop where
  spaces : ∀ blanks m, Stands json key blanks m → (∀ c ∈ blanks, c = SP) →
    digitsValue m.digits < 2 ^ 63
  others : ∀ blanks m, Stands json key blanks m → (∃ c ∈ blanks, c ≠ SP) →
    m.value = 0 ∨ ¬ Signed.Fits 64 m.value

/-- The replay memory refuses a token with this payload for its subject and its number, although
the token has no signature at all. -/
def ReadUnsigned (json : Bytes) : Prop :=
  ∃ token parts, parseJwt token = some parts ∧ parts.payloadJson = json ∧ parts.sigB64 = [] ∧
    ∀ cr v prune io allowedAuds, jwtGetStr json (ascii "sub") ≠ [] →
      0 < jwtGetLong json (ascii "exp") →
      ((pruneReplays prune v).nativeReplayCache
        (replayKey (jwtGetStr json (ascii "sub")) (jwtGetLong json (ascii "exp")))).isSome = true →
      (verifyNative cr v prune io token allowedAuds).2.error = ascii "token replay detected"

/-! ## What is scanned -/

/-- The sign and the digits at the start of a text. -/
def scan : Bytes → Bool × Bytes
  | [] => (false, [])
  | b :: s => if b = MINUS then (true, s.takeWhile isDigit) else (false, (b :: s).takeWhile isDigit)

/-- The sign and the digits that `jwtGetLong` reads. -/
def scanned (json key : Bytes) : Bool × Bytes := scan ((behind json key).dropWhile fun b => b = SP)

def signed (p : Bool × Bytes) : Int := if p.1 then -(digitsValue p.2 : Int) else digitsValue p.2

theorem scan_minus (s : Bytes) : scan (MINUS :: s) = (true, s.takeWhile isDigit) := by
  rw [scan, if_pos rfl]

theorem scan_of_ne {b : UInt8} (h : b ≠ MINUS) (s : Bytes) :
    scan (b :: s) = (false, (b :: s).takeWhile isDigit) := by
  rw [scan, if_neg h]

theorem integerField_eq (json key : Bytes) : integerField json key = signed (scanned json key) := by
  unfold integerField scanned behind
  cases findAfter (QUOTE :: key ++ [QUOTE, COLON]) json with
  | none => rfl
  | some rest =>
    rw [Option.getD_some]
    dsimp only
    cases rest.dropWhile fun b => b = SP with
    | nil => rfl
    | cons b s =>
      dsimp only
      by_cases hb : b = MINUS
      · subst hb
        rw [scan_minus]
        rfl
      · rw [scan_of_ne hb]
        exact if_neg hb

theorem readLongChecked_eq (s : Bytes) :
    readLongChecked s = Signed.checked 64 (digitsValue (s.takeWhile isDigit)) :=
  Signed.foldlM_push _ (by decide) _ (by decide)

/-- **Overflows.** The loop or the negation overflows exactly if the digits are 2⁶³ or more. -/
theorem jwtGetLongChecked_eq (json key : Bytes) :
    jwtGetLongChecked json key =
      if digitsValue (scanned json key).2 < 2 ^ 63 then some (signed (scanned json key)) else none := by
  unfold jwtGetLongChecked scanned behind
  cases findAfter (QUOTE :: key ++ [QUOTE, COLON]) json with
  | none => rfl
  | some rest =>
    rw [Option.getD_some]
    dsimp only
    cases rest.dropWhile fun b => b = SP with
    | nil => rfl
    | cons b s =>
      dsimp only
      by_cases hb : b = MINUS
      · subst hb
        rw [scan_minus, if_pos rfl, readLongChecked_eq, Signed.checked_natCast]
        split
        next h => exact if_pos (Signed.fits_neg h)
        next => rfl
      · rw [scan_of_ne hb, if_neg hb, readLongChecked_eq, Signed.checked_natCast]
        rfl

/-- Without an overflow, the integer itself is read. -/
theorem jwtGetLong_of_checked {json key : Bytes} {v : Int} (h : jwtGetLongChecked json key = some v) :
    jwtGetLong json key = v := by
  rw [jwtGetLongChecked_eq] at h
  split at h
  next hlt =>
    obtain rfl := Option.some.inj h
    rw [jwtGetLong_eq, integerField_eq, signed]
    split
    · exact llong_of_lt (by omega) (by omega)
    · exact llong_of_lt (by omega) (by omega)
  next => cases h

/-! ## Numerals in the text -/

theorem takeWhile_digits {ds rest : Bytes} (hds : ∀ c ∈ ds, isDigit c = true)
    (hrest : ∀ c ∈ rest.head?, isDigit c = false) : (ds ++ rest).takeWhile isDigit = ds := by
  rw [List.takeWhile_append_of_pos hds]
  cases rest with
  | nil => rw [List.takeWhile_nil, List.append_nil]
  | cons c rest => rw [List.takeWhile_cons, hrest c rfl, if_neg Bool.false_ne_true, List.append_nil]

theorem ne_minus_of_isDigit {c : UInt8} (h : isDigit c = true) : c ≠ MINUS := by
  rintro rfl
  exact absurd h (by decide)

/-- A numeral is scanned up to its last digit. -/
theorem scan_text (m : Numeral) {rest : Bytes} (hrest : ∀ c ∈ rest.head?, isDigit c = false) :
    scan (m.text ++ rest) = (m.neg, m.digits) := by
  unfold Numeral.text
  cases hneg : m.neg with
  | true =>
    rw [if_pos rfl, List.cons_append, scan_minus, takeWhile_digits m.digits_digit hrest]
  | false =>
    obtain ⟨d, ds, hds⟩ := List.exists_cons_of_ne_nil m.digits_ne_nil
    have hd : d ≠ MINUS := ne_minus_of_isDigit (m.digits_digit d (by simp [hds]))
    rw [if_neg Bool.false_ne_true, hds, List.cons_append, scan_of_ne hd, ← List.cons_append, ← hds,
      takeWhile_digits m.digits_digit hrest]

/-- What is scanned is a numeral, if it has a digit. -/
theorem exists_text {t : Bytes} (h : (scan t).2 ≠ []) :
    ∃ m : Numeral, ∃ rest, t = m.text ++ rest ∧ (∀ c ∈ rest.head?, isDigit c = false) ∧
      scan t = (m.neg, m.digits) := by
  have hdigits (s : Bytes) : ∀ c ∈ s.takeWhile isDigit, isDigit c = true := fun _ hc =>
    List.mem_takeWhile_imp hc
  have hrest (s : Bytes) : ∀ c ∈ (s.dropWhile isDigit).head?, isDigit c = false := fun c hc => by
    have hnot := List.head?_dropWhile_not isDigit s
    rw [Option.mem_def.mp hc] at hnot
    simpa using hnot
  cases t with
  | nil => exact absurd rfl h
  | cons b s =>
    by_cases hb : b = MINUS
    · subst hb
      rw [scan_minus] at h ⊢
      refine ⟨⟨true, s.takeWhile isDigit, h, hdigits s⟩, s.dropWhile isDigit, ?_, hrest s, rfl⟩
      rw [Numeral.text, if_pos rfl, List.cons_append, List.takeWhile_append_dropWhile]
    · rw [scan_of_ne hb] at h ⊢
      refine ⟨⟨false, (b :: s).takeWhile isDigit, h, hdigits _⟩, (b :: s).dropWhile isDigit, ?_,
        hrest _, rfl⟩
      rw [Numeral.text, if_neg Bool.false_ne_true, List.takeWhile_append_dropWhile]

theorem isBlank_of_digit {c : UInt8} (h : isDigit c = true) : isBlank c = false := by
  have hall : ∀ c, isDigit c = true → isBlank c = false := by decide +kernel
  exact hall c h

/-- No numeral begins with a blank. -/
theorem head_text (m : Numeral) : ∃ c s, m.text = c :: s ∧ isBlank c = false := by
  unfold Numeral.text
  cases m.neg with
  | true => exact ⟨MINUS, m.digits, if_pos rfl, by decide⟩
  | false =>
    obtain ⟨d, ds, hds⟩ := List.exists_cons_of_ne_nil m.digits_ne_nil
    exact ⟨d, ds, hds, isBlank_of_digit (m.digits_digit d (by simp [hds]))⟩

variable {json key blanks : Bytes} {m : Numeral}

/-- The blanks and the numeral behind a key are what a scan finds there. -/
theorem scan_of_stands (h : Stands json key blanks m) :
    (behind json key).takeWhile isBlank = blanks ∧
      scan ((behind json key).dropWhile isBlank) = (m.neg, m.digits) := by
  obtain ⟨rest, hbehind, hblanks, hrest⟩ := h
  obtain ⟨c, s, htext, hc⟩ := head_text m
  have htake : (m.text ++ rest).takeWhile isBlank = [] := by
    rw [htext, List.cons_append, List.takeWhile_cons, hc, if_neg Bool.false_ne_true]
  have hdrop : (m.text ++ rest).dropWhile isBlank = m.text ++ rest := by
    rw [htext, List.cons_append, List.dropWhile_cons, hc, if_neg Bool.false_ne_true]
  constructor
  · rw [hbehind, List.takeWhile_append_of_pos hblanks, htake, List.append_nil]
  · rw [hbehind, List.dropWhile_append_of_pos hblanks, hdrop, scan_text m hrest]

theorem stands_of_scan (h : (scan ((behind json key).dropWhile isBlank)).2 ≠ []) :
    ∃ m, Stands json key ((behind json key).takeWhile isBlank) m ∧
      scan ((behind json key).dropWhile isBlank) = (m.neg, m.digits) := by
  obtain ⟨m, rest, htext, hrest, hscan⟩ := exists_text h
  refine ⟨m, ⟨rest, ?_, fun c hc => List.mem_takeWhile_imp hc, hrest⟩, hscan⟩
  rw [← htext, List.takeWhile_append_dropWhile]

/-! ## Spaces and other blanks -/

theorem isBlank_SP : isBlank SP = true := by decide

/-- Where all blanks are spaces, `jwtGetLong` gets to what is behind them. -/
theorem dropWhile_spaces {s : Bytes} (h : ∀ c ∈ s.takeWhile isBlank, c = SP) :
    (s.dropWhile fun b => b = SP) = s.dropWhile isBlank := by
  induction s with
  | nil => rfl
  | cons c s ih =>
    by_cases hc : c = SP
    · subst hc
      rw [List.takeWhile_cons, isBlank_SP, if_pos rfl, List.forall_mem_cons] at h
      rw [List.dropWhile_cons, List.dropWhile_cons, isBlank_SP, if_pos rfl]
      exact ih h.2
    · have hblank : isBlank c = false := by
        by_contra hb
        rw [List.takeWhile_cons, if_pos (by simpa using hb)] at h
        exact hc (h c (by simp))
      rw [List.dropWhile_cons, List.dropWhile_cons, hblank]
      simp [hc]

/-- At any other blank it finds no digit. -/
theorem scan_other_blank {s : Bytes} (h : ∃ c ∈ s.takeWhile isBlank, c ≠ SP) :
    scan (s.dropWhile fun b => b = SP) = (false, []) := by
  induction s with
  | nil =>
    obtain ⟨c, hc, -⟩ := h
    cases hc
  | cons c s ih =>
    obtain ⟨d, hd, hne⟩ := h
    rw [List.takeWhile_cons] at hd
    split at hd
    next hblank =>
      by_cases hc : c = SP
      · subst hc
        rw [List.dropWhile_cons]
        refine ih ⟨d, ?_, hne⟩
        exact (List.mem_cons.mp hd).resolve_left hne
      · have hdigit : isDigit c = false := by
          by_contra hdig
          have hnot := isBlank_of_digit (by simpa using hdig)
          exact absurd hblank (by simp [hnot])
        have hminus : c ≠ MINUS := by
          rintro rfl
          exact absurd hblank (by decide)
        have hdrop : ((c :: s).dropWhile fun b => b = SP) = c :: s := by simp [hc]
        rw [hdrop, scan_of_ne hminus, List.takeWhile_cons, hdigit, if_neg Bool.false_ne_true]
    next => cases hd

/-! ## Right readings -/

theorem Numeral.fits_value (h : digitsValue m.digits < 2 ^ 63) : Signed.Fits 64 m.value := by
  unfold Numeral.value
  cases m.neg with
  | true => exact Signed.fits_neg h
  | false => exact Signed.fits_natCast.mpr h

theorem jwtGetLong_of_lt (h : digitsValue (scanned json key).2 < 2 ^ 63) :
    jwtGetLong json key = signed (scanned json key) :=
  jwtGetLong_of_checked ((jwtGetLongChecked_eq json key).trans (if_pos h))

theorem defined_iff :
    jwtGetLongChecked json key ≠ none ↔ digitsValue (scanned json key).2 < 2 ^ 63 := by
  rw [jwtGetLongChecked_eq]
  split
  next h => exact ⟨fun _ => h, fun _ => Option.some_ne_none _⟩
  next h => exact ⟨fun hne => absurd rfl hne, fun hlt => absurd hlt h⟩

theorem scanned_of_stands (h : Stands json key blanks m) (hspaces : ∀ c ∈ blanks, c = SP) :
    scanned json key = (m.neg, m.digits) := by
  obtain ⟨htake, hscan⟩ := scan_of_stands h
  rw [scanned, dropWhile_spaces (by rwa [htake]), hscan]

theorem scanned_of_other (h : Stands json key blanks m) (hother : ∃ c ∈ blanks, c ≠ SP) :
    scanned json key = (false, []) := by
  obtain ⟨htake, -⟩ := scan_of_stands h
  exact scan_other_blank (by rwa [htake])

/-- What is scanned without a digit is zero. -/
theorem signed_of_nil {p : Bool × Bytes} (h : p.2 = []) : signed p = 0 := by
  unfold signed
  rw [h]
  split <;> rfl

/-- If the code scans a digit, then it is at a numeral behind spaces. -/
theorem stands_of_scanned (h : (scanned json key).2 ≠ []) :
    ∃ blanks m, Stands json key blanks m ∧ (∀ c ∈ blanks, c = SP) ∧
      scanned json key = (m.neg, m.digits) := by
  have hspaces : ∀ c ∈ (behind json key).takeWhile isBlank, c = SP := by
    by_contra hother
    push Not at hother
    exact h (by rw [scanned, scan_other_blank hother])
  have hdrop := dropWhile_spaces hspaces
  rw [scanned, hdrop] at h ⊢
  obtain ⟨m, hstands, hscan⟩ := stands_of_scan h
  exact ⟨_, m, hstands, hspaces, hscan⟩

theorem NumberRight.bounded (h : NumberRight json key) : Bounded json key where
  spaces blanks m hstands hspaces := by
    have hlt := defined_iff.mp h.defined
    rwa [scanned_of_stands hstands hspaces] at hlt
  others blanks m hstands hother := by
    by_cases hfits : Signed.Fits 64 m.value
    · have hscan := scanned_of_other hstands hother
      have hlt := defined_iff.mp h.defined
      have hzero : jwtGetLong json key = 0 := by rw [jwtGetLong_of_lt hlt, signed_of_nil (by rw [hscan])]
      exact .inl ((h.value blanks m hstands hfits).symm.trans hzero)
    · exact .inr hfits

theorem Bounded.lt (h : Bounded json key) : digitsValue (scanned json key).2 < 2 ^ 63 := by
  by_cases hnil : (scanned json key).2 = []
  · rw [hnil]
    decide
  · obtain ⟨blanks, m, hstands, hspaces, hscan⟩ := stands_of_scanned hnil
    rw [hscan]
    exact h.spaces blanks m hstands hspaces

theorem Bounded.right (h : Bounded json key) : NumberRight json key where
  value blanks m hstands hfits := by
    rw [jwtGetLong_of_lt h.lt]
    by_cases hspaces : ∀ c ∈ blanks, c = SP
    · rw [scanned_of_stands hstands hspaces]
      rfl
    · push Not at hspaces
      have hzero := (h.others blanks m hstands hspaces).resolve_right (not_not.mpr hfits)
      rw [signed_of_nil (by rw [scanned_of_other hstands hspaces]), hzero]
  notFound hnone := by
    rw [jwtGetLong_of_lt h.lt]
    by_contra hne
    have hdigits : (scanned json key).2 ≠ [] := fun hnil => hne (signed_of_nil hnil)
    obtain ⟨blanks, m, hstands, hspaces, -⟩ := stands_of_scanned hdigits
    exact hnone blanks m hstands (Numeral.fits_value (h.spaces blanks m hstands hspaces))
  defined := defined_iff.mpr h.lt

/-! ## Before the signature -/

/-- The token of an empty header and this payload, with nothing behind its second dot. -/
def unsigned (json : Bytes) : Bytes :=
  ascii "e30" ++ DOT :: (WebAuthn.toBase64url json ++ DOT :: [])

theorem parse_unsigned (hne : json ≠ []) :
    ∃ parts, parseJwt (unsigned json) = some parts ∧ parts.payloadJson = json ∧
      parts.sigB64 = [] := by
  have hdot : DOT ∉ WebAuthn.toBase64url json :=
    dot_not_mem_segment (segment_of_canonical ⟨json, rfl⟩)
  have hread := WebAuthn.fromBase64url_toBase64url json
  have hcount : 2 ≤ (WebAuthn.toBase64url json).countP WebAuthn.isReadable := by
    rw [← Nat.not_lt, ← WebAuthn.fromBase64url_eq_nil, hread]
    exact hne
  exact ⟨_, parseJwt_eq_some.mpr ⟨ascii "e30", WebAuthn.toBase64url json, [], rfl, by decide, hdot,
    by decide +kernel, hcount, rfl⟩, hread, rfl⟩

theorem read_unsigned (hne : json ≠ []) : ReadUnsigned json := by
  obtain ⟨parts, hparse, rfl, hsig⟩ := parse_unsigned hne
  refine ⟨_, parts, hparse, rfl, hsig, fun cr v prune io allowedAuds hsub hexp hseen => ?_⟩
  have hrecorded : parts.recorded = true := by
    simp only [JwtParts.recorded, Bool.and_eq_true, decide_eq_true_eq]
    exact ⟨hsub, hexp⟩
  have hreplay : isReplay v prune (unsigned parts.payloadJson) = true := by
    rw [isReplay, hparse, Option.any_some, hrecorded, Bool.true_and]
    exact hseen
  rw [verifyNative_eq hparse, hrecorded, if_neg (by decide), if_pos hreplay]

/-- **Number fields.** They are read as specified exactly if they are bounded, and no signature
protects the reader. -/
theorem number_right_iff (json key : Bytes) :
    (NumberRight json key ↔ Bounded json key) ∧ (json ≠ [] → ReadUnsigned json) :=
  ⟨⟨NumberRight.bounded, Bounded.right⟩, read_unsigned⟩

/-- Three payloads: 2⁶⁴ + 1 is read as 1, at the least `long long` the loop and the negation
overflow, and behind a tab nothing is read. -/
theorem numbers_misread :
    (jwtGetLong (ascii "\x7b\"exp\":18446744073709551617\x7d") (ascii "exp") = 1 ∧
      ¬ NumberRight (ascii "\x7b\"exp\":18446744073709551617\x7d") (ascii "exp")) ∧
    (jwtGetLongChecked (ascii "\x7b\"exp\":-9223372036854775808\x7d") (ascii "exp") = none ∧
      ¬ NumberRight (ascii "\x7b\"exp\":-9223372036854775808\x7d") (ascii "exp")) ∧
    jwtGetLong (ascii "\x7b\"exp\":\t5\x7d") (ascii "exp") = 0 ∧
      ¬ NumberRight (ascii "\x7b\"exp\":\t5\x7d") (ascii "exp") := by
  refine ⟨⟨by decide +kernel, fun h => h.defined ?_⟩, ⟨by decide +kernel, fun h => h.defined ?_⟩,
    by decide +kernel, fun h => ?_⟩
  · decide +kernel
  · decide +kernel
  · have hstands : Stands (ascii "\x7b\"exp\":\t5\x7d") (ascii "exp") [TAB]
        ⟨false, [53], by decide, by decide⟩ :=
      ⟨[RBRACE], by decide +kernel, by decide, fun c hc => Option.mem_some.mp hc ▸ rfl⟩
    have hfive := h.value _ _ hstands (by decide)
    revert hfive
    decide +kernel

end TrafficMonitor.JwtNumbers
