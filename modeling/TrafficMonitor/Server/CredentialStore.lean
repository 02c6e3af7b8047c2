import TrafficMonitor.Protocol
import TrafficMonitor.Server.Base64url
import TrafficMonitor.Server.Login

/-!
# The credentials file

`saveCredentials` writes the credentials as JSON text, their labels as they are;
`loadCredentials` looks for objects by their braces and reads each field with `jsonGetStr`.
A label is what the registration endpoint's own `jsonGetString` has read from a request.

Proved here:

* `clean_of_jsonString`: a text that stands in quotes as it is and is read back has neither
  quotes nor backslashes;
* `readArray_record`, `readArray_damaged`: a record with a clean label is read back, one
  with another label is not;
* `load_save_iff`: the list of credentials after a run is restored exactly if every label is
  clean and no credential id is empty;
* `forged_credential`: a label that brings a second credential with it.
-/

namespace TrafficMonitor.WebAuthn

open Bytes Cbor Runs

variable {cfg : WebAuthnConfig} {cr : Crypto}

/-! ## The code -/

def record (c : PasskeyCredential) : Bytes :=
  ascii "\x7b\"id\":\"" ++ c.credId ++ ascii "\",\"x\":\"" ++ c.pubkeyX ++
    ascii "\",\"y\":\"" ++ c.pubkeyY ++ ascii "\",\"sign_count\":" ++ decimal c.signCount ++
    ascii ",\"label\":\"" ++ c.label ++ ascii "\"\x7d"

/-- The text of the file. -/
def saveCredentials (credentials : List PasskeyCredential) : Bytes :=
  ascii "\x7b\"version\":1,\"credentials\":[\n" ++
    (ascii ",\n").intercalate (credentials.map fun c => ascii "  " ++ record c) ++
    ascii "\n]\x7d\n"

/-- The loop that looks for the closing brace of an object: what it has passed when it stops. -/
def takeObject (depth : Nat) (inStr : Bool) (prev : UInt8) : Bytes → Bytes
  | [] => []
  | c :: s =>
    let inStr := if c = QUOTE ∧ prev ≠ BACKSLASH then !inStr else inStr
    if inStr then c :: takeObject depth inStr c s
    else if c = LBRACE then c :: takeObject (depth + 1) inStr c s
    else if c = RBRACE then if depth = 1 then [c] else c :: takeObject (depth - 1) inStr c s
    else c :: takeObject depth inStr c s

/-- The number after the first `"sign_count"`, or zero. -/
def readSignCount (obj : Bytes) : Nat :=
  match findAfter (ascii "\"sign_count\"") obj with
  | none => 0
  | some rest =>
    match stoull (rest.dropWhile fun c => c = COLON || c = SP) with
    | none => 0
    | some n => n % 2 ^ 32

def readObject (obj : Bytes) : PasskeyCredential where
  credId := jsonGetStr obj (ascii "id")
  pubkeyX := jsonGetStr obj (ascii "x")
  pubkeyY := jsonGetStr obj (ascii "y")
  label := jsonGetStr obj (ascii "label")
  signCount := readSignCount obj

def PasskeyCredential.complete (c : PasskeyCredential) : Bool :=
  !c.credId.isEmpty && !c.pubkeyX.isEmpty && !c.pubkeyY.isEmpty

/-- The loop over the array, `skip` bytes being behind its position: it ends at a bracket,
begins an object at a brace and passes over everything else. -/
def readArray : Nat → Bytes → List PasskeyCredential
  | _, [] => []
  | skip + 1, _ :: s => readArray skip s
  | 0, c :: s =>
    if c = RBRACKET then []
    else if c ≠ LBRACE then readArray 0 s
    else
      let obj := takeObject 0 false NUL (c :: s)
      let rest := readArray (obj.length - 1) s
      if (readObject obj).complete then readObject obj :: rest else rest

/-- The credentials after loading; they stay as they are when no array is found. -/
def loadCredentials (json : Bytes) (credentials : List PasskeyCredential) : List PasskeyCredential :=
  match findAfter (ascii "\"credentials\"") json with
  | none => credentials
  | some rest => match rest.dropWhile (· ≠ LBRACKET) with
    | [] => credentials
    | _ :: s => readArray 0 s

/-- The search of the endpoint's `jsonGetString`: as in `jsonFind`, but a colon must follow the
key, and a value that is no string ends the search. -/
def jsonGetStringFrom (needle : Bytes) : Nat → Bytes → Bytes
  | _, [] => []
  | skip + 1, _ :: s => jsonGetStringFrom needle skip s
  | 0, c :: s => match stripPrefix needle (c :: s) with
    | none => jsonGetStringFrom needle 0 s
    | some rest =>
      let isBlank (b : UInt8) : Bool := b = SP || b = TAB || b = CR || b = LF
      let blanks := rest.takeWhile isBlank
      match rest.drop blanks.length with
      | [] => []
      | b :: rest =>
        if b ≠ COLON then jsonGetStringFrom needle (needle.length + blanks.length - 1) s
        else match rest.dropWhile isBlank with
          | [] => []
          | b :: body => if b = QUOTE then (endpointString body).getD [] else []
where
  /-- The string up to its closing quote, with its escapes. -/
  endpointString : Bytes → Option Bytes
    | [] => none
    | c :: s =>
      if c = QUOTE then some []
      else if c = BACKSLASH then match s with
        | [] => none
        | e :: s => (endpointString s).map
          ((if e = 110 then LF else if e = 114 then CR else if e = 116 then TAB else e) :: ·)
      else (endpointString s).map (c :: ·)

def jsonGetString (json key : Bytes) : Bytes := jsonGetStringFrom (QUOTE :: key ++ [QUOTE]) 0 json

/-- What `POST /api/admin/register/complete` passes on; `none` is the answer 400. -/
def registrationOf (body : Bytes) : Option Attestation :=
  let q : Attestation := ⟨jsonGetString body (ascii "session_key"),
    jsonGetString body (ascii "attestation_object"), jsonGetString body (ascii "client_data_json"),
    jsonGetString body (ascii "label")⟩
  if q.sessionKey.isEmpty || q.attestationObject.isEmpty || q.clientDataJson.isEmpty then none
  else some q

/-! ## Strings in quotes -/

/-- The text may stand in quotes as it is. -/
def Clean (s : Bytes) : Prop := QUOTE ∉ s ∧ BACKSLASH ∉ s

def quoted (s : Bytes) : Bytes := QUOTE :: (s ++ [QUOTE])

theorem Clean.cons {c : UInt8} {s : Bytes} (h : Clean (c :: s)) :
    c ≠ QUOTE ∧ c ≠ BACKSLASH ∧ Clean s := by
  simp only [Clean, List.mem_cons, not_or] at h
  exact ⟨fun e => h.1.1 e.symm, fun e => h.2.1 e.symm, h.1.2, h.2.2⟩

theorem jsonString_cons {c : UInt8} {s : Bytes} (hq : c ≠ QUOTE) (hb : c ≠ BACKSLASH) :
    jsonString (c :: s) = (jsonString s).map (c :: ·) := by
  rw [jsonString.eq_def]
  simp [hq, hb]

theorem jsonString_escape (e : UInt8) (s : Bytes) : jsonString (BACKSLASH :: e :: s) =
    (jsonString s).map ((if e = 110 then LF else if e = 114 then CR else e) :: ·) := by
  rw [jsonString.eq_def]
  simp [QUOTE, BACKSLASH]

theorem jsonString_quote (s : Bytes) : jsonString (QUOTE :: s) = some [] := by
  rw [jsonString.eq_def]
  simp

theorem jsonString_of_clean {v : Bytes} (h : Clean v) (t : Bytes) :
    jsonString (v ++ QUOTE :: t) = some v := by
  induction v with
  | nil => exact jsonString_quote t
  | cons c v ih =>
    obtain ⟨hq, hb, h⟩ := h.cons
    rw [List.cons_append, jsonString_cons hq hb, ih h, Option.map_some]

/-- What follows the closing quote is not read. -/
theorem jsonString_append {s r : Bytes} (t : Bytes) (h : jsonString s = some r) :
    jsonString (s ++ t) = some r := by
  fun_induction jsonString s generalizing r with
  | case1 => cases h
  | case2 s =>
    cases h
    exact jsonString_quote _
  | case3 => cases h
  | case4 hq e s ih =>
    obtain ⟨r', hr', rfl⟩ := Option.map_eq_some_iff.mp h
    rw [List.cons_append, List.cons_append, jsonString_escape, ih hr', Option.map_some]
  | case5 c s hq hb ih =>
    obtain ⟨r', hr', rfl⟩ := Option.map_eq_some_iff.mp h
    rw [List.cons_append, jsonString_cons hq hb, ih hr', Option.map_some]

theorem escape_eq_backslash {e : UInt8}
    (h : (if e = 110 then LF else if e = 114 then CR else e) = BACKSLASH) : e = BACKSLASH := by
  split at h
  · cases h
  split at h
  · cases h
  · exact h

/-- The escapes eat up backslashes: no text is read back as itself behind one more. -/
private theorem jsonString_ne_replicate : ∀ (n : Nat) (s t : Bytes),
    jsonString (s ++ QUOTE :: t) ≠ some (List.replicate (n + 1) BACKSLASH ++ s)
  | n, [], t, h => by
    rw [List.nil_append, jsonString_quote] at h
    simp [List.replicate_succ] at h
  | n, [c], t, h => by
    by_cases hq : c = QUOTE
    · rw [hq, List.singleton_append, jsonString_quote] at h
      simp [List.replicate_succ] at h
    by_cases hb : c = BACKSLASH
    · rw [hb, List.singleton_append, jsonString_escape] at h
      obtain ⟨r, -, hr⟩ := Option.map_eq_some_iff.mp h
      exact absurd (escape_eq_backslash (List.cons.inj hr).1) (by decide)
    · rw [List.singleton_append, jsonString_cons hq hb] at h
      obtain ⟨r, -, hr⟩ := Option.map_eq_some_iff.mp h
      exact hb (List.cons.inj hr).1
  | n, c :: e :: s, t, h => by
    by_cases hq : c = QUOTE
    · rw [hq, List.cons_append, jsonString_quote] at h
      simp [List.replicate_succ] at h
    by_cases hb : c = BACKSLASH
    · rw [hb, List.cons_append, List.cons_append, jsonString_escape] at h
      obtain ⟨r, hr, he⟩ := Option.map_eq_some_iff.mp h
      obtain ⟨he, htail⟩ := List.cons.inj he
      rw [escape_eq_backslash he] at htail
      refine jsonString_ne_replicate (n + 1) s t (hr.trans (congrArg some ?_))
      rw [htail]
      simp [List.replicate_succ', List.append_assoc]
    · rw [List.cons_append, jsonString_cons hq hb] at h
      obtain ⟨r, -, hr⟩ := Option.map_eq_some_iff.mp h
      exact hb (List.cons.inj hr).1

/-- **Clean text.** A text that is read back as it stands in quotes is clean. -/
theorem clean_of_jsonString {v t : Bytes} (h : jsonString (v ++ QUOTE :: t) = some v) :
    Clean v := by
  induction v with
  | nil => simp [Clean]
  | cons c v ih =>
    by_cases hq : c = QUOTE
    · rw [hq, List.cons_append, jsonString_quote] at h
      cases h
    by_cases hb : c = BACKSLASH
    · exfalso
      subst hb
      cases v with
      | nil =>
        rw [List.singleton_append, jsonString_escape] at h
        obtain ⟨r, -, hr⟩ := Option.map_eq_some_iff.mp h
        exact absurd (escape_eq_backslash (List.cons.inj hr).1) (by decide)
      | cons e v =>
        rw [List.cons_append, List.cons_append, jsonString_escape] at h
        obtain ⟨r, hr, he⟩ := Option.map_eq_some_iff.mp h
        obtain ⟨he, htail⟩ := List.cons.inj he
        rw [escape_eq_backslash he] at htail
        exact jsonString_ne_replicate 0 v t (hr.trans (congrArg some htail))
    · rw [List.cons_append, jsonString_cons hq hb] at h
      obtain ⟨r, hr, he⟩ := Option.map_eq_some_iff.mp h
      have hv := ih (hr.trans (congrArg some (List.cons.inj he).2))
      exact ⟨fun hm => (List.mem_cons.mp hm).elim (fun e => hq e.symm) hv.1,
        fun hm => (List.mem_cons.mp hm).elim (fun e => hb e.symm) hv.2⟩

/-! ## The text of a record -/

/-- A record up to its label, and what is taken for the label and the rest. -/
def front (c : PasskeyCredential) (tail : Bytes) : Bytes :=
  LBRACE :: (quoted (ascii "id") ++ COLON :: (quoted c.credId ++ COMMA ::
    (quoted (ascii "x") ++ COLON :: (quoted c.pubkeyX ++ COMMA ::
    (quoted (ascii "y") ++ COLON :: (quoted c.pubkeyY ++ COMMA ::
    (quoted (ascii "sign_count") ++ COLON :: (decimal c.signCount ++ COMMA ::
    (quoted (ascii "label") ++ COLON :: QUOTE :: tail)))))))))

theorem record_append (c : PasskeyCredential) (t : Bytes) :
    record c ++ t = front c (c.label ++ QUOTE :: RBRACE :: t) := by
  simp [record, front, quoted, ascii, LBRACE, COLON, COMMA, QUOTE, RBRACE]

theorem takeObject_plain {depth : Nat} {p c : UInt8} {s : Bytes} (hq : c ≠ QUOTE)
    (hl : c ≠ LBRACE) (hr : c ≠ RBRACE) :
    takeObject depth false p (c :: s) = c :: takeObject depth false c s := by
  simp [takeObject, hq, hl, hr]

theorem takeObject_string (depth : Nat) {p : UInt8} {v : Bytes} (h : Clean v)
    (hp : p ≠ BACKSLASH) (t : Bytes) : takeObject depth true p (v ++ QUOTE :: t) =
      v ++ QUOTE :: takeObject depth false QUOTE t := by
  induction v generalizing p with
  | nil => simp [takeObject, hp, show QUOTE ≠ LBRACE by decide, show QUOTE ≠ RBRACE by decide]
  | cons c v ih =>
    obtain ⟨hq, hb, h⟩ := h.cons
    simp [takeObject, hq, ih h hb]

theorem takeObject_quoted (depth : Nat) {p : UInt8} {v : Bytes} (h : Clean v)
    (hp : p ≠ BACKSLASH) (t : Bytes) : takeObject depth false p (quoted v ++ t) =
      quoted v ++ takeObject depth false QUOTE t := by
  have := takeObject_string depth h (p := QUOTE) (by decide) t
  simp [quoted, takeObject, hp, this]

theorem takeObject_digits (depth : Nat) {p : UInt8} {v : Bytes} (h : ∀ c ∈ v, isDigit c = true)
    (t : Bytes) : takeObject depth false p (v ++ COMMA :: t) =
      v ++ COMMA :: takeObject depth false COMMA t := by
  induction v generalizing p with
  | nil => exact takeObject_plain (by decide) (by decide) (by decide)
  | cons c v ih =>
    have hc := h c (by simp)
    have hne : ∀ d : UInt8, isDigit d = false → c ≠ d := fun d hd e => by simp [← e, hc] at hd
    rw [List.cons_append, takeObject_plain (hne _ (by decide)) (hne _ (by decide)) (hne _ (by decide)),
      ih fun d hd => h d (List.mem_cons_of_mem _ hd), List.cons_append]

theorem takeObject_prefix (depth : Nat) (inStr : Bool) (p : UInt8) (s : Bytes) :
    takeObject depth inStr p s <+: s := by
  induction s generalizing depth inStr p with
  | nil => exact List.prefix_rfl
  | cons c s ih =>
    simp only [takeObject]
    repeat' split
    all_goals first
      | exact (List.prefix_cons_inj c).mpr (ih _ _ _)
      | exact ⟨s, rfl⟩

/-- What the server stores: an id and a key in base64url, a counter of 32 bits, a label. -/
structure Stored (c : PasskeyCredential) : Prop where
  credId : Clean c.credId ∧ c.credId ≠ ascii "sign_count"
  pubkeyX : Clean c.pubkeyX ∧ c.pubkeyX ≠ ascii "sign_count" ∧ c.pubkeyX ≠ []
  pubkeyY : Clean c.pubkeyY ∧ c.pubkeyY ≠ ascii "sign_count" ∧ c.pubkeyY ≠ []
  signCount : c.signCount < 2 ^ 32
  label : c.label ≠ []

theorem clean_keys : Clean (ascii "id") ∧ Clean (ascii "x") ∧ Clean (ascii "y") ∧
    Clean (ascii "sign_count") ∧ Clean (ascii "label") := by
  unfold Clean
  decide

/-- The braces up to the label are one. -/
theorem takeObject_front {c : PasskeyCredential} (h : Stored c) (tail : Bytes) :
    takeObject 0 false NUL (front c tail) = front c (takeObject 1 true QUOTE tail) := by
  obtain ⟨hid, hx, hy, hsc, hlabel⟩ := clean_keys
  have hopen (s : Bytes) : takeObject 0 false NUL (LBRACE :: s) =
      LBRACE :: takeObject 1 false LBRACE s := by
    simp [takeObject, show LBRACE ≠ QUOTE by decide]
  have hcolon (s : Bytes) : takeObject 1 false QUOTE (COLON :: s) =
      COLON :: takeObject 1 false COLON s := takeObject_plain (by decide) (by decide) (by decide)
  have hcomma (s : Bytes) : takeObject 1 false QUOTE (COMMA :: s) =
      COMMA :: takeObject 1 false COMMA s := takeObject_plain (by decide) (by decide) (by decide)
  have hquote (s : Bytes) : takeObject 1 false COLON (QUOTE :: s) =
      QUOTE :: takeObject 1 true QUOTE s := by
    simp [takeObject, show COLON ≠ BACKSLASH by decide]
  have hdigits := fun s => takeObject_digits 1 (p := COLON)
    (fun b hb => isDigit_of_mem_decimal (n := c.signCount) hb) s
  have hq {p : UInt8} (hp : p ≠ BACKSLASH) {v : Bytes} (hv : Clean v) (s : Bytes) :=
    takeObject_quoted 1 hv hp s
  simp only [front, hopen, hq (show LBRACE ≠ BACKSLASH by decide) hid, hcolon,
    hq (show COLON ≠ BACKSLASH by decide) h.credId.1, hcomma,
    hq (show COMMA ≠ BACKSLASH by decide) hx, hq (show COLON ≠ BACKSLASH by decide) h.pubkeyX.1,
    hq (show COMMA ≠ BACKSLASH by decide) hy, hq (show COLON ≠ BACKSLASH by decide) h.pubkeyY.1,
    hq (show COMMA ≠ BACKSLASH by decide) hsc, hdigits,
    hq (show COMMA ≠ BACKSLASH by decide) hlabel, hquote]

/-! ## The fields of a record -/

theorem jsonFind_ne {key : Bytes} {c : UInt8} (h : c ≠ QUOTE) (s : Bytes) :
    jsonFind (quoted key) 0 (c :: s) = jsonFind (quoted key) 0 s := by
  simp [jsonFind, quoted, stripPrefix_head h.symm]

theorem jsonFind_text {key v : Bytes} (h : QUOTE ∉ v) (s : Bytes) :
    jsonFind (quoted key) 0 (v ++ s) = jsonFind (quoted key) 0 s := by
  induction v with
  | nil => rfl
  | cons c v ih =>
    rw [List.mem_cons, not_or] at h
    rw [List.cons_append, jsonFind_ne (Ne.symm h.1), ih h.2]

theorem jsonFind_skip (needle : Bytes) (n : Nat) (s : Bytes) :
    jsonFind needle n s = jsonFind needle 0 (s.drop n) := by
  induction n generalizing s with
  | zero => rfl
  | succ n ih =>
    cases s with
    | nil => simp [jsonFind]
    | cons c s => simpa [jsonFind] using ih s

/-- A quoted text begins with the needle only if it is the key. -/
theorem stripPrefix_quoted {key v : Bytes} (hk : QUOTE ∉ key) (hv : QUOTE ∉ v) (hne : v ≠ key)
    (t : Bytes) : stripPrefix (quoted key) (quoted v ++ t) = none := by
  cases h : stripPrefix (quoted key) (quoted v ++ t) with
  | none => rfl
  | some u =>
    have he : v ++ QUOTE :: t = key ++ QUOTE :: u := by
      simpa [quoted] using stripPrefix_eq_some.mp h
    have := (Lines.cut_append QUOTE v t hv).symm.trans (he ▸ Lines.cut_append QUOTE key u hk)
    exact absurd (Prod.mk.inj (Option.some.inj this)).1 hne

/-- Nor does the closing quote, before a byte that is not in the key. -/
theorem stripPrefix_closing {key : Bytes} {c : UInt8} (hc : c ∉ key) (hq : c ≠ QUOTE) (t : Bytes) :
    stripPrefix (quoted key) (QUOTE :: c :: t) = none := by
  rw [quoted, stripPrefix_cons_self]
  cases key with
  | nil => exact stripPrefix_head hq.symm _ _
  | cons d key =>
    rw [List.mem_cons, not_or] at hc
    exact stripPrefix_head (Ne.symm hc.1) _ _

theorem jsonFind_closing {key : Bytes} {c : UInt8} (hc : c ∉ key) (hq : c ≠ QUOTE) (t : Bytes) :
    jsonFind (quoted key) 0 (QUOTE :: c :: t) = jsonFind (quoted key) 0 t := by
  rw [jsonFind, stripPrefix_closing hc hq]
  exact jsonFind_ne hq t

theorem jsonFind_quoted {key v : Bytes} {c : UInt8} (hk : QUOTE ∉ key) (hv : QUOTE ∉ v)
    (hne : v ≠ key) (hc : c ∉ key) (hq : c ≠ QUOTE) (t : Bytes) :
    jsonFind (quoted key) 0 (quoted v ++ c :: t) = jsonFind (quoted key) 0 t := by
  have h := stripPrefix_quoted hk hv hne (c :: t)
  simp only [quoted, List.cons_append, List.append_assoc, List.nil_append] at h ⊢
  rw [jsonFind, h]
  exact (jsonFind_text hv _).trans (jsonFind_closing hc hq t)

/-- A value is passed over, even if it is the key: no quote follows it. -/
theorem jsonFind_value {key v : Bytes} (hk : QUOTE ∉ key) (hv : QUOTE ∉ v) (hc : COMMA ∉ key)
    (t : Bytes) : jsonFind (quoted key) 0 (quoted v ++ COMMA :: t) =
      jsonFind (quoted key) 0 t := by
  by_cases hne : v = key
  · subst hne
    have h := stripPrefix_append (quoted v) (COMMA :: t)
    simp only [quoted, List.cons_append, List.append_assoc, List.nil_append] at h ⊢
    rw [jsonFind, h]
    have hcomma : jsonFind (quoted v) 0 (COMMA :: t) = jsonFind (quoted v) 0 t :=
      jsonFind_ne (by decide) t
    simpa [COMMA, SP, TAB, QUOTE, jsonFind_skip, quoted] using hcomma
  · exact jsonFind_quoted hk hv hne hc (by decide) t

theorem jsonFind_key (key body : Bytes) :
    jsonFind (quoted key) 0 (quoted key ++ COLON :: QUOTE :: body) = (jsonString body).getD [] := by
  have h := stripPrefix_append (quoted key) (COLON :: QUOTE :: body)
  simp only [quoted, List.cons_append, List.append_assoc, List.nil_append] at h ⊢
  rw [jsonFind, h]
  simp [COLON, SP, TAB, QUOTE]

theorem findAfter_quoted {key v : Bytes} {c : UInt8} (hk : QUOTE ∉ key) (hv : QUOTE ∉ v)
    (hne : v ≠ key) (hc : c ∉ key) (hq : c ≠ QUOTE) (t : Bytes) :
    findAfter (quoted key) (quoted v ++ c :: t) = findAfter (quoted key) t := by
  have h := stripPrefix_quoted hk hv hne (c :: t)
  simp only [quoted, List.cons_append, List.append_assoc, List.nil_append] at h ⊢
  rw [findAfter_cons h, findAfter_skip hv]
  exact (findAfter_cons (stripPrefix_closing hc hq t)).trans
    (findAfter_cons (stripPrefix_head hq.symm _ t))

/-- A string value that is clean is the field's. -/
theorem jsonFind_field {key v : Bytes} (hv : Clean v) (t : Bytes) :
    jsonFind (quoted key) 0 (quoted key ++ COLON :: (quoted v ++ t)) = v := by
  have := jsonFind_key key (v ++ QUOTE :: t)
  rw [jsonString_of_clean hv] at this
  simpa [quoted] using this

theorem readSignCount_front {c : PasskeyCredential} (h : Stored c) (tail : Bytes) :
    readSignCount (front c tail) = c.signCount := by
  obtain ⟨d, ds, hds⟩ := List.exists_cons_of_ne_nil (decimal_ne_nil c.signCount)
  have hd : isDigit d = true := isDigit_of_mem_decimal (n := c.signCount) (by simp [hds])
  have hfind : findAfter (quoted (ascii "sign_count")) (front c tail) = some
      (COLON :: (decimal c.signCount ++ COMMA ::
        (quoted (ascii "label") ++ COLON :: QUOTE :: tail))) := by
    rw [front, quoted, findAfter_cons (stripPrefix_head (by decide) _ _), ← quoted,
      findAfter_quoted (by decide) (by decide) (by decide) (by decide) (by decide),
      findAfter_quoted (by decide) h.credId.1.1 h.credId.2 (by decide) (by decide),
      findAfter_quoted (by decide) (by decide) (by decide) (by decide) (by decide),
      findAfter_quoted (by decide) h.pubkeyX.1.1 h.pubkeyX.2.1 (by decide) (by decide),
      findAfter_quoted (by decide) (by decide) (by decide) (by decide) (by decide),
      findAfter_quoted (by decide) h.pubkeyY.1.1 h.pubkeyY.2.1 (by decide) (by decide),
      findAfter_append _ _ (by simp [quoted])]
  have hdrop (s : Bytes) : (COLON :: (decimal c.signCount ++ s)).dropWhile
      (fun c => c = COLON || c = SP) = decimal c.signCount ++ s := by
    have hne : ∀ b : UInt8, isDigit b = false → d ≠ b := fun b hb e => by simp [← e, hd] at hb
    simp [hds, hne COLON (by decide), hne SP (by decide)]
  have hlt : c.signCount < 2 ^ 64 := h.signCount.trans (by decide)
  have hname : ascii "\"sign_count\"" = quoted (ascii "sign_count") := by decide
  have hread (s : Bytes) : stoull (decimal c.signCount ++ COMMA :: s) = some c.signCount :=
    stoull_decimal c.signCount (COMMA :: s) hlt (by simp [show isDigit COMMA = false from rfl])
  simp only [readSignCount, hname, hfind, hdrop, hread]
  exact Nat.mod_eq_of_lt h.signCount

/-- **The fields.** All but the label are read back whatever stands in the label. -/
theorem readObject_front {c : PasskeyCredential} (h : Stored c) (tail : Bytes) :
    readObject (front c tail) = { c with label := (jsonString tail).getD [] } := by
  have hopen (key s : Bytes) :
      jsonFind (quoted key) 0 (LBRACE :: s) = jsonFind (quoted key) 0 s := jsonFind_ne (by decide) s
  have hid : jsonGetStr (front c tail) (ascii "id") = c.credId := by
    exact (hopen _ _).trans (jsonFind_field h.credId.1 _)
  have hx : jsonGetStr (front c tail) (ascii "x") = c.pubkeyX := by
    refine (hopen _ _).trans ?_
    rw [jsonFind_quoted (by decide) (by decide) (by decide) (by decide) (by decide),
      jsonFind_value (by decide) h.credId.1.1 (by decide)]
    exact jsonFind_field h.pubkeyX.1 _
  have hy : jsonGetStr (front c tail) (ascii "y") = c.pubkeyY := by
    refine (hopen _ _).trans ?_
    rw [jsonFind_quoted (by decide) (by decide) (by decide) (by decide) (by decide),
      jsonFind_value (by decide) h.credId.1.1 (by decide),
      jsonFind_quoted (by decide) (by decide) (by decide) (by decide) (by decide),
      jsonFind_value (by decide) h.pubkeyX.1.1 (by decide)]
    exact jsonFind_field h.pubkeyY.1 _
  have hlabel : jsonGetStr (front c tail) (ascii "label") = (jsonString tail).getD [] := by
    refine (hopen _ _).trans ?_
    rw [jsonFind_quoted (by decide) (by decide) (by decide) (by decide) (by decide),
      jsonFind_value (by decide) h.credId.1.1 (by decide),
      jsonFind_quoted (by decide) (by decide) (by decide) (by decide) (by decide),
      jsonFind_value (by decide) h.pubkeyX.1.1 (by decide),
      jsonFind_quoted (by decide) (by decide) (by decide) (by decide) (by decide),
      jsonFind_value (by decide) h.pubkeyY.1.1 (by decide),
      jsonFind_quoted (by decide) (by decide) (by decide) (by decide) (by decide),
      jsonFind_text (not_mem_decimal (by decide) _), jsonFind_ne (by decide)]
    exact jsonFind_key _ _
  simp only [readObject, hid, hx, hy, hlabel, readSignCount_front h]

/-! ## The array -/

theorem readArray_skip (n : Nat) (s : Bytes) : readArray n s = readArray 0 (s.drop n) := by
  induction n generalizing s with
  | zero => rfl
  | succ n ih =>
    cases s with
    | nil => simp [readArray]
    | cons c s => simpa [readArray] using ih s

theorem readArray_plain {c : UInt8} (hr : c ≠ RBRACKET) (hl : c ≠ LBRACE) (s : Bytes) :
    readArray 0 (c :: s) = readArray 0 s := by
  rw [readArray, if_neg hr, if_pos hl]

/-- What is read is complete. -/
theorem complete_of_mem {n : Nat} {s : Bytes} {c : PasskeyCredential} (h : c ∈ readArray n s) :
    c.complete = true := by
  fun_induction readArray n s with
  | case1 => cases h
  | case2 n c s ih => exact ih h
  | case3 => cases h
  | case4 c s hr hl ih => exact ih h
  | case5 c s hr hl obj rest hc ih =>
    rcases List.mem_cons.mp h with rfl | h
    · exact hc
    · exact ih h
  | case6 c s hr hl obj rest hc ih => exact ih h

/-- An object that begins here. -/
theorem readArray_front {c : PasskeyCredential} {s t : Bytes}
    (h : takeObject 0 false NUL (front c s) = front c t) : readArray 0 (front c s) =
      let rest := readArray 0 ((front c s).drop (front c t).length)
      if (readObject (front c t)).complete then readObject (front c t) :: rest else rest := by
  obtain ⟨inner, hs⟩ : ∃ inner, front c s = LBRACE :: inner := ⟨_, rfl⟩
  obtain ⟨n, hn⟩ : ∃ n, (front c t).length = n + 1 := ⟨_, List.length_cons⟩
  rw [hs] at h ⊢
  rw [readArray, if_neg (by decide), if_neg (not_not.mpr rfl), h]
  dsimp only
  rw [hn, Nat.add_sub_cancel, readArray_skip n inner]
  rfl

/-- The record up to its label is complete if its id is not empty. -/
theorem complete_of_stored {c : PasskeyCredential} (h : Stored c) (hid : c.credId ≠ [])
    (tail : Bytes) : (readObject (front c tail)).complete = true := by
  simp [readObject_front h, PasskeyCredential.complete, hid, h.pubkeyX.2.2, h.pubkeyY.2.2]

theorem readArray_record {c : PasskeyCredential} (h : Stored c) (hid : c.credId ≠ [])
    (hl : Clean c.label) (t : Bytes) : readArray 0 (record c ++ t) = c :: readArray 0 t := by
  have hobj : takeObject 0 false NUL (front c (c.label ++ QUOTE :: RBRACE :: t)) =
      front c (c.label ++ QUOTE :: [RBRACE]) := by
    rw [takeObject_front h, takeObject_string _ hl (by decide)]
    simp [takeObject, show RBRACE ≠ QUOTE by decide, show RBRACE ≠ LBRACE by decide]
  have hrecord : front c (c.label ++ QUOTE :: [RBRACE]) = record c := by
    rw [← record_append, List.append_nil]
  rw [record_append, readArray_front hobj]
  dsimp only
  rw [if_pos (complete_of_stored h hid _), readObject_front h, jsonString_of_clean hl,
    Option.getD_some, hrecord, ← record_append, List.drop_left]

/-- **A label that is not clean** is not read back. -/
theorem readArray_damaged {c : PasskeyCredential} (h : Stored c) (hid : c.credId ≠ []) (t : Bytes) :
    ∃ label rest, readArray 0 (record c ++ t) = { c with label := label } :: rest ∧
      (label = c.label → Clean c.label) := by
  obtain ⟨u, hu⟩ := takeObject_prefix 1 true QUOTE (c.label ++ QUOTE :: RBRACE :: t)
  rw [record_append, readArray_front (takeObject_front h _)]
  dsimp only
  rw [if_pos (complete_of_stored h hid _), readObject_front h]
  refine ⟨_, _, rfl, fun he => ?_⟩
  cases hj : jsonString (takeObject 1 true QUOTE (c.label ++ QUOTE :: RBRACE :: t)) with
  | none => exact absurd he.symm (by simp [hj, h.label])
  | some label =>
    have hlabel : label = c.label := by simpa [hj] using he
    have := jsonString_append u hj
    rw [hu, hlabel] at this
    exact clean_of_jsonString this

/-- The records of the array, each behind a comma. -/
def recordsText : List PasskeyCredential → Bytes
  | [] => []
  | c :: cs => ascii ",\n" ++ (ascii "  " ++ record c) ++ recordsText cs

theorem intercalate_records (c : PasskeyCredential) (cs : List PasskeyCredential) :
    (ascii ",\n").intercalate ((c :: cs).map fun c => ascii "  " ++ record c) =
      ascii "  " ++ record c ++ recordsText cs := by
  induction cs generalizing c with
  | nil => simp [recordsText, List.intercalate]
  | cons d cs ih =>
    rw [List.map_cons, List.map_cons, List.intercalate_cons_cons, ← List.map_cons (f := fun c => ascii "  " ++ record c), ih]
    simp [recordsText]

/-- The bytes before a record are passed over. -/
theorem readArray_comma (s : Bytes) : readArray 0 (ascii ",\n" ++ (ascii "  " ++ s)) = readArray 0 s := by
  have h (c : UInt8) (hc : c ≠ RBRACKET ∧ c ≠ LBRACE) (s : Bytes) := readArray_plain hc.1 hc.2 s
  rw [show ascii ",\n" ++ (ascii "  " ++ s) = 44 :: 10 :: 32 :: 32 :: s by rfl, h 44 (by decide),
    h 10 (by decide), h 32 (by decide), h 32 (by decide)]

def arrayEnd : Bytes := ascii "\n]\x7d\n"

/-- **The array** is read back exactly if no id is empty and every label is clean. -/
theorem readArray_recordsText {cs : List PasskeyCredential} (h : ∀ c ∈ cs, Stored c) :
    readArray 0 (recordsText cs ++ arrayEnd) = cs ↔ ∀ c ∈ cs, c.credId ≠ [] ∧ Clean c.label := by
  induction cs with
  | nil => simp [recordsText, arrayEnd, readArray, ascii, RBRACKET, LBRACE]
  | cons c cs ih =>
    have ih := ih fun d hd => h d (List.mem_cons_of_mem _ hd)
    have hc := h c (by simp)
    have htext : readArray 0 (recordsText (c :: cs) ++ arrayEnd) =
        readArray 0 (record c ++ (recordsText cs ++ arrayEnd)) := by
      simp only [recordsText, List.append_assoc, readArray_comma]
    rw [htext, List.forall_mem_cons, ← ih]
    constructor
    · intro heq
      have hid : c.credId ≠ [] := by
        have := complete_of_mem (heq ▸ List.mem_cons_self : c ∈ readArray 0 _)
        rintro e
        simp [PasskeyCredential.complete, e] at this
      obtain ⟨label, rest, hread, hclean⟩ := readArray_damaged hc hid (recordsText cs ++ arrayEnd)
      have hl : Clean c.label := by
        rw [hread, List.cons.injEq] at heq
        exact hclean (congrArg PasskeyCredential.label heq.1)
      rw [readArray_record hc hid hl, List.cons.injEq] at heq
      exact ⟨⟨hid, hl⟩, heq.2⟩
    · rintro ⟨⟨hid, hl⟩, heq⟩
      rw [readArray_record hc hid hl, heq]

/-- **Loading what was saved** reads the array, whatever was there before. -/
theorem loadCredentials_saveCredentials (cs old : List PasskeyCredential) :
    loadCredentials (saveCredentials cs) old = readArray 0 (recordsText cs ++ arrayEnd) := by
  have hhead (s : Bytes) : ascii "\x7b\"version\":1,\"credentials\":[\n" ++ s =
      LBRACE :: (quoted (ascii "version") ++ COLON :: ([49, COMMA] ++
        (quoted (ascii "credentials") ++ COLON :: LBRACKET :: LF :: s))) := rfl
  have hfind (s : Bytes) : findAfter (quoted (ascii "credentials"))
      (ascii "\x7b\"version\":1,\"credentials\":[\n" ++ s) =
        some (COLON :: LBRACKET :: LF :: s) := by
    rw [hhead, quoted, findAfter_cons (stripPrefix_head (by decide) _ _), ← quoted,
      findAfter_quoted (by decide) (by decide) (by decide) (by decide) (by decide), quoted,
      findAfter_skip (by decide), ← quoted, findAfter_append _ _ (by simp [quoted])]
  have hload (s : Bytes) : loadCredentials
      (ascii "\x7b\"version\":1,\"credentials\":[\n" ++ s) old = readArray 0 s := by
    have hname : ascii "\"credentials\"" = quoted (ascii "credentials") := by decide
    have hdrop : (COLON :: LBRACKET :: LF :: s).dropWhile (· ≠ LBRACKET) = LBRACKET :: LF :: s := by
      simp [show COLON ≠ LBRACKET by decide]
    simp only [loadCredentials, hname, hfind, hdrop]
    exact readArray_plain (by decide) (by decide) s
  rw [saveCredentials, List.append_assoc, hload]
  cases cs with
  | nil => rfl
  | cons c cs =>
    have hblank (s : Bytes) : readArray 0 (ascii "  " ++ s) = readArray 0 s := by
      rw [show ascii "  " ++ s = SP :: SP :: s by rfl, readArray_plain (by decide) (by decide),
        readArray_plain (by decide) (by decide)]
    rw [intercalate_records, recordsText]
    simp only [List.append_assoc, hblank, readArray_comma]
    rfl

/-! ## What is stored -/

theorem clean_toBase64url (data : Bytes) : Clean (toBase64url data) := by
  have h (b : UInt8) (hb : b = QUOTE ∨ b = BACKSLASH) : b ∉ toBase64url data := by
    rw [toBase64url_eq]
    intro hm
    obtain ⟨n, hn, rfl⟩ := List.mem_map.mp hm
    have hc := encUrl_clean n (Base64.lt_of_mem_sextets hn)
    rcases hb with hb | hb
    · exact hc.1 hb
    · exact hc.2.1 hb
  exact ⟨h _ (.inl rfl), h _ (.inr rfl)⟩

/-- Two sextets of a rest of one octet: the second is a multiple of 16. -/
theorem sextets_rest (data : Bytes) (h : (Base64.sextets data).length % 4 = 2) :
    ∃ init k, k < 4 ∧ Base64.sextets data = init ++ [16 * k] := by
  fun_induction Base64.sextets data with
  | case1 => simp at h
  | case2 a =>
    refine ⟨[Base64.word a 0 0 / 262144], a.toNat % 4, Nat.mod_lt _ (by decide), ?_⟩
    have : Base64.word a 0 0 / 4096 % 64 = 16 * (a.toNat % 4) := by
      simp only [Base64.word, UInt8.toNat_zero]
      omega
    simp [Base64.groupOf, this]
  | case3 a b => simp [Base64.groupOf] at h
  | case4 a b c s ih =>
    rw [List.length_append, show (Base64.groupOf (Base64.word a b c)).length = 4 by rfl] at h
    obtain ⟨init, k, hk, he⟩ := ih (by omega)
    exact ⟨Base64.groupOf (Base64.word a b c) ++ init, k, hk, by rw [he, List.append_assoc]⟩

theorem toBase64url_ne_sign_count (data : Bytes) : toBase64url data ≠ ascii "sign_count" := by
  intro h
  rw [toBase64url_eq] at h
  have hlen : (Base64.sextets data).length = 10 := by
    simpa [ascii] using congrArg List.length h
  obtain ⟨init, k, hk, he⟩ := sextets_rest data (by rw [hlen])
  have hlast := congrArg List.getLast? h
  rw [he, List.map_append, List.map_singleton, List.getLast?_concat] at hlast
  have hne : ∀ k < 4, some (encUrl (16 * k)) ≠ (ascii "sign_count").getLast? := by decide
  exact hne k hk hlast

theorem toBase64url_ne_nil {data : Bytes} (h : data ≠ []) : toBase64url data ≠ [] := by
  rw [toBase64url_eq]
  intro he
  rw [List.map_eq_nil_iff] at he
  obtain ⟨a, s, rfl⟩ := List.exists_cons_of_ne_nil h
  match s with
  | [] => simp [Base64.sextets, Base64.groupOf] at he
  | [b] => simp [Base64.sextets, Base64.groupOf] at he
  | b :: c :: s => simp [Base64.sextets, Base64.groupOf] at he

theorem beNat_lt (s : Bytes) : beNat s < 256 ^ s.length := by
  induction s using List.reverseRecOn with
  | nil => decide
  | append_singleton s b ih =>
    have hb := b.toNat_lt
    have : beNat (s ++ [b]) = 256 * beNat s + b.toNat := by simp [beNat]
    rw [this, List.length_append, List.length_singleton, pow_succ]
    omega

theorem parseAttested_signCount (n : Nat) (rest : Bytes) :
    (parseAttested n rest).signCount = n := by
  unfold parseAttested
  split
  · rfl
  dsimp only
  split
  · rfl
  · split <;> rfl

theorem signCount_lt (rpHash authData : Bytes) (expectAT : Bool) :
    (parseAuthData rpHash authData expectAT).signCount < 2 ^ 32 := by
  have hlen : ((authData.drop 33).take 4).length ≤ 4 := List.length_take_le _ _
  have hcount : beNat ((authData.drop 33).take 4) < 2 ^ 32 :=
    (beNat_lt _).trans_le ((Nat.pow_le_pow_right (by decide) hlen).trans (by decide))
  unfold parseAuthData
  split
  · simp
  split
  · simp
  dsimp only
  split
  · simp
  split
  · exact hcount
  · rw [parseAttested_signCount]
    exact hcount

theorem length_of_extractCoseP256 {data x y : Bytes} (h : extractCoseP256 data = some (x, y)) :
    x.length = 32 ∧ y.length = 32 := by
  obtain ⟨v, rest, alg, -, -, -, -, -, -, -, hlen⟩ := extractCoseP256_some h
  exact hlen

/-- The id and the key of accepted data with a credential. -/
theorem parseAttested_credential {n : Nat} {rest : Bytes} (h : (parseAttested n rest).accepted = true) :
    (∃ id, (parseAttested n rest).credId = toBase64url id) ∧
    (parseAttested n rest).pubX.length = 32 ∧ (parseAttested n rest).pubY.length = 32 := by
  unfold parseAttested at h ⊢
  split at h
  · cases h
  rename_i hlen
  rw [if_neg hlen]
  dsimp only at h ⊢
  split at h
  · cases h
  rename_i hid
  rw [if_neg hid]
  split at h
  · cases h
  · rename_i x y hkey
    exact ⟨⟨_, rfl⟩, length_of_extractCoseP256 hkey⟩

theorem parseAuthData_credential {rpHash authData : Bytes}
    (h : (parseAuthData rpHash authData true).accepted = true) :
    (∃ id, (parseAuthData rpHash authData true).credId = toBase64url id) ∧
    (parseAuthData rpHash authData true).pubX.length = 32 ∧
    (parseAuthData rpHash authData true).pubY.length = 32 := by
  unfold parseAuthData at h ⊢
  split at h
  · cases h
  rename_i hlen
  split at h
  · cases h
  rename_i hrp
  rw [if_neg hlen, if_neg hrp]
  dsimp only at h ⊢
  split at h
  · cases h
  rename_i hup
  rw [if_neg hup]
  split at h
  · cases h
  rename_i hat
  rw [if_neg hat]
  exact parseAttested_credential h

theorem stored_of_checkAttestation {rp : WebAuthnRP} {now : Int} {pr : Pending} {q : Attestation}
    {c : PasskeyCredential} (h : checkAttestation cfg cr rp now pr q = .ok c) : Stored c := by
  simp only [checkAttestation] at h
  split at h
  · cases h
  split at h
  · cases h
  split at h
  · cases h
  rename_i authData _
  split at h
  · cases h
  rename_i hacc
  split at h
  · cases h
  cases h
  obtain ⟨⟨id, hid⟩, hx, hy⟩ := parseAuthData_credential (by simpa using hacc)
  have hne {data : Bytes} (hl : data.length = 32) : data ≠ [] := by
    rintro rfl
    cases hl
  refine ⟨?_, ⟨clean_toBase64url _, toBase64url_ne_sign_count _, toBase64url_ne_nil (hne hx)⟩,
    ⟨clean_toBase64url _, toBase64url_ne_sign_count _, toBase64url_ne_nil (hne hy)⟩,
    signCount_lt _ _ _, ?_⟩
  · dsimp only
    rw [hid]
    exact ⟨clean_toBase64url _, toBase64url_ne_sign_count _⟩
  · dsimp only
    split
    · simp [ascii]
    · assumption

theorem mem_lookmap {α : Type*} {f : α → Option α} {l : List α} {b : α} (h : b ∈ l.lookmap f) :
    b ∈ l ∨ ∃ a ∈ l, f a = some b := by
  induction l with
  | nil => cases h
  | cons a l ih =>
    cases hf : f a with
    | none =>
      rw [List.lookmap_cons_none f l hf] at h
      rcases List.mem_cons.mp h with rfl | h
      · exact .inl (by simp)
      · rcases ih h with h | ⟨x, hx, hb⟩
        · exact .inl (List.mem_cons_of_mem _ h)
        · exact .inr ⟨x, List.mem_cons_of_mem _ hx, hb⟩
    | some c =>
      rw [List.lookmap_cons_some f l hf] at h
      rcases List.mem_cons.mp h with rfl | h
      · exact .inr ⟨a, by simp, hf⟩
      · exact .inl (List.mem_cons_of_mem _ h)

/-- A login changes no more than a counter. -/
theorem stored_of_checkAssertion {rp : WebAuthnRP} {now : Int} {pa : Pending} {q : Assertion}
    {creds : List PasskeyCredential} (hs : ∀ c ∈ rp.credentials, Stored c)
    (h : checkAssertion cfg cr rp now pa q = .ok creds) : ∀ c ∈ creds, Stored c := by
  simp only [checkAssertion] at h
  split at h
  · cases h
  split at h
  · cases h
  split at h
  · cases h
  split at h
  · cases h
  split at h
  · cases h
  split at h
  · cases h
    intro c hc
    rcases mem_lookmap hc with hc | ⟨c', hc', he⟩
    · exact hs c hc
    · obtain ⟨-, he⟩ := Option.ite_none_right_eq_some.mp he
      cases he
      obtain ⟨hid, hx, hy, -, hl⟩ := hs c' hc'
      exact ⟨hid, hx, hy, signCount_lt _ _ _, hl⟩
  · cases h
    exact hs

theorem stored_step {rp rp' : WebAuthnRP} {call : Call} (hi : ∀ c ∈ rp.credentials, Stored c)
    (h : step cfg cr rp call = some rp') : ∀ c ∈ rp'.credentials, Stored c := by
  cases call with
  | beginAuthentication t challenge key =>
    cases h
    exact hi
  | completeAuthentication t q token =>
    cases h
    simp only [completeAuthentication]
    split
    · exact hi
    split
    · exact hi
    · rename_i creds hok
      exact stored_of_checkAssertion hi hok
  | beginAdminRegistration t challenge key userId =>
    cases h
    exact hi
  | completeAdminRegistration t q =>
    cases h
    simp only [completeAdminRegistration]
    split
    · exact hi
    split
    · exact hi
    · rename_i c hok
      intro d hd
      rcases List.mem_append.mp hd with hd | hd
      · exact hi d hd
      · exact List.mem_singleton.mp hd ▸ stored_of_checkAttestation hok
  | deleteCredential credId =>
    cases h
    exact fun c hc => hi c (List.mem_of_mem_eraseP hc)
  | sweep now =>
    cases h
    exact hi

/-- **Round trip.** After every run of calls from no credentials, saving and loading restores
the list exactly if no credential id is empty and no label has a quote or a backslash. -/
theorem load_save_iff {calls : List Call} {rp : WebAuthnRP}
    (hr : run (step cfg cr) {} calls = some rp) (old : List PasskeyCredential) :
    loadCredentials (saveCredentials rp.credentials) old = rp.credentials ↔
      ∀ c ∈ rp.credentials, c.credId ≠ [] ∧ QUOTE ∉ c.label ∧ BACKSLASH ∉ c.label := by
  have hs : ∀ c ∈ rp.credentials, Stored c :=
    invariant_of_run (I := fun rp => ∀ c ∈ rp.credentials, Stored c)
      (fun _ _ _ hi h => stored_step hi h) (by simp) hr
  rw [loadCredentials_saveCredentials]
  exact readArray_recordsText hs

/-! ## A label that forges a record -/

/-- The authenticator data of a new credential with the example's key. -/
def exampleNewAuthData : Bytes :=
  exampleCrypto.sha256 exampleConfig.rpId ++ [0x41, 0, 0, 0, 0] ++ List.replicate 16 0 ++
    [0, 4, 1, 2, 3, 4] ++ [0xa5, 0x01, 0x02, 0x03, 0x26, 0x20, 0x01, 0x21, 0x58, 0x20] ++
    fromBase64url exampleCredential.pubkeyX ++ [0x22, 0x58, 0x20] ++
    fromBase64url exampleCredential.pubkeyY

/-- The request body with a label, which is written with its escapes. -/
def exampleBody (label : Bytes) : Bytes :=
  let attestation := [0xa1, 0x68] ++ ascii "authData" ++ [0x58, 136] ++ exampleNewAuthData
  let clientData := ascii "\x7b\"type\":\"webauthn.create\",\"challenge\":\"" ++
    toBase64url exampleChallenge ++ ascii "\",\"origin\":\"https://ntm.example\"\x7d"
  ascii "\x7b\"session_key\":\"" ++ toBase64url exampleKey ++
    ascii "\",\"attestation_object\":\"" ++ toBase64url attestation ++
    ascii "\",\"client_data_json\":\"" ++ toBase64url clientData ++
    ascii "\",\"label\":\"" ++ label ++ ascii "\"\x7d"

def registrationCalls (q : Attestation) : List Call :=
  [.beginAdminRegistration ⟨0, 0⟩ exampleChallenge exampleKey [],
    .completeAdminRegistration exampleClock q]

/-- A registration through the endpoint, and a view of what comes of it. -/
private theorem exists_registration {α : Type} {body : Bytes} {view : WebAuthnRP → α} {a : α}
    (h : ((registrationOf body).bind fun q =>
      (run (step exampleConfig exampleCrypto) {} (registrationCalls q)).map view) = some a) :
    ∃ q rp, registrationOf body = some q ∧
      run (step exampleConfig exampleCrypto) {} (registrationCalls q) = some rp ∧ view rp = a := by
  obtain ⟨q, hq, h⟩ := Option.bind_eq_some_iff.mp h
  obtain ⟨rp, hr, h⟩ := Option.map_eq_some_iff.mp h
  exact ⟨q, rp, hq, hr, h⟩

/-- A label that ends its record and begins another, as it stands in a request. -/
def forgedLabel : Bytes :=
  ascii ("x\\\"\x7d,\x7b\\\"id\\\":\\\"EVIL\\\",\\\"x\\\":\\\"AA\\\",\\\"y\\\":\\\"AA\\\"," ++
    "\\\"label\\\":\\\"y")

/-- Both registrations; one evaluation of the example. -/
private theorem example_registrations :
    ((registrationOf (exampleBody (ascii "Phone"))).bind fun q =>
        (run (step exampleConfig exampleCrypto) {} (registrationCalls q)).map fun rp =>
          rp.credentials.map fun c => (c.credId, c.label)) =
        some [(ascii "AQIDBA", ascii "Phone")] ∧
      ((registrationOf (exampleBody forgedLabel)).bind fun q =>
        (run (step exampleConfig exampleCrypto) {} (registrationCalls q)).map fun rp =>
          (rp.credentials.map (·.credId), (loadCredentials (saveCredentials rp.credentials) []).map
            fun c => (c.credId, c.label))) =
        some ([ascii "AQIDBA"], [(ascii "AQIDBA", ascii "x"), (ascii "EVIL", ascii "y")]) := by
  decide +kernel

theorem load_save_iff_phone :
    ∃ q rp, registrationOf (exampleBody (ascii "Phone")) = some q ∧
      run (step exampleConfig exampleCrypto) {} (registrationCalls q) = some rp ∧
      rp.credentials ≠ [] ∧
      loadCredentials (saveCredentials rp.credentials) [] = rp.credentials := by
  obtain ⟨q, rp, hq, hr, hv⟩ := exists_registration example_registrations.1
  refine ⟨q, rp, hq, hr, ?_, (load_save_iff hr []).mpr ?_⟩
  · rintro e
    simp [e] at hv
  · intro c hc
    have hm := List.mem_map_of_mem (f := fun c : PasskeyCredential => (c.credId, c.label)) hc
    rw [hv, List.mem_singleton, Prod.mk.injEq] at hm
    rw [hm.1, hm.2]
    decide

/-- One credential is registered; after the next start there are two. -/
theorem forged_credential :
    ∃ q rp, registrationOf (exampleBody forgedLabel) = some q ∧
      run (step exampleConfig exampleCrypto) {} (registrationCalls q) = some rp ∧
      rp.credentials.map (·.credId) = [ascii "AQIDBA"] ∧
      (loadCredentials (saveCredentials rp.credentials) []).map (fun c => (c.credId, c.label)) =
        [(ascii "AQIDBA", ascii "x"), (ascii "EVIL", ascii "y")] ∧
      loadCredentials (saveCredentials rp.credentials) [] ≠ rp.credentials := by
  obtain ⟨q, rp, hq, hr, hv⟩ := exists_registration example_registrations.2
  obtain ⟨hids, hloaded⟩ := Prod.mk.inj hv
  refine ⟨q, rp, hq, hr, hids, hloaded, fun e => ?_⟩
  have h := congrArg List.length hloaded
  rw [e, List.length_map, ← List.length_map (f := (·.credId)), hids] at h
  cases h

end TrafficMonitor.WebAuthn
