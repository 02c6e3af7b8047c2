import Mathlib.Tactic.Common
import Mathlib.Data.List.Forall2
import Mathlib.Data.List.Pairwise
import TrafficMonitor.Basic.Lines
import TrafficMonitor.Basic.Bytes

/-!
# The admin identities of Sign in with Apple

`SiwaAdminStore` keeps records of an email and the Apple subject pinned to it. The file
holds them as a flat JSON array that `saveSnapshot` writes without escapes and `load`
reads with a hand-rolled parser; the constructor adds the records of the configuration,
and `matchAndPin` sets the subject of the record whose email logs in first.

Proved here:

* `load_snapshotText`: of a snapshot whose texts are plain, `load` reads back the records
  that have an email;
* `construct_mem`, `Sound.construct`: the constructor keeps the loaded records, and no
  email is listed twice if the file lists none twice;
* `toPin_spec`: a pin sets the subject of one record that had none;
* `length_snapshotText_le`: a snapshot does not get shorter by pins.
-/

namespace TrafficMonitor.Siwa

open Bytes
open Lines (cut_length)

/-! ## Records and their text -/

structure SiwaAdminIdentity where
  email : Bytes
  sub : Bytes := []
  deriving DecidableEq, Repr

/-- One record as `saveSnapshot` prints it. -/
def recordText (id : SiwaAdminIdentity) : Bytes :=
  ascii "  \x7b\"email\":\"" ++ id.email ++ ascii "\",\"sub\":\"" ++ id.sub ++ ascii "\"\x7d"

/-- The loop of `saveSnapshot`. -/
def recordsText : Bool → List SiwaAdminIdentity → Bytes
  | _, [] => []
  | first, id :: snap =>
    (if first then [] else ascii ",\n") ++ recordText id ++ recordsText false snap

/-- What `saveSnapshot` writes. -/
def snapshotText (snap : List SiwaAdminIdentity) : Bytes :=
  ascii "[\n" ++ recordsText true snap ++ ascii "\n]\n"

/-! ## Reading -/

/-- The value of a JSON string up to its closing quote, escapes reduced to the escaped byte. -/
def jwtString : Bytes → Bytes
  | [] => []
  | c :: s =>
    if c = QUOTE then []
    else if c = BACKSLASH then match s with
      | [] => [c]
      | e :: s => e :: jwtString s
    else c :: jwtString s

def jwtGetStr (json key : Bytes) : Bytes :=
  match findAfter (QUOTE :: key ++ [QUOTE, COLON]) json with
  | none => []
  | some rest => match rest.dropWhile fun b => b = SP || b = TAB || b = LF || b = CR with
    | [] => []
    | b :: value => if b = QUOTE then jwtString value else []

/-- `std::tolower` in the C locale. -/
def toLower (b : UInt8) : UInt8 := if 65 ≤ b && b ≤ 90 then b + 32 else b

def lower (s : Bytes) : Bytes := s.map toLower

/-- The record that `load` takes from the text of one object. -/
def readRecord (obj : Bytes) : SiwaAdminIdentity where
  email := lower (jwtGetStr obj (ascii "email"))
  sub := jwtGetStr obj (ascii "sub")

/-- The loop of `load`, behind the opening bracket. -/
def readRecords : Bytes → List SiwaAdminIdentity
  | [] => []
  | c :: s =>
    if c = SP || c = LF || c = CR || c = COMMA then readRecords s
    else if c = RBRACKET then []
    else if c ≠ LBRACE then readRecords s
    else match h : Lines.cut RBRACE s with
      | none => []
      | some (inner, rest) =>
        have : rest.length < s.length := cut_length h
        let id := readRecord (c :: inner ++ [RBRACE])
        if id.email ≠ [] then id :: readRecords rest else readRecords rest
termination_by s => s.length

/-- `load`, of a file with this text; a file that does not exist has no text. -/
def load (file : Bytes) : List SiwaAdminIdentity :=
  match Lines.cut LBRACKET file with
  | none => []
  | some (_, s) => readRecords s

/-! ## The constructor -/

/-- `splitCsv`: tokens between commas without the spaces around them, empty ones left out. -/
def splitCsv (csv : Bytes) (lowercase : Bool) : List Bytes :=
  let t := Lines.split COMMA csv
  let toks := (t.1 ++ [t.2]).map fun tok => trimRight (· = SP) (tok.dropWhile (· = SP))
  (toks.filter (· ≠ [])).map fun tok => if lowercase then lower tok else tok

def siwaEmailsEqual (a b : Bytes) : Bool := a.length = b.length && lower a = lower b

def seedEmail (ids : List SiwaAdminIdentity) (email : Bytes) : List SiwaAdminIdentity :=
  if ids.any fun id => siwaEmailsEqual id.email email then ids else ids ++ [SiwaAdminIdentity.mk email []]

/-- A record of `siwa_admin_subs` has no email. -/
def seedSub (ids : List SiwaAdminIdentity) (sub : Bytes) : List SiwaAdminIdentity :=
  if ids.any fun id => id.sub = sub then ids else ids ++ [SiwaAdminIdentity.mk [] sub]

/-- The identities of `SiwaAdminStore(filePath, configEmails, configSubs)`. -/
def construct (file configEmails configSubs : Bytes) : List SiwaAdminIdentity :=
  (splitCsv configSubs false).foldl seedSub
    ((splitCsv configEmails true).foldl seedEmail (load file))

/-! ## Matching -/

def matchAdminIdentity (ids : List SiwaAdminIdentity) (sub email : Bytes) : Option Nat :=
  match ids.findIdx? fun id => id.sub ≠ [] && id.sub = sub with
  | some i => some i
  | none =>
    if email ≠ [] then ids.findIdx? fun id => id.sub = [] && siwaEmailsEqual id.email email
    else none

/-- The record that `matchAndPin` pins, with its index: the matched one, if it has no subject. -/
def toPin (ids : List SiwaAdminIdentity) (sub email : Bytes) :
    Option (Nat × SiwaAdminIdentity) := do
  let i ← matchAdminIdentity ids sub email
  let id ← ids[i]?
  if id.sub = [] then some (i, { id with sub }) else none

/-- `matchAndPin` under its lock: whether the identity is an admin's, the identities after it,
and the snapshot to write if it pinned one. -/
def matchAndPin (ids : List SiwaAdminIdentity) (sub email : Bytes) :
    Bool × List SiwaAdminIdentity × Option (List SiwaAdminIdentity) :=
  ((matchAdminIdentity ids sub email).isSome,
    match toPin ids sub email with
    | none => (ids, none)
    | some (i, id) => (ids.set i id, some (ids.set i id)))

/-! ## The text is read back -/

/-- Bytes that `saveSnapshot` would have to escape. -/
def Plain (s : Bytes) : Prop := QUOTE ∉ s ∧ BACKSLASH ∉ s ∧ RBRACE ∉ s

instance decidablePlain (s : Bytes) : Decidable (Plain s) := inferInstanceAs (Decidable (_ ∧ _))

@[simp] theorem jwtString_quote (t : Bytes) : jwtString (QUOTE :: t) = [] := by
  rw [jwtString.eq_def]
  simp

theorem jwtString_cons {c : UInt8} (hq : QUOTE ≠ c) (hb : BACKSLASH ≠ c) (s : Bytes) :
    jwtString (c :: s) = c :: jwtString s := by
  rw [jwtString.eq_def]
  simp [Ne.symm hq, Ne.symm hb]

theorem jwtString_append {s : Bytes} (hq : QUOTE ∉ s) (hb : BACKSLASH ∉ s) (t : Bytes) :
    jwtString (s ++ QUOTE :: t) = s := by
  induction s with
  | nil => simp
  | cons c s ih =>
    simp only [List.mem_cons, not_or] at hq hb
    rw [List.cons_append, jwtString_cons hq.1 hb.1, ih hq.2 hb.2]

theorem jwtGetStr_of_findAfter {json key s t : Bytes}
    (h : findAfter (QUOTE :: key ++ [QUOTE, COLON]) json = some (QUOTE :: (s ++ QUOTE :: t)))
    (hs : Plain s) : jwtGetStr json key = s := by
  have hd : (QUOTE :: (s ++ QUOTE :: t)).dropWhile
      (fun b => b = SP || b = TAB || b = LF || b = CR) = QUOTE :: (s ++ QUOTE :: t) :=
    List.dropWhile_cons_of_neg (by decide)
  simp only [jwtGetStr, h, hd, if_true]
  exact jwtString_append hs.1 hs.2.1 t

/-- The text of a record between its braces. -/
def innerText (id : SiwaAdminIdentity) : Bytes :=
  ascii "\"email\":" ++ (QUOTE :: (id.email ++ QUOTE :: COMMA ::
    (ascii "\"sub\":" ++ (QUOTE :: (id.sub ++ [QUOTE])))))

theorem recordText_eq (id : SiwaAdminIdentity) :
    recordText id = SP :: SP :: LBRACE :: (innerText id ++ [RBRACE]) := by
  have h₁ : ascii "  \x7b\"email\":\"" = SP :: SP :: LBRACE :: (ascii "\"email\":" ++ [QUOTE]) := by
    decide
  have h₂ : ascii "\",\"sub\":\"" = QUOTE :: COMMA :: (ascii "\"sub\":" ++ [QUOTE]) := by decide
  have h₃ : ascii "\"\x7d" = [QUOTE, RBRACE] := by decide
  simp [recordText, innerText, h₁, h₂, h₃]

/-- The needle of `sub` does not match at the quote that opens an email. -/
theorem stripPrefix_sub_email {s : Bytes} (hs : QUOTE ∉ s) (t : Bytes) :
    stripPrefix (QUOTE :: (ascii "sub" ++ [QUOTE, COLON])) (QUOTE :: (s ++ QUOTE :: COMMA :: t)) =
      none := by
  by_contra hne
  obtain ⟨r, hr⟩ := Option.ne_none_iff_exists'.mp hne
  have e : s ++ QUOTE :: COMMA :: t = ascii "sub" ++ QUOTE :: COLON :: r := by
    simpa using stripPrefix_eq_some.mp hr
  have hcut := Lines.cut_append QUOTE s (COMMA :: t) hs
  rw [e, Lines.cut_append QUOTE _ _ (by decide)] at hcut
  simp [COLON, COMMA] at hcut

theorem jwtGetStr_email {id : SiwaAdminIdentity} (he : Plain id.email) :
    jwtGetStr (LBRACE :: innerText id ++ [RBRACE]) (ascii "email") = id.email := by
  have hkey : QUOTE :: ascii "email" ++ [QUOTE, COLON] = ascii "\"email\":" := by decide
  refine jwtGetStr_of_findAfter
    (t := COMMA :: (ascii "\"sub\":" ++ (QUOTE :: (id.sub ++ [QUOTE]))) ++ [RBRACE]) ?_ he
  rw [hkey, List.cons_append, findAfter_cons (by simp [stripPrefix, ascii, LBRACE]), innerText,
    List.append_assoc, findAfter_append _ _ (by decide)]
  simp

theorem jwtGetStr_sub {id : SiwaAdminIdentity} (he : Plain id.email) (hs : Plain id.sub) :
    jwtGetStr (LBRACE :: innerText id ++ [RBRACE]) (ascii "sub") = id.sub := by
  have hmail : ascii "\"email\":" = QUOTE :: (ascii "email" ++ [QUOTE, COLON]) := by decide
  have hsub : ascii "\"sub\":" = QUOTE :: (ascii "sub" ++ [QUOTE, COLON]) := by decide
  -- the pieces between the places where the search has to look
  have e : LBRACE :: innerText id ++ [RBRACE] =
      [LBRACE] ++ QUOTE :: (ascii "email" ++ QUOTE :: ([COLON] ++ QUOTE :: (id.email ++
        QUOTE :: COMMA :: (QUOTE :: (ascii "sub" ++ [QUOTE, COLON]) ++
          QUOTE :: (id.sub ++ QUOTE :: [RBRACE]))))) := by
    simp [innerText, hmail, hsub]
  have hn : ∀ t, stripPrefix (QUOTE :: (ascii "sub" ++ [QUOTE, COLON]))
      (QUOTE :: (ascii "email" ++ t)) = none := fun t => by
    simp [stripPrefix, ascii]
  have hcolon : ∀ t, stripPrefix (QUOTE :: (ascii "sub" ++ [QUOTE, COLON]))
      (QUOTE :: ([COLON] ++ t)) = none := fun t => by
    simp [stripPrefix, ascii, COLON]
  have hcomma : ∀ t, stripPrefix (QUOTE :: (ascii "sub" ++ [QUOTE, COLON]))
      (QUOTE :: COMMA :: t) = none := fun t => by
    simp [stripPrefix, ascii, COMMA]
  have hcomma' : ∀ t, stripPrefix (QUOTE :: (ascii "sub" ++ [QUOTE, COLON])) (COMMA :: t) = none :=
    fun t => by simp [stripPrefix, QUOTE, COMMA]
  refine jwtGetStr_of_findAfter (t := [RBRACE]) ?_ hs
  rw [e, List.cons_append]
  rw [findAfter_skip (by decide), findAfter_cons (hn _), findAfter_skip (by decide),
    findAfter_cons (hcolon _), findAfter_skip (by decide),
    findAfter_cons (stripPrefix_sub_email he.1 _), findAfter_skip he.1, findAfter_cons (hcomma _),
    findAfter_cons (hcomma' _), findAfter_append _ _ (by simp)]

theorem readRecord_inner {id : SiwaAdminIdentity} (he : Plain id.email) (hs : Plain id.sub) :
    readRecord (LBRACE :: innerText id ++ [RBRACE]) = { id with email := lower id.email } := by
  rw [readRecord, jwtGetStr_email he, jwtGetStr_sub he hs]

/-! ## A whole snapshot -/

/-- No field needs an escape, and emails are in lower case. -/
def Written (id : SiwaAdminIdentity) : Prop :=
  Plain id.email ∧ Plain id.sub ∧ lower id.email = id.email

theorem readRecords_blank {c : UInt8} (h : c = SP ∨ c = LF ∨ c = CR ∨ c = COMMA) (s : Bytes) :
    readRecords (c :: s) = readRecords s := by
  rw [readRecords, if_pos (by simpa [or_assoc] using h)]

theorem not_mem_innerText {id : SiwaAdminIdentity} (h : Written id) : RBRACE ∉ innerText id := by
  have h₁ : RBRACE ∉ ascii "\"email\":" := by decide
  have h₂ : RBRACE ∉ ascii "\"sub\":" := by decide
  have h₃ : RBRACE ≠ QUOTE := by decide
  have h₄ : RBRACE ≠ COMMA := by decide
  simp [innerText, h₁, h₂, h₃, h₄, h.1.2.2, h.2.1.2.2]

theorem readRecords_recordText {id : SiwaAdminIdentity} (h : Written id) (t : Bytes) :
    readRecords (recordText id ++ t) =
      if id.email ≠ [] then id :: readRecords t else readRecords t := by
  have hcut : Lines.cut RBRACE (innerText id ++ RBRACE :: t) = some (innerText id, t) :=
    Lines.cut_append _ _ _ (not_mem_innerText h)
  have hrec : readRecord (LBRACE :: innerText id ++ [RBRACE]) = id := by
    rw [readRecord_inner h.1 h.2.1, h.2.2]
  have e : recordText id ++ t = SP :: SP :: LBRACE :: (innerText id ++ RBRACE :: t) := by
    simp [recordText_eq]
  rw [e, readRecords_blank (.inl rfl), readRecords_blank (.inl rfl), readRecords,
    if_neg (by decide), if_neg (by decide), if_neg (by decide)]
  split
  next hn => rw [hcut] at hn; cases hn
  next inner rest hs =>
    rw [hcut] at hs
    cases hs
    rw [hrec]

theorem readRecords_recordsText {snap : List SiwaAdminIdentity} (h : ∀ id ∈ snap, Written id)
    (first : Bool) :
    readRecords (recordsText first snap ++ ascii "\n]\n") = snap.filter (·.email ≠ []) := by
  induction snap generalizing first with
  | nil =>
    have e : ascii "\n]\n" = [LF, RBRACKET, LF] := by decide
    rw [recordsText, e, List.nil_append, readRecords_blank (.inr (.inl rfl)), readRecords,
      if_neg (by decide), if_pos rfl]
    rfl
  | cons id snap ih =>
    have hid := h id (by simp)
    have hsep : ∀ t, readRecords ((if first then [] else ascii ",\n") ++ t) = readRecords t := by
      intro t
      have e : ascii ",\n" = [COMMA, LF] := by decide
      cases first with
      | true => rfl
      | false =>
        rw [if_neg Bool.false_ne_true, e]
        exact (readRecords_blank (by simp) _).trans (readRecords_blank (by simp) _)
    rw [recordsText, List.append_assoc, List.append_assoc, hsep, readRecords_recordText hid,
      ih (fun i hi => h i (by simp [hi]))]
    by_cases hm : id.email = [] <;> simp [hm]

/-- **Round trip.** `load` reads back the records of a snapshot that have an email. -/
theorem load_snapshotText {snap : List SiwaAdminIdentity} (h : ∀ id ∈ snap, Written id) :
    load (snapshotText snap) = snap.filter (·.email ≠ []) := by
  have e : snapshotText snap =
      [] ++ LBRACKET :: (LF :: (recordsText true snap ++ ascii "\n]\n")) := by
    have h₁ : ascii "[\n" = [LBRACKET, LF] := by decide
    simp [snapshotText, h₁]
  rw [load, e, Lines.cut_append _ _ _ (by simp)]
  exact (readRecords_blank (by simp) _).trans (readRecords_recordsText h true)

/-! ## Identities that can be listed -/

/-- No email has two records; records without one are those of `siwa_admin_subs`. -/
def Distinct (ids : List SiwaAdminIdentity) : Prop :=
  (ids.map (·.email)).Pairwise fun a b => a = b → a = []

structure Sound (ids : List SiwaAdminIdentity) : Prop where
  written : ∀ id ∈ ids, Written id
  distinct : Distinct ids

theorem Sound.load_snapshotText {snap : List SiwaAdminIdentity} (h : Sound snap) :
    Sound (load (snapshotText snap)) := by
  rw [Siwa.load_snapshotText h.written]
  exact ⟨fun id hid => h.written id (List.mem_of_mem_filter hid),
    h.distinct.sublist (List.filter_sublist.map _)⟩

theorem toLower_toLower (b : UInt8) : toLower (toLower b) = toLower b := by
  by_cases hb : 65 ≤ b ∧ b ≤ 90
  · have hlo : 65 ≤ b.toNat := by simpa [UInt8.le_iff_toNat_le] using hb.1
    have hhi : b.toNat ≤ 90 := by simpa [UInt8.le_iff_toNat_le] using hb.2
    have e : toLower b = b + 32 := by simp [toLower, hb]
    have hbig : ¬(b + 32 ≤ 90) := by
      rw [UInt8.le_iff_toNat_le, UInt8.toNat_add]
      simp only [UInt8.reduceToNat]
      omega
    rw [e]
    simp [toLower, hbig]
  · have e : toLower b = b := by simp [toLower, hb]
    rw [e, e]

theorem lower_lower (s : Bytes) : lower (lower s) = lower s := by
  simp [lower, toLower_toLower]

theorem lower_of_mem_splitCsv {csv tok : Bytes} (h : tok ∈ splitCsv csv true) :
    lower tok = tok := by
  obtain ⟨t, -, rfl⟩ := List.mem_map.mp h
  exact lower_lower t

theorem mem_seedEmail {ids : List SiwaAdminIdentity} {id : SiwaAdminIdentity} (h : id ∈ ids)
    (email : Bytes) : id ∈ seedEmail ids email := by
  unfold seedEmail
  split <;> simp [h]

theorem mem_seedSub {ids : List SiwaAdminIdentity} {id : SiwaAdminIdentity} (h : id ∈ ids)
    (sub : Bytes) : id ∈ seedSub ids sub := by
  unfold seedSub
  split <;> simp [h]

theorem Sound.seedEmail {ids : List SiwaAdminIdentity} {email : Bytes} (h : Sound ids)
    (hp : Plain email) (hl : lower email = email) : Sound (seedEmail ids email) := by
  unfold Siwa.seedEmail
  split
  · exact h
  next hno =>
    simp only [List.any_eq_true, not_exists, not_and] at hno
    constructor
    · intro id hid
      rcases List.mem_append.mp hid with hid | hid
      · exact h.written id hid
      · obtain rfl := List.mem_singleton.mp hid
        exact ⟨hp, by simp [Plain], hl⟩
    · rw [Distinct, List.map_append, List.pairwise_append]
      refine ⟨h.distinct, by simp, ?_⟩
      rintro a ha b hb rfl
      obtain ⟨id, hid, rfl⟩ := List.mem_map.mp ha
      obtain e : id.email = email := by simpa using hb
      exact absurd (by simp [siwaEmailsEqual, e]) (hno id hid)

theorem Sound.seedSub {ids : List SiwaAdminIdentity} {sub : Bytes} (h : Sound ids)
    (hp : Plain sub) : Sound (seedSub ids sub) := by
  unfold Siwa.seedSub
  split
  · exact h
  · constructor
    · intro id hid
      rcases List.mem_append.mp hid with hid | hid
      · exact h.written id hid
      · obtain rfl := List.mem_singleton.mp hid
        exact ⟨by simp [Plain], hp, rfl⟩
    · rw [Distinct, List.map_append, List.pairwise_append]
      refine ⟨h.distinct, by simp, ?_⟩
      rintro a - b hb rfl
      simpa using hb

/-- The tokens of the configuration need no escapes. -/
def PlainConfig (configEmails configSubs : Bytes) : Prop :=
  (∀ e ∈ splitCsv configEmails true, Plain e) ∧ ∀ s ∈ splitCsv configSubs false, Plain s

instance decidablePlainConfig (configEmails configSubs : Bytes) :
    Decidable (PlainConfig configEmails configSubs) := inferInstanceAs (Decidable (_ ∧ _))

theorem construct_mem {file : Bytes} {id : SiwaAdminIdentity} (h : id ∈ load file)
    (configEmails configSubs : Bytes) : id ∈ construct file configEmails configSubs := by
  have hmem : ∀ {f : List SiwaAdminIdentity → Bytes → List SiwaAdminIdentity},
      (∀ {ids} {id}, id ∈ ids → ∀ t, id ∈ f ids t) → ∀ (toks : List Bytes) {ids},
        id ∈ ids → id ∈ toks.foldl f ids := by
    intro f hf toks
    induction toks with
    | nil => exact fun h => h
    | cons t toks ih => exact fun h => ih (hf h t)
  exact hmem mem_seedSub _ (hmem mem_seedEmail _ h)

/-- **The constructor lists no email twice** if the file does not. -/
theorem Sound.construct {file configEmails configSubs : Bytes} (h : Sound (load file))
    (hc : PlainConfig configEmails configSubs) :
    Sound (construct file configEmails configSubs) := by
  have hfold : ∀ {f : List SiwaAdminIdentity → Bytes → List SiwaAdminIdentity}
      (toks : List Bytes) {ids}, (∀ t ∈ toks, ∀ {ids}, Sound ids → Sound (f ids t)) →
        Sound ids → Sound (toks.foldl f ids) := by
    intro f toks
    induction toks with
    | nil => exact fun _ h => h
    | cons t toks ih =>
      exact fun hf h => ih (fun t ht => hf t (by simp [ht])) (hf t (by simp) h)
  refine hfold _ (fun t ht _ hs => hs.seedSub (hc.2 t ht)) (hfold _ (fun t ht _ hs => ?_) h)
  exact hs.seedEmail (hc.1 t ht) (lower_of_mem_splitCsv ht)

/-! ## What a pin changes -/

/-- `b` has the records of `a`, with some of the open subjects set. -/
def Keeps (a b : List SiwaAdminIdentity) : Prop :=
  List.Forall₂ (fun x y => y.email = x.email ∧ (x.sub ≠ [] → y.sub = x.sub)) a b

theorem Keeps.refl (a : List SiwaAdminIdentity) : Keeps a a :=
  List.forall₂_same.mpr fun _ _ => ⟨rfl, fun _ => rfl⟩

theorem Keeps.trans {a b c : List SiwaAdminIdentity} (h : Keeps a b) (h' : Keeps b c) :
    Keeps a c := by
  induction h generalizing c with
  | nil => exact h'
  | cons hx _ ih =>
    cases h' with
    | cons hy hl =>
      exact .cons ⟨hy.1.trans hx.1, fun hs => (hy.2 (by rwa [hx.2 hs])).trans (hx.2 hs)⟩ (ih hl)

theorem Keeps.mem {a b : List SiwaAdminIdentity} (h : Keeps a b) {id : SiwaAdminIdentity}
    (hid : id ∈ a) (hs : id.sub ≠ []) : id ∈ b := by
  induction h with
  | nil => cases hid
  | @cons x y _ _ hx _ ih =>
    rcases List.mem_cons.mp hid with rfl | hid
    · have e : y = id := by
        cases y
        cases id
        simp_all
      simp [e]
    · simp [ih hid]

theorem Keeps.map_email {a b : List SiwaAdminIdentity} (h : Keeps a b) :
    b.map (·.email) = a.map (·.email) := by
  induction h with
  | nil => rfl
  | cons hx _ ih => simp [hx.1, ih]

theorem Keeps.set {ids : List SiwaAdminIdentity} {i : Nat} {old id : SiwaAdminIdentity}
    (h : ids[i]? = some old) (hs : old.sub = []) (he : id.email = old.email) :
    Keeps ids (ids.set i id) := by
  induction ids generalizing i with
  | nil => cases h
  | cons x ids ih =>
    cases i with
    | zero =>
      obtain rfl : x = old := by simpa using h
      exact .cons ⟨he, fun hn => absurd hs hn⟩ (Keeps.refl ids)
    | succ i => exact .cons ⟨rfl, fun _ => rfl⟩ (ih (by simpa using h))

/-- **A snapshot does not get shorter by pins.** -/
theorem length_snapshotText_le {a b : List SiwaAdminIdentity} (h : Keeps a b) :
    (snapshotText a).length ≤ (snapshotText b).length := by
  have hr : ∀ first, (recordsText first a).length ≤ (recordsText first b).length := by
    induction h with
    | nil => exact fun _ => le_rfl
    | @cons x y _ _ hx _ ih =>
      intro first
      have hsub : x.sub.length ≤ y.sub.length := by
        by_cases hs : x.sub = []
        · simp [hs]
        · rw [hx.2 hs]
      have := ih false
      simp only [recordsText, recordText, List.length_append, hx.1]
      omega
  have := hr true
  simp only [snapshotText, List.length_append]
  omega

/-- **One record gets its subject.** It had none, and it has an email. -/
theorem toPin_spec {ids : List SiwaAdminIdentity} {sub email : Bytes} {i : Nat}
    {id : SiwaAdminIdentity} (h : toPin ids sub email = some (i, id)) :
    ∃ old, ids[i]? = some old ∧ old.sub = [] ∧ old.email ≠ [] ∧ id = { old with sub } := by
  simp only [toPin, Option.bind_eq_bind, Option.bind_eq_some_iff] at h
  obtain ⟨j, hm, old, ho, hs⟩ := h
  split at hs
  next hsub =>
    simp only [Option.some.injEq, Prod.mk.injEq] at hs
    obtain ⟨rfl, rfl⟩ := hs
    refine ⟨old, ho, hsub, fun he => ?_, rfl⟩
    unfold matchAdminIdentity at hm
    split at hm
    next k hk =>
      obtain rfl : k = j := by simpa using hm
      obtain ⟨hlt, hp, -⟩ := List.findIdx?_eq_some_iff_getElem.mp hk
      rw [List.getElem?_eq_getElem hlt, Option.some.injEq] at ho
      simp [ho, hsub] at hp
    · split at hm
      next hne =>
        obtain ⟨hlt, hp, -⟩ := List.findIdx?_eq_some_iff_getElem.mp hm
        rw [List.getElem?_eq_getElem hlt, Option.some.injEq] at ho
        simp only [ho, siwaEmailsEqual, he, Bool.and_eq_true, decide_eq_true_eq] at hp
        exact hne (List.length_eq_zero_iff.mp hp.2.1.symm)
      · cases hm
  · cases hs

/-- An email that is pinned is not pinned again. -/
theorem toPin_email_ne {ids : List SiwaAdminIdentity} (hi : Sound ids) {p : SiwaAdminIdentity}
    (hp : p ∈ ids) (hs : p.sub ≠ []) {sub email : Bytes} {i : Nat} {id : SiwaAdminIdentity}
    (h : toPin ids sub email = some (i, id)) : id.email ≠ p.email := by
  obtain ⟨old, ho, hsub, hne, rfl⟩ := toPin_spec h
  intro e
  have hold : old ∈ ids := List.mem_of_getElem? ho
  have hdiff : old ≠ p := fun h => hs (h ▸ hsub)
  have : Std.Symm fun a b : SiwaAdminIdentity => a.email = b.email → a.email = [] :=
    ⟨fun a b h e => e.trans (h e.symm)⟩
  exact hne ((List.pairwise_map.mp hi.distinct).forall hold hp hdiff e)

/-- A pin with a plain subject keeps the identities sound. -/
theorem Sound.set {ids : List SiwaAdminIdentity} (h : Sound ids) {sub email : Bytes}
    (hp : Plain sub) {i : Nat} {id : SiwaAdminIdentity} (hpin : toPin ids sub email = some (i, id)) :
    Sound (ids.set i id) := by
  obtain ⟨old, ho, hsub, -, rfl⟩ := toPin_spec hpin
  have hold := h.written old (List.mem_of_getElem? ho)
  constructor
  · intro x hx
    rcases List.mem_or_eq_of_mem_set hx with hx | rfl
    · exact h.written x hx
    · exact ⟨hold.1, hp, hold.2.2⟩
  · have hkeep : Keeps ids (ids.set i { old with sub }) := .set ho hsub rfl
    rw [Distinct, hkeep.map_email]
    exact h.distinct

end TrafficMonitor.Siwa
