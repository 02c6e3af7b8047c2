import TrafficMonitor.Basic.Json
import TrafficMonitor.Basic.Utf8
import TrafficMonitor.Server.LogEndpoints

/-!
# The listing of a client's log files

The body of the log-list endpoint against what the file lines of the request say. A file
line is `list <req_id> file <name> <size> <mtime>`; the endpoint writes the name and the
modification time between quotes and the size as it stands.

Proved here, for every request id that the server makes and every connection:

* `fileEntry_of_fileTokens`: the endpoint takes a file line apart as the protocol does;
* `parse_filesText`: with numerals for sizes the listing is a document, and its names are
  those of the lines without the control characters that `jsonEsc` drops;
* `wellFormed_iff`: the listing is the one of the file lines exactly when all lines are in
  order.
-/

namespace TrafficMonitor.LogList

open Bytes Control CtrlChannel Dashboard LogEndpoints
open Json (Value Contents Parses ParsesMembers ParsesElements)

/-- The tokens of a file line of the protocol. -/
def fileTokens (line : Bytes) : Option FileEntry := do
  let (family, line) ← Lines.cut SP line
  let (_, line) ← Lines.cut SP line
  let (kind, line) ← Lines.cut SP line
  let (name, line) ← Lines.cut SP line
  if family = ascii "list" ∧ kind = ascii "file" then
    match Lines.cut SP line with
    | none => some ⟨name, line, []⟩
    | some (size, mtime) => some ⟨name, size, mtime⟩
  else none

/-- The object that stands for a file. -/
def fileValue (e : FileEntry) : Value :=
  .obj [(ascii "name", .str e.name), (ascii "size", .num e.size), (ascii "mtime", .str e.mtime)]

/-- The document that stands for a listing. -/
def document (level : Bytes) (es : List FileEntry) : Value :=
  .obj [(ascii "connected", .bool true), (ascii "file_logging", .bool true),
    (ascii "level", .str level), (ascii "files", .arr (es.map fileValue))]

section

variable (reqId : Bytes) (ch : ClientCtrlChannel) (level : Option LogLevel) (conn : List Bytes)

/-- The answer to a request, after the lines of the connection. -/
def answer : Response :=
  listLogs true level
    ((conn.foldl ClientCtrlChannel.routeLine (ch.registerPending reqId)).pending reqId)

/-- The reply ended in time, and no line of it reports an error. -/
def Lists : Prop :=
  (∃ l ∈ bodiesFor reqId conn, isEnd l = true) ∧ ∀ l ∈ bodiesFor reqId conn, isError l = false

/-- The body is a JSON text, and a listing is the one of the file lines. -/
def WellFormed : Prop :=
  Utf8 (answer reqId ch level conn).body ∧
    ∃ v, Json.parse (answer reqId ch level conn).body = some v ∧
      (Lists reqId conn →
        v = document (levelText level) ((bodiesFor reqId conn).filterMap fileTokens))

end

/-- A control character that `jsonEsc` keeps, or no control character. -/
def kept (c : UInt8) : Bool := 32 ≤ c || c = LF || c = CR || c = TAB

/-- What a string of JSON can hold as `jsonEsc` writes it. -/
def Printable (s : Bytes) : Prop := Utf8 s ∧ ∀ c ∈ s, kept c = true

/-- The size is a numeral, the other tokens are printable. -/
structure EntryOk (e : FileEntry) : Prop where
  name : Printable e.name
  size : Json.isNumber e.size = true
  mtime : Printable e.mtime

/-- A `list` line with the text `" file "` and a blank behind it. -/
def LooksLikeFile (line : Bytes) : Prop :=
  ascii "list " <+: line ∧ ∃ a b, line = a ++ (ascii " file " ++ b) ∧ SP ∈ b

/-- A file line has tokens that are in order, and no other line looks like one. -/
def LineOk (line : Bytes) : Prop :=
  (∀ e, fileTokens line = some e → EntryOk e) ∧ (LooksLikeFile line → fileTokens line ≠ none)

/-! ## Which lines make an object -/

theorem fileEntry_isSome_iff (line : Bytes) : fileEntry line ≠ none ↔ LooksLikeFile line := by
  have hlist : (!(ascii "list ").isPrefixOf line) = false ↔ ascii "list " <+: line := by
    rw [Bool.not_eq_false', List.isPrefixOf_iff_prefix]
  constructor
  · intro h
    unfold fileEntry at h
    split at h
    · exact absurd rfl h
    next hp =>
      rw [Bool.not_eq_true, hlist] at hp
      cases hf : findAfter (ascii " file ") line with
      | none => simp [hf] at h
      | some rest =>
        obtain ⟨a, e⟩ := findAfter_eq_some hf
        refine ⟨hp, a, rest, e, ?_⟩
        by_contra hno
        simp [hf, Lines.cut_eq_none.mpr hno] at h
  · rintro ⟨hp, a, b, rfl, hb⟩
    obtain ⟨t, ht, hsuf⟩ := findAfter_infix (by decide : ascii " file " ≠ []) a b
    cases hc : Lines.cut SP t with
    | none => exact absurd (hsuf.subset hb) (Lines.cut_eq_none.mp hc)
    | some p =>
      rw [fileEntry, if_neg (by simpa using hlist.mpr hp), ht]
      simp only [hc]
      split <;> simp

/-- A file line, written out. -/
theorem fileTokens_eq_some {line : Bytes} {e : FileEntry} (h : fileTokens line = some e) :
    ∃ reqId rest, line = ascii "list" ++ SP :: (reqId ++ SP :: (ascii "file" ++
        SP :: (e.name ++ SP :: rest))) ∧ SP ∉ reqId ∧ SP ∉ e.name ∧
      (match Lines.cut SP rest with
        | none => (⟨e.name, rest, []⟩ : FileEntry)
        | some (size, mtime) => ⟨e.name, size, mtime⟩) = e := by
  simp only [fileTokens, Option.bind_eq_bind, Option.bind_eq_some_iff, Prod.exists] at h
  obtain ⟨family, l₁, h₁, reqId, l₂, h₂, kind, l₃, h₃, name, l₄, h₄, h⟩ := h
  obtain ⟨rfl, -⟩ := Lines.cut_eq_some.mp h₁
  obtain ⟨rfl, hid⟩ := Lines.cut_eq_some.mp h₂
  obtain ⟨rfl, -⟩ := Lines.cut_eq_some.mp h₃
  obtain ⟨rfl, hname⟩ := Lines.cut_eq_some.mp h₄
  split at h
  next hw =>
    obtain ⟨rfl, rfl⟩ := hw
    cases hc : Lines.cut SP l₄ with
    | none =>
      rw [hc] at h
      obtain rfl := Option.some.inj h
      exact ⟨reqId, l₄, rfl, hid, hname, by simp [hc]⟩
    | some p =>
      rw [hc] at h
      obtain rfl := Option.some.inj h
      exact ⟨reqId, l₄, rfl, hid, hname, by simp [hc]⟩
  · cases h

/-- **File lines.** For a request id other than the word `file`, the endpoint takes a file
line apart as the protocol does. -/
theorem fileEntry_of_fileTokens {line reqId : Bytes} {e : FileEntry}
    (hid : replyId line = some reqId) (hne : reqId ≠ ascii "file")
    (h : fileTokens line = some e) : fileEntry line = some e := by
  obtain ⟨reqId', rest, rfl, hr, hname, he⟩ := fileTokens_eq_some h
  have hid' := hid.symm.trans (replyId_append _ (by decide) hr)
  obtain rfl := Option.some.inj hid'
  have hskip : ∀ t, stripPrefix (ascii " file ") (SP :: (reqId ++ SP :: t)) = none := by
    intro t
    have hother := stripPrefix_other_token t (by decide : SP ∉ ascii "file") hr hne
    have e : ascii " file " = SP :: (ascii "file" ++ [SP]) := rfl
    rw [e, stripPrefix_cons_self, hother]
  have hfind : findAfter (ascii " file ") (ascii "list" ++ SP :: (reqId ++ SP :: (ascii "file" ++
      SP :: (e.name ++ SP :: rest)))) = some (e.name ++ SP :: rest) := by
    have hneedle : ascii " file " = SP :: ascii "file " := rfl
    rw [hneedle, findAfter_skip (by decide), ← hneedle, findAfter_cons (hskip _), hneedle,
      findAfter_skip hr]
    exact findAfter_append (ascii " file ") _ (by decide)
  rw [fileEntry, if_neg (by simp [List.isPrefixOf, ascii, SP]), hfind]
  simp only [Lines.cut_append SP e.name rest hname]
  rw [← he]
  cases Lines.cut SP rest <;> rfl

theorem length_filterMap_le {α β : Type*} {f g : α → Option β} {ls : List α}
    (hext : ∀ l ∈ ls, ∀ e, f l = some e → g l = some e) :
    (ls.filterMap f).length ≤ (ls.filterMap g).length := by
  rw [List.length_filterMap_eq_countP, List.length_filterMap_eq_countP]
  refine List.countP_mono_left fun l hl h => ?_
  obtain ⟨e, he⟩ := Option.isSome_iff_exists.mp h
  rw [hext l hl e he]
  rfl

/-- Two readings of which one extends the other agree when they find equally many entries. -/
theorem eq_of_length_filterMap {α β : Type*} {f g : α → Option β} {ls : List α}
    (hext : ∀ l ∈ ls, ∀ e, f l = some e → g l = some e)
    (hlen : (ls.filterMap g).length = (ls.filterMap f).length) : ∀ l ∈ ls, g l = f l := by
  induction ls with
  | nil => simp
  | cons l ls ih =>
    have hext' : ∀ m ∈ ls, ∀ e, f m = some e → g m = some e := fun m hm => hext m (by simp [hm])
    rw [List.forall_mem_cons]
    cases hf : f l with
    | some e =>
      have hg := hext l (by simp) e hf
      rw [List.filterMap_cons_some hf, List.filterMap_cons_some hg, List.length_cons,
        List.length_cons, Nat.succ_inj] at hlen
      exact ⟨hg, ih hext' hlen⟩
    | none =>
      cases hg : g l with
      | none =>
        rw [List.filterMap_cons_none hf, List.filterMap_cons_none hg] at hlen
        exact ⟨rfl, ih hext' hlen⟩
      | some e =>
        have := length_filterMap_le hext'
        rw [List.filterMap_cons_none hf, List.filterMap_cons_some hg, List.length_cons] at hlen
        omega

/-! ## The text of a listing -/

/-- The objects behind the first one. -/
def moreText (es : List FileEntry) : Bytes := es.flatMap fun e => ascii "," ++ entryText e

theorem entriesText_false (lines : List Bytes) :
    entriesText false lines = moreText (lines.filterMap fileEntry) := by
  induction lines with
  | nil => rfl
  | cons line lines ih =>
    rw [entriesText]
    cases h : fileEntry line with
    | none => simpa [List.filterMap_cons_none h] using ih
    | some e => simp [List.filterMap_cons_some h, moreText, ih]

theorem entriesText_true (lines : List Bytes) :
    entriesText true lines = match lines.filterMap fileEntry with
      | [] => []
      | e :: es => entryText e ++ moreText es := by
  induction lines with
  | nil => rfl
  | cons line lines ih =>
    rw [entriesText]
    cases h : fileEntry line with
    | none => simpa [List.filterMap_cons_none h] using ih
    | some e => simp [List.filterMap_cons_some h, entriesText_false]

theorem entryText_append (e : FileEntry) (t : Bytes) :
    entryText e ++ t = ascii "\x7b\"name\":\"" ++ (jsonEsc e.name ++ QUOTE ::
      (ascii ",\"size\":" ++ (jsonEsc e.size ++ (ascii ",\"mtime\":\"" ++ (jsonEsc e.mtime ++
        QUOTE :: (ascii "\x7d" ++ t)))))) := by
  simp only [entryText, List.append_assoc]
  rfl

theorem moreText_cons (e : FileEntry) (es : List FileEntry) (t : Bytes) :
    moreText (e :: es) ++ t = ascii "," ++ (entryText e ++ (moreText es ++ t)) := by
  simp [moreText]

/-! ## Its quotes -/

theorem quotes_jsonEsc (s t : Bytes) : Json.quotes (jsonEsc s ++ t) = Json.quotes t := by
  induction s with
  | nil => rfl
  | cons c s ih =>
    rw [jsonEsc, List.flatMap_cons, List.append_assoc, ← jsonEsc, escByte]
    split
    · exact (Json.quotes_escape _ _).trans ih
    split
    · exact (Json.quotes_escape _ _).trans ih
    split
    · exact (Json.quotes_escape _ _).trans ih
    split
    · exact (Json.quotes_escape _ _).trans ih
    split
    · exact (Json.quotes_escape _ _).trans ih
    split
    · exact ih
    next hq hb _ _ _ _ => exact (Json.quotes_cons hq hb _).trans ih

theorem quotes_entryText (e : FileEntry) (t : Bytes) :
    Json.quotes (entryText e ++ t) = 10 + Json.quotes t := by
  rw [entryText_append, Json.quotes_append (by decide), quotes_jsonEsc,
    Json.quotes_quote, Json.quotes_append (by decide), quotes_jsonEsc,
    Json.quotes_append (by decide), quotes_jsonEsc, Json.quotes_quote, Json.quotes_append (by decide)]
  have h₁ : (ascii "\x7b\"name\":\"").count QUOTE = 3 := by decide
  have h₂ : (ascii ",\"size\":").count QUOTE = 2 := by decide
  have h₃ : (ascii ",\"mtime\":\"").count QUOTE = 3 := by decide
  have h₄ : (ascii "\x7d").count QUOTE = 0 := by decide
  omega

theorem quotes_moreText (es : List FileEntry) (t : Bytes) :
    Json.quotes (moreText es ++ t) = 10 * es.length + Json.quotes t := by
  induction es with
  | nil => simp [moreText]
  | cons e es ih =>
    rw [moreText_cons, Json.quotes_plain (by decide) (by decide), quotes_entryText, ih,
      List.length_cons]
    omega

/-- Ten quotes for an object, and ten for the document around them. -/
theorem quotes_filesText (level : Bytes) (lines : List Bytes) :
    Json.quotes (filesText level lines) = 10 + 10 * (lines.filterMap fileEntry).length := by
  have hentries : ∀ t, Json.quotes (entriesText true lines ++ t) =
      10 * (lines.filterMap fileEntry).length + Json.quotes t := by
    intro t
    rw [entriesText_true]
    cases lines.filterMap fileEntry with
    | nil => simp
    | cons e es =>
      simp only
      rw [List.append_assoc, quotes_entryText, quotes_moreText, List.length_cons]
      omega
  rw [filesText, List.append_assoc, List.append_assoc, List.append_assoc,
    Json.quotes_append (by decide), quotes_jsonEsc, Json.quotes_append (by decide), hentries]
  have h₁ : (ascii "\x7b\"connected\":true,\"file_logging\":true,\"level\":\"").count QUOTE =
      7 := by decide
  have h₂ : (ascii "\",\"files\":[").count QUOTE = 3 := by decide
  have h₃ : Json.quotes (ascii "]\x7d\n") = 0 := by decide
  omega

theorem strings_document (level : Bytes) (es : List FileEntry) :
    Json.strings (document level es) = 5 + 5 * es.length := by
  have h : Json.stringsAll (es.map fileValue) = 5 * es.length := by
    induction es with
    | nil => rfl
    | cons e es ih =>
      simp only [List.map_cons, Json.stringsAll, ih, List.length_cons]
      simp only [fileValue, Json.strings, Json.stringsMembers]
      omega
  simp only [document, Json.strings, Json.stringsMembers, h]
  omega

theorem mem_numbers_document (level : Bytes) {es : List FileEntry} {e : FileEntry} (he : e ∈ es) :
    e.size ∈ Json.numbers (document level es) := by
  have h : e.size ∈ Json.numbersAll (es.map fileValue) := by
    induction es with
    | nil => cases he
    | cons d es ih =>
      rw [List.map_cons, Json.numbersAll, List.mem_append]
      rcases List.mem_cons.mp he with rfl | he
      · exact .inl (by simp [fileValue, Json.numbers, Json.numbersMembers])
      · exact .inr (ih he)
  simpa [document, Json.numbers, Json.numbersMembers] using h

/-! ## What is parsed -/

theorem contents_jsonEsc (s : Bytes) : Contents (jsonEsc s) (s.filter kept) := by
  intro rest
  induction s with
  | nil => exact Json.string_quote rest
  | cons c s ih =>
    rw [jsonEsc, List.flatMap_cons, List.append_assoc, ← jsonEsc, escByte]
    have hesc : ∀ x y, Json.escaped x = some y → x ≠ 117 → kept y = true →
        Json.string ([BACKSLASH, x] ++ (jsonEsc s ++ QUOTE :: rest)) =
          some ((y :: s).filter kept, rest) := by
      intro x y hx hu hy
      rw [List.filter_cons_of_pos hy, List.cons_append, List.singleton_append, Json.string.eq_def]
      simp [hx, hu, ih, show BACKSLASH ≠ QUOTE by decide]
    split
    next h => exact h ▸ hesc QUOTE QUOTE rfl (by decide) rfl
    split
    next h => exact h ▸ hesc BACKSLASH BACKSLASH rfl (by decide) rfl
    split
    next h => exact h ▸ hesc 110 LF rfl (by decide) rfl
    split
    next h => exact h ▸ hesc 114 CR rfl (by decide) rfl
    split
    next h => exact h ▸ hesc 116 TAB rfl (by decide) rfl
    next hq hb hlf hcr htab =>
    split
    next h =>
      rw [List.filter_cons_of_neg (by simpa [kept, hlf, hcr, htab] using h)]
      exact ih
    next h =>
      have hk : kept c = true := by simpa [kept, hlf, hcr, htab] using h
      rw [List.filter_cons_of_pos hk, List.singleton_append, Json.string.eq_def]
      simp [ih, h, hq, hb]

/-- A text that `jsonEsc` leaves alone. -/
theorem jsonEsc_eq_self {s : Bytes} (h : ∀ c ∈ s, escByte c = [c]) : jsonEsc s = s := by
  rw [jsonEsc, List.flatMap_congr h, List.flatMap_singleton']

theorem escByte_of_isNumChar {c : UInt8} (h : Json.isNumChar c = true) : escByte c = [c] := by
  have hne : ∀ d, Json.isNumChar d = false → c ≠ d := by
    rintro d hd rfl
    exact Bool.false_ne_true (hd.symm.trans h)
  have hlt : ¬ c < 32 := by
    have : ∀ d < 32, Json.isNumChar (UInt8.ofNat d) = false := by decide
    intro hc
    have := this c.toNat (by simpa [UInt8.lt_iff_toNat_lt] using hc)
    rw [UInt8.ofNat_toNat, h] at this
    cases this
  rw [escByte, if_neg (hne _ (by decide)), if_neg (hne _ (by decide)), if_neg (hne _ (by decide)),
    if_neg (hne _ (by decide)), if_neg (hne _ (by decide)), if_neg hlt]

theorem jsonEsc_of_isNumber {s : Bytes} (h : Json.isNumber s = true) : jsonEsc s = s :=
  jsonEsc_eq_self fun c hc => escByte_of_isNumChar ((Json.isNumber_spec h).2 c hc)

/-- The tokens without the control characters that `jsonEsc` drops. -/
def plain (e : FileEntry) : FileEntry where
  name := e.name.filter kept
  size := e.size
  mtime := e.mtime.filter kept

theorem parses_quoted (s : Bytes) :
    Parses (QUOTE :: (jsonEsc s ++ [QUOTE])) (.str (s.filter kept)) :=
  Json.parses_str (contents_jsonEsc s)

theorem contents_key {s : Bytes} (h : ∀ c ∈ s, escByte c = [c] ∧ kept c = true) : Contents s s := by
  have hc := contents_jsonEsc s
  rw [jsonEsc_eq_self fun c hc => (h c hc).1, List.filter_eq_self.mpr fun c hc => (h c hc).2] at hc
  exact hc

theorem parses_entryText {e : FileEntry} (h : Json.isNumber e.size = true) :
    Parses (entryText e) (fileValue (plain e)) := by
  have hmtime := Json.parsesMembers_one (contents_key (s := ascii "mtime") (by decide))
    (parses_quoted e.mtime)
  have hsize := Json.parsesMembers_cons (contents_key (s := ascii "size") (by decide))
    (Json.parses_num h) hmtime
  have hname := Json.parsesMembers_cons (contents_key (s := ascii "name") (by decide))
    (parses_quoted e.name) hsize
  convert Json.parses_obj hname using 1
  · rw [entryText, jsonEsc_of_isNumber h]
    simp only [List.append_assoc, List.cons_append, List.nil_append]
    rfl
  · rfl

theorem parsesElements_entries {e : FileEntry} {es : List FileEntry}
    (h : ∀ f ∈ e :: es, Json.isNumber f.size = true) :
    ParsesElements (entryText e ++ (moreText es ++ [RBRACKET]))
      ((e :: es).map fun f => fileValue (plain f)) := by
  induction es generalizing e with
  | nil => exact Json.parsesElements_one (parses_entryText (h e (by simp)))
  | cons f es ih =>
    rw [moreText_cons]
    exact Json.parsesElements_cons (parses_entryText (h e (by simp)))
      (ih fun g hg => h g (List.mem_cons_of_mem e hg))

/-- **What a listing says**, when the sizes are numerals. -/
theorem parse_filesText (level : LogLevel) {lines : List Bytes}
    (h : ∀ e ∈ lines.filterMap fileEntry, Json.isNumber e.size = true) :
    Json.parse (filesText level.text lines) =
      some (document level.text ((lines.filterMap fileEntry).map plain)) := by
  have hfiles : Parses (LBRACKET :: (entriesText true lines ++ [RBRACKET]))
      (.arr (((lines.filterMap fileEntry).map plain).map fileValue)) := by
    rw [entriesText_true, List.map_map]
    cases hes : lines.filterMap fileEntry with
    | nil => exact Json.parses_arr_nil
    | cons e es =>
      simp only
      rw [List.append_assoc]
      exact Json.parses_arr (parsesElements_entries (hes ▸ h))
  have hlevel : Contents (jsonEsc level.text) level.text := by
    have := contents_jsonEsc level.text
    cases level <;> exact this
  have h₁ := Json.parsesMembers_one (contents_key (s := ascii "files") (by decide)) hfiles
  have h₂ := Json.parsesMembers_cons (contents_key (s := ascii "level") (by decide))
    (Json.parses_str hlevel) h₁
  have h₃ := Json.parsesMembers_cons (contents_key (s := ascii "file_logging") (by decide))
    Json.parses_true h₂
  have h₄ := Json.parsesMembers_cons (contents_key (s := ascii "connected") (by decide))
    Json.parses_true h₃
  have h := Json.parse_of_parses (Json.parses_obj h₄)
  rw [← document] at h
  rw [← h, filesText]
  simp only [List.append_assoc, List.cons_append, List.nil_append]
  rfl

/-! ## Its encoding -/

/-- Escaping keeps a text in UTF-8 or out of it, when nothing is dropped. -/
theorem utf8_jsonEsc {s : Bytes} (hs : ∀ c ∈ s, kept c = true) (a t : Bytes) :
    Utf8 (a ++ (jsonEsc s ++ t)) ↔ Utf8 (a ++ (s ++ t)) := by
  induction s generalizing a with
  | nil => rfl
  | cons c s ih =>
    have ih := ih fun d hd => hs d (by simp [hd])
    rw [jsonEsc, List.flatMap_cons, List.append_assoc, ← jsonEsc]
    have hesc : ∀ x y : UInt8, x < 128 → y < 128 →
        (Utf8 (a ++ ([BACKSLASH, x] ++ (jsonEsc s ++ t))) ↔ Utf8 (a ++ (y :: s ++ t))) := by
      intro x y hx hy
      have hrest := ih []
      rw [List.nil_append, List.nil_append] at hrest
      rw [utf8_append_ascii (by simp [hx]; decide) (by simp), List.cons_append, utf8_split hy,
        hrest]
    rw [escByte]
    split
    next h => exact h ▸ hesc QUOTE QUOTE (by decide) (by decide)
    split
    next h => exact h ▸ hesc BACKSLASH BACKSLASH (by decide) (by decide)
    split
    next h => exact h ▸ hesc 110 LF (by decide) (by decide)
    split
    next h => exact h ▸ hesc 114 CR (by decide) (by decide)
    split
    next h => exact h ▸ hesc 116 TAB (by decide) (by decide)
    next hlf hcr htab =>
    split
    next h => exact absurd (hs c (by simp)) (by simpa [kept, hlf, hcr, htab] using h)
    · have := ih (a ++ [c])
      simpa using this

theorem utf8_quoted {s : Bytes} (hs : ∀ c ∈ s, kept c = true) (t : Bytes) :
    Utf8 (jsonEsc s ++ QUOTE :: t) ↔ Utf8 s ∧ Utf8 t := by
  have h := utf8_jsonEsc hs [] (QUOTE :: t)
  rw [List.nil_append, List.nil_append] at h
  rw [h, utf8_split (by decide)]

theorem lt_of_isNumChar {c : UInt8} (h : Json.isNumChar c = true) : c < 128 := by
  have hdigit : isDigit c = true → c < 128 := by
    simp only [isDigit, Bool.and_eq_true, decide_eq_true_eq]
    exact fun hd => UInt8.lt_of_le_of_lt hd.2 (by decide)
  simp only [Json.isNumChar, Bool.or_eq_true, decide_eq_true_eq] at h
  rcases h with ((((h | rfl) | rfl) | rfl) | rfl) | rfl
  · exact hdigit h
  all_goals decide

theorem utf8_entryText {e : FileEntry} (hsize : Json.isNumber e.size = true)
    (hname : ∀ c ∈ e.name, kept c = true) (hmtime : ∀ c ∈ e.mtime, kept c = true) (t : Bytes) :
    Utf8 (entryText e ++ t) ↔ (Utf8 e.name ∧ Utf8 e.mtime) ∧ Utf8 t := by
  have hnum : ∀ c ∈ e.size, c < 128 := fun c hc =>
    lt_of_isNumChar ((Json.isNumber_spec hsize).2 c hc)
  rw [entryText_append, jsonEsc_of_isNumber hsize, utf8_ascii_append (by decide), utf8_quoted hname,
    utf8_ascii_append (by decide), utf8_ascii_append hnum, utf8_ascii_append (by decide),
    utf8_quoted hmtime, utf8_ascii_append (by decide), and_assoc]

theorem utf8_moreText {es : List FileEntry}
    (h : ∀ e ∈ es, Json.isNumber e.size = true ∧ (∀ c ∈ e.name, kept c = true) ∧
      ∀ c ∈ e.mtime, kept c = true) (t : Bytes) :
    Utf8 (moreText es ++ t) ↔ (∀ e ∈ es, Utf8 e.name ∧ Utf8 e.mtime) ∧ Utf8 t := by
  induction es with
  | nil => simp [moreText]
  | cons e es ih =>
    obtain ⟨hsize, hname, hmtime⟩ := h e (by simp)
    rw [moreText_cons, utf8_ascii_append (by decide), utf8_entryText hsize hname hmtime,
      ih fun f hf => h f (by simp [hf]), List.forall_mem_cons]
    exact and_assoc.symm

theorem utf8_filesText (level : LogLevel) {lines : List Bytes}
    (h : ∀ e ∈ lines.filterMap fileEntry, Json.isNumber e.size = true ∧
      (∀ c ∈ e.name, kept c = true) ∧ ∀ c ∈ e.mtime, kept c = true) :
    Utf8 (filesText level.text lines) ↔
      ∀ e ∈ lines.filterMap fileEntry, Utf8 e.name ∧ Utf8 e.mtime := by
  have hend : Utf8 (ascii "]\x7d\n") := utf8_of_ascii (by decide)
  have hentries : Utf8 (entriesText true lines ++ ascii "]\x7d\n") ↔
      ∀ e ∈ lines.filterMap fileEntry, Utf8 e.name ∧ Utf8 e.mtime := by
    rw [entriesText_true]
    cases hes : lines.filterMap fileEntry with
    | nil => simpa using hend
    | cons e es =>
      rw [hes] at h
      obtain ⟨hsize, hname, hmtime⟩ := h e (by simp)
      simp only
      rw [List.append_assoc, utf8_entryText hsize hname hmtime,
        utf8_moreText fun f hf => h f (by simp [hf]), List.forall_mem_cons]
      exact and_congr_right fun _ => and_iff_left hend
  have hlevel : ∀ c ∈ jsonEsc level.text, c < 128 := by
    cases level <;> decide
  rw [filesText, List.append_assoc, List.append_assoc, List.append_assoc,
    utf8_ascii_append (by decide), utf8_ascii_append hlevel, utf8_ascii_append (by decide),
    hentries]

/-! ## The listing -/

/-- The listing of some lines is the one of their file lines. -/
def ListingOk (level : LogLevel) (lines : List Bytes) : Prop :=
  Utf8 (filesText level.text lines) ∧
    Json.parse (filesText level.text lines) =
      some (document level.text (lines.filterMap fileTokens))

theorem document_inj {level : Bytes} {es fs : List FileEntry}
    (h : document level es = document level fs) : es = fs := by
  have hinj : Function.Injective fileValue := by
    intro e f he
    simp only [fileValue, Value.obj.injEq, List.cons.injEq, Prod.mk.injEq, Value.str.injEq,
      Value.num.injEq, true_and, and_true] at he
    obtain ⟨hn, hs, hm⟩ := he
    cases e
    cases f
    simp_all
  simp only [document, Value.obj.injEq, List.cons.injEq, Prod.mk.injEq, Value.arr.injEq, true_and,
    and_true] at h
  exact hinj.list_map h

/-- Lines that the endpoint reads as the protocol does. -/
theorem listingOk_of_eq (level : LogLevel) {lines : List Bytes}
    (heq : ∀ l ∈ lines, fileEntry l = fileTokens l) :
    ListingOk level lines ↔ ∀ e ∈ lines.filterMap fileTokens, EntryOk e := by
  have hmap : lines.filterMap fileEntry = lines.filterMap fileTokens := List.filterMap_congr heq
  constructor
  · rintro ⟨hutf, hparse⟩
    have hsize : ∀ e ∈ lines.filterMap fileTokens, Json.isNumber e.size = true := fun e he =>
      (Json.parse_sound hparse).2 _ (mem_numbers_document _ he)
    rw [parse_filesText level (hmap ▸ hsize), hmap] at hparse
    have hplain : ∀ e ∈ lines.filterMap fileTokens, plain e = e := by
      have h := document_inj (Option.some.inj hparse)
      rw [← List.map_id (lines.filterMap fileTokens), List.map_map] at h
      exact List.map_inj_left.mp h
    have hkept : ∀ e ∈ lines.filterMap fileTokens,
        (∀ c ∈ e.name, kept c = true) ∧ ∀ c ∈ e.mtime, kept c = true := by
      intro e he
      have h := FileEntry.mk.inj (hplain e he)
      exact ⟨List.filter_eq_self.mp h.1, List.filter_eq_self.mp h.2.2⟩
    rw [utf8_filesText level (hmap ▸ fun e he => ⟨hsize e he, hkept e he⟩), hmap] at hutf
    intro e he
    exact ⟨⟨(hutf e he).1, (hkept e he).1⟩, hsize e he, (hutf e he).2, (hkept e he).2⟩
  · intro hok
    rw [← hmap] at hok
    refine ⟨?_, ?_⟩
    · rw [utf8_filesText level fun e he => ⟨(hok e he).size, (hok e he).name.2, (hok e he).mtime.2⟩]
      exact fun e he => ⟨(hok e he).name.1, (hok e he).mtime.1⟩
    · have hplain : (lines.filterMap fileEntry).map plain = lines.filterMap fileEntry := by
        refine (List.map_congr_left fun e he => ?_).trans (List.map_id _)
        rw [plain, List.filter_eq_self.mpr (hok e he).name.2,
          List.filter_eq_self.mpr (hok e he).mtime.2]
        rfl
      rw [parse_filesText level fun e he => (hok e he).size, hplain, hmap]

/-- **Listings.** For lines of one request, whose id is not the word `file`. -/
theorem listingOk_iff (level : LogLevel) {lines : List Bytes} {reqId : Bytes}
    (hid : ∀ l ∈ lines, replyId l = some reqId) (hne : reqId ≠ ascii "file") :
    ListingOk level lines ↔ ∀ l ∈ lines, LineOk l := by
  have hext : ∀ l ∈ lines, ∀ e, fileTokens l = some e → fileEntry l = some e := fun l hl _ h =>
    fileEntry_of_fileTokens (hid l hl) hne h
  constructor
  · intro hok
    -- there are as many objects as strings of the document, so no line adds one
    have heq : ∀ l ∈ lines, fileEntry l = fileTokens l := by
      have hquotes := (Json.parse_sound hok.2).1
      rw [quotes_filesText, strings_document] at hquotes
      exact eq_of_length_filterMap hext (by omega)
    have hentry := (listingOk_of_eq level heq).mp hok
    intro l hl
    refine ⟨fun e he => hentry e (List.mem_filterMap.mpr ⟨l, hl, he⟩), fun hlook => ?_⟩
    rw [← heq l hl]
    exact (fileEntry_isSome_iff l).mpr hlook
  · intro hok
    have heq : ∀ l ∈ lines, fileEntry l = fileTokens l := by
      intro l hl
      cases h : fileTokens l with
      | some e => exact hext l hl e h
      | none =>
        by_contra hsome
        exact (hok l hl).2 ((fileEntry_isSome_iff l).mp hsome) h
    refine (listingOk_of_eq level heq).mpr fun e he => ?_
    obtain ⟨l, hl, h⟩ := List.mem_filterMap.mp he
    exact (hok l hl).1 e h

/-! ## The endpoint -/

theorem body_of_lists {reqId : Bytes} {conn : List Bytes} (h : Lists reqId conn)
    (ch : ClientCtrlChannel) (level : Option LogLevel) :
    (answer reqId ch level conn).body = filesText (levelText level) (bodiesFor reqId conn) := by
  have hdone : (bodiesFor reqId conn).any isEnd = true := by
    simpa [List.any_eq_true] using h.1
  have herr : (bodiesFor reqId conn).any isError = false := by
    simpa [List.any_eq_false] using h.2
  rw [answer, collected, hdone, herr]
  rfl

/-- The texts of the endpoint's other answers. -/
theorem body_of_not_lists {reqId : Bytes} {conn : List Bytes} (h : ¬Lists reqId conn)
    (ch : ClientCtrlChannel) (level : Option LogLevel) :
    (answer reqId ch level conn).body ∈
      [ascii "\x7b\"error\":\"client did not respond (timeout)\"\x7d\n",
        ascii "\x7b\"connected\":true,\"file_logging\":false,\"level\":null,\"files\":[]\x7d\n",
        ascii "\x7b\"error\":\"client reported error\"\x7d\n"] := by
  rw [answer, collected]
  cases hdone : (bodiesFor reqId conn).any isEnd with
  | false => exact .head _
  | true =>
    cases herr : (bodiesFor reqId conn).any isError with
    | false =>
      refine absurd ⟨?_, ?_⟩ h
      · simpa [List.any_eq_true] using hdone
      · simpa [List.any_eq_false] using herr
    | true =>
      simp only [listLogs, Option.filter_some, Bool.not_true, Bool.false_eq_true, if_false, if_true]
      split
      · exact .tail _ (.head _)
      · exact .tail _ (.tail _ (.head _))

/-- **The log list.** For every request id that the server makes. -/
theorem wellFormed_iff (buf : Bytes) (h : buf.length = 8) (ch : ClientCtrlChannel)
    (level : Option LogLevel) (conn : List Bytes) :
    WellFormed (generateReqId buf h).text ch level conn ↔
      (Lists (generateReqId buf h).text conn →
        ∀ l ∈ bodiesFor (generateReqId buf h).text conn, LineOk l) := by
  have hne : (generateReqId buf h).text ≠ ascii "file" := by
    intro e
    exact absurd (isHexDigit_of_mem_hex (e ▸ (by decide : 105 ∈ ascii "file"))) (by decide)
  have hid : ∀ l ∈ bodiesFor (generateReqId buf h).text conn,
      replyId l = some (generateReqId buf h).text := by
    intro l hl
    have hroute := (List.mem_filter.mp hl).2
    simp only [Bool.and_eq_true, decide_eq_true_eq] at hroute
    exact hroute.2
  by_cases hlists : Lists (generateReqId buf h).text conn
  · rw [WellFormed, body_of_lists hlists, imp_iff_right hlists,
      ← listingOk_iff (level.getD .Info) hid hne]
    exact and_congr_right fun _ =>
      ⟨fun ⟨_, hv, heq⟩ => heq hlists ▸ hv, fun hv => ⟨_, hv, fun _ => rfl⟩⟩
  · refine iff_of_true ?_ fun h => absurd h hlists
    have hbody := body_of_not_lists hlists ch level
    simp only [List.mem_cons, List.not_mem_nil, or_false] at hbody
    have hparse : ∀ {b : Bytes}, (Json.parse b).isSome = true →
        ∃ v, Json.parse b = some v ∧ (Lists (generateReqId buf h).text conn →
          v = document (levelText level) ((bodiesFor (generateReqId buf h).text conn).filterMap
            fileTokens)) := by
      intro b hb
      obtain ⟨v, hv⟩ := Option.isSome_iff_exists.mp hb
      exact ⟨v, hv, fun h => absurd h hlists⟩
    rcases hbody with e | e | e <;> rw [WellFormed, e] <;>
      exact ⟨utf8_of_ascii (by decide), hparse (by decide +kernel)⟩

/-- A listing of one file. -/
theorem wellFormed_one_file :
    WellFormed (generateReqId [1, 2, 3, 4, 5, 6, 7, 8] rfl).text {} none
      [ascii "L list 0102030405060708 begin 1",
        ascii "L list 0102030405060708 file ntm-client-a.log 512 2024-05-01",
        ascii "L list 0102030405060708 end"] := by
  refine (wellFormed_iff [1, 2, 3, 4, 5, 6, 7, 8] rfl {} none _).mpr fun _ => ?_
  have hbodies : bodiesFor (generateReqId [1, 2, 3, 4, 5, 6, 7, 8] rfl).text
      [ascii "L list 0102030405060708 begin 1",
        ascii "L list 0102030405060708 file ntm-client-a.log 512 2024-05-01",
        ascii "L list 0102030405060708 end"] =
      [ascii "list 0102030405060708 begin 1",
        ascii "list 0102030405060708 file ntm-client-a.log 512 2024-05-01",
        ascii "list 0102030405060708 end"] := by
    iterate 6 rw [ascii_ofList]
    decide +kernel
  have hfile : fileTokens (ascii "list 0102030405060708 file ntm-client-a.log 512 2024-05-01") =
      some ⟨ascii "ntm-client-a.log", ascii "512", ascii "2024-05-01"⟩ := by
    iterate 4 rw [ascii_ofList]
    decide +kernel
  have hother : ∀ l, fileTokens l = none → fileEntry l = none → LineOk l := fun l hno hnone =>
    ⟨fun e he => absurd (hno.symm.trans he) (by simp),
      fun hlook => absurd hnone ((fileEntry_isSome_iff l).mpr hlook)⟩
  rw [hbodies]
  intro l hl
  simp only [List.mem_cons, List.not_mem_nil, or_false] at hl
  rcases hl with rfl | rfl | rfl
  · exact hother _ (by decide +kernel) (by decide +kernel)
  · refine ⟨fun e he => ?_, fun _ => by simp [hfile]⟩
    obtain rfl := Option.some.inj (hfile.symm.trans he)
    exact ⟨⟨utf8_of_ascii (by decide), by decide⟩, by decide +kernel, utf8_of_ascii (by decide),
      by decide⟩
  · exact hother _ (by decide +kernel) (by decide +kernel)

/-- A size that is no numeral breaks the document. -/
theorem size_breaks_document :
    ¬WellFormed (generateReqId [1, 2, 3, 4, 5, 6, 7, 8] rfl).text {} none
      [ascii "L list 0102030405060708 begin 1",
        ascii "L list 0102030405060708 file ntm-client-a.log 512]\x7d, 2024-05-01",
        ascii "L list 0102030405060708 end"] := by
  rintro ⟨-, v, hv, -⟩
  have hnone : (Json.parse (answer (generateReqId [1, 2, 3, 4, 5, 6, 7, 8] rfl).text {} none
      [ascii "L list 0102030405060708 begin 1",
        ascii "L list 0102030405060708 file ntm-client-a.log 512]\x7d, 2024-05-01",
        ascii "L list 0102030405060708 end"]).body).isNone = true := by
    iterate 3 rw [ascii_ofList]
    decide +kernel
  rw [hv] at hnone
  cases hnone

end TrafficMonitor.LogList
