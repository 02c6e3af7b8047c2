import TrafficMonitor.Server.CredentialStore
import TrafficMonitor.Server.LogList

/-!
# Fields of flat JSON objects

The dashboard writes strings with `jsonEsc` and reads them with `jsonGetString`, which searches
the text of an object for the quoted key. A `Field` carries the proofs that its key is an
identifier, that only blanks stand around its colon, and that `jsonEsc` drops nothing of its
value.

Proved here:

* `endpointString_jsonEsc`: an escaped value is read back;
* `search_value`, `search_other`: the search passes over a value and over a field of another key,
  whatever the value looks like;
* `jsonGetString_render`: every field of an object is found.
-/

namespace TrafficMonitor.JsonFields

open Bytes LogEndpoints LogList WebAuthn

/-! ## Objects -/

/-- The characters of identifiers. -/
def isWordChar (c : UInt8) : Bool := isAlnum c || c = 95

/-- The blanks that `jsonGetString` skips. -/
def isBlank (b : UInt8) : Bool := b = SP || b = TAB || b = CR || b = LF

structure Field where
  key : Bytes
  value : Bytes
  before : Bytes := []
  after : Bytes := []
  key_ne_nil : key ≠ []
  key_word : ∀ c ∈ key, isWordChar c = true
  before_blank : ∀ c ∈ before, isBlank c = true
  after_blank : ∀ c ∈ after, isBlank c = true
  value_kept : ∀ c ∈ value, kept c = true

namespace Field

def text (f : Field) : Bytes :=
  QUOTE :: (f.key ++ QUOTE :: (f.before ++ COLON :: (f.after ++ QUOTE :: (jsonEsc f.value ++ [QUOTE]))))

end Field

def renderRest : List Field → Bytes
  | [] => [RBRACE]
  | f :: fs => COMMA :: (f.text ++ renderRest fs)

def render : List Field → Bytes
  | [] => [LBRACE, RBRACE]
  | f :: fs => LBRACE :: (f.text ++ renderRest fs)

/-! ## Escaped values -/

theorem escByte_cases (c : UInt8) :
    escByte c = [] ∨ (escByte c = [c] ∧ c ≠ QUOTE ∧ c ≠ BACKSLASH) ∨ ∃ x, escByte c = [BACKSLASH, x] := by
  unfold escByte
  by_cases hq : c = QUOTE
  · exact .inr (.inr ⟨QUOTE, by rw [if_pos hq]⟩)
  by_cases hb : c = BACKSLASH
  · exact .inr (.inr ⟨BACKSLASH, by rw [if_neg hq, if_pos hb]⟩)
  rw [if_neg hq, if_neg hb]
  split
  · exact .inr (.inr ⟨_, rfl⟩)
  split
  · exact .inr (.inr ⟨_, rfl⟩)
  split
  · exact .inr (.inr ⟨_, rfl⟩)
  split
  · exact .inl rfl
  · exact .inr (.inl ⟨rfl, hq, hb⟩)

theorem jsonEsc_cons (c : UInt8) (s t : Bytes) :
    jsonEsc (c :: s) ++ t = escByte c ++ (jsonEsc s ++ t) := by
  simp [jsonEsc]

theorem endpointString_quote (t : Bytes) :
    jsonGetStringFrom.endpointString (QUOTE :: t) = some [] := by
  rw [jsonGetStringFrom.endpointString.eq_def]
  exact if_pos rfl

theorem endpointString_escape (e : UInt8) (t : Bytes) :
    jsonGetStringFrom.endpointString (BACKSLASH :: e :: t) =
      (jsonGetStringFrom.endpointString t).map
        ((if e = 110 then LF else if e = 114 then CR else if e = 116 then TAB else e) :: ·) := by
  rw [jsonGetStringFrom.endpointString.eq_def]
  exact (if_neg (by decide)).trans (if_pos rfl)

theorem endpointString_cons {c : UInt8} (hq : c ≠ QUOTE) (hb : c ≠ BACKSLASH) (t : Bytes) :
    jsonGetStringFrom.endpointString (c :: t) =
      (jsonGetStringFrom.endpointString t).map (c :: ·) := by
  rw [jsonGetStringFrom.endpointString.eq_def]
  exact (if_neg hq).trans (if_neg hb)

/-- **Values.** What `jsonEsc` writes is read back up to the closing quote. -/
theorem endpointString_jsonEsc {v : Bytes} (h : ∀ c ∈ v, kept c = true) (t : Bytes) :
    jsonGetStringFrom.endpointString (jsonEsc v ++ QUOTE :: t) = some v := by
  induction v with
  | nil => exact endpointString_quote t
  | cons c v ih =>
    have ihv := ih fun d hd => h d (by simp [hd])
    have hk := h c (by simp)
    have hesc : ∀ e, (if e = 110 then LF else if e = 114 then CR else if e = 116 then TAB else e) = c →
        jsonGetStringFrom.endpointString ([BACKSLASH, e] ++ (jsonEsc v ++ QUOTE :: t)) =
          some (c :: v) := by
      intro e he
      rw [List.cons_append, List.singleton_append, endpointString_escape, ihv, he, Option.map_some]
    rw [jsonEsc_cons]
    unfold escByte
    split
    next hc => exact hesc QUOTE (hc.symm ▸ rfl)
    split
    next hc => exact hesc BACKSLASH (hc.symm ▸ rfl)
    split
    next hc => exact hesc 110 (hc.symm ▸ rfl)
    split
    next hc => exact hesc 114 (hc.symm ▸ rfl)
    split
    next hc => exact hesc 116 (hc.symm ▸ rfl)
    next hq hb hlf hcr htab =>
    have hprint : ¬ c < 32 := by simpa [kept, hlf, hcr, htab] using hk
    rw [if_neg hprint, List.singleton_append, endpointString_cons hq hb, ihv, Option.map_some]

/-! ## The search -/

/-- What is searched for. -/
def needle (key : Bytes) : Bytes := QUOTE :: (key ++ [QUOTE])

variable {key : Bytes}

theorem search_skip (n a t : Bytes) :
    jsonGetStringFrom n a.length (a ++ t) = jsonGetStringFrom n 0 t := by
  induction a with
  | nil => rfl
  | cons c a ih =>
    rw [List.length_cons, List.cons_append, jsonGetStringFrom.eq_2]
    exact ih

/-- The search goes on behind a byte at which the key does not stand. -/
theorem search_cons {c : UInt8} {s : Bytes} (h : stripPrefix (needle key) (c :: s) = none) :
    jsonGetStringFrom (needle key) 0 (c :: s) = jsonGetStringFrom (needle key) 0 s := by
  rw [jsonGetStringFrom.eq_3, h]

theorem search_of_not_mem {a : Bytes} (h : QUOTE ∉ a) (t : Bytes) :
    jsonGetStringFrom (needle key) 0 (a ++ t) = jsonGetStringFrom (needle key) 0 t := by
  induction a with
  | nil => rfl
  | cons c a ih =>
    rw [List.mem_cons, not_or] at h
    rw [List.cons_append, search_cons (stripPrefix_head h.1 _ _)]
    exact ih h.2

/-- At a quote, the key stands behind it or the search goes on. -/
theorem search_quote {s : Bytes} (h : stripPrefix (key ++ [QUOTE]) s = none) :
    jsonGetStringFrom (needle key) 0 (QUOTE :: s) = jsonGetStringFrom (needle key) 0 s :=
  search_cons (by rw [needle, stripPrefix_cons_self, h])

/-- `isBlank` as `jsonGetString` writes it. -/
theorem isBlank_eq : isBlank = fun b =>
    decide (b = SP) || decide (b = TAB) || decide (b = CR) || decide (b = LF) := rfl

/-- A key that stands where no colon follows is passed over. -/
theorem search_false_match {c : UInt8} (hcolon : c ≠ COLON) (hblank : isBlank c = false) (t : Bytes) :
    jsonGetStringFrom (needle key) 0 (QUOTE :: (key ++ QUOTE :: c :: t)) =
      jsonGetStringFrom (needle key) 0 (c :: t) := by
  have hstrip : stripPrefix (needle key) (QUOTE :: (key ++ QUOTE :: c :: t)) = some (c :: t) := by
    rw [stripPrefix_eq_some]
    simp [needle]
  have hskip := search_skip (needle key) (key ++ [QUOTE]) (c :: t)
  have hlen : (key ++ [QUOTE]).length = (needle key).length - 1 := by simp [needle]
  rw [jsonGetStringFrom.eq_3, hstrip]
  rw [isBlank_eq] at hblank
  simp only [List.takeWhile_cons, hblank, Bool.false_eq_true, if_false, List.length_nil,
    List.drop_zero, ne_eq, hcolon, not_false_eq_true, if_true, Nat.add_zero]
  rw [← hskip, hlen]
  simp

/-- A key with its colon and the quote of a value behind it. -/
theorem search_match {before after s : Bytes} (hb : ∀ c ∈ before, isBlank c = true)
    (ha : ∀ c ∈ after, isBlank c = true) :
    jsonGetStringFrom (needle key) 0
        (QUOTE :: (key ++ QUOTE :: (before ++ COLON :: (after ++ QUOTE :: s)))) =
      (jsonGetStringFrom.endpointString s).getD [] := by
  have hstrip : stripPrefix (needle key)
      (QUOTE :: (key ++ QUOTE :: (before ++ COLON :: (after ++ QUOTE :: s)))) =
        some (before ++ COLON :: (after ++ QUOTE :: s)) := by
    rw [stripPrefix_eq_some]
    simp [needle]
  have htake : (before ++ COLON :: (after ++ QUOTE :: s)).takeWhile isBlank = before := by
    rw [List.takeWhile_append_of_pos hb]
    simp [show isBlank COLON = false from rfl]
  have hdrop : (after ++ QUOTE :: s).dropWhile isBlank = QUOTE :: s := by
    rw [List.dropWhile_append_of_pos ha]
    simp [show isBlank QUOTE = false from rfl]
  rw [jsonGetStringFrom.eq_3, hstrip]
  rw [isBlank_eq] at htake hdrop
  simp only [htake, List.drop_left, ne_eq, not_true_eq_false, if_false, hdrop]
  exact if_pos rfl

/-! ## What the key is not mistaken for -/

theorem wordChar_ne {c : UInt8} (h : isWordChar c = true) :
    c ≠ QUOTE ∧ c ≠ BACKSLASH ∧ c ≠ COLON ∧ isBlank c = false := by
  refine ⟨?_, ?_, ?_, ?_⟩
  · exact fun e => absurd h (by rw [e]; decide)
  · exact fun e => absurd h (by rw [e]; decide)
  · exact fun e => absurd h (by rw [e]; decide)
  · cases hb : isBlank c with
    | false => rfl
    | true =>
      simp only [isBlank, Bool.or_eq_true, decide_eq_true_eq] at hb
      rcases hb with ((rfl | rfl) | rfl) | rfl <;> exact absurd h (by decide)

theorem blank_ne {c : UInt8} (h : isBlank c = true) : c ≠ QUOTE := by
  rintro rfl
  exact absurd h (by decide)

/-- A key begins with a character of identifiers. -/
theorem stripPrefix_of_head (hne : key ≠ []) (hword : ∀ c ∈ key, isWordChar c = true) {c : UInt8}
    (hc : isWordChar c = false) (t : Bytes) : stripPrefix (key ++ [QUOTE]) (c :: t) = none := by
  obtain ⟨k, ks, rfl⟩ := List.exists_cons_of_ne_nil hne
  have hk : k ≠ c := fun e => by simp [← e, hword k (by simp)] at hc
  exact stripPrefix_head hk _ _

/-- A key with its closing quote at the start of an escaped value is that value: a quote within
the value has a backslash before it. -/
theorem eq_of_stripPrefix_value (hword : ∀ c ∈ key, isWordChar c = true) {v t rest : Bytes}
    (h : stripPrefix (key ++ [QUOTE]) (jsonEsc v ++ QUOTE :: t) = some rest) :
    key = jsonEsc v ∧ rest = t := by
  rw [stripPrefix_eq_some, List.append_assoc, List.singleton_append] at h
  induction v generalizing key with
  | nil =>
    cases key with
    | nil => exact ⟨rfl, (List.cons.inj h).2.symm⟩
    | cons k ks => exact absurd (List.cons.inj h).1.symm (wordChar_ne (hword k (by simp))).1
  | cons c v ih =>
    have hcons : jsonEsc (c :: v) = escByte c ++ jsonEsc v := rfl
    rw [jsonEsc_cons] at h
    rw [hcons]
    rcases escByte_cases c with he | ⟨he, hq, -⟩ | ⟨x, he⟩
    · rw [he, List.nil_append] at h
      rw [he]
      exact ih hword h
    · rw [he, List.singleton_append] at h
      cases key with
      | nil => exact absurd (List.cons.inj h).1 hq
      | cons k ks =>
        obtain ⟨hk, htail⟩ := List.cons.inj h
        obtain ⟨hks, hrest⟩ := ih (fun d hd => hword d (by simp [hd])) htail
        rw [he, ← hks, hk]
        exact ⟨rfl, hrest⟩
    · rw [he] at h
      cases key with
      | nil => exact absurd (List.cons.inj h).1 (by decide)
      | cons k ks => exact absurd (List.cons.inj h).1.symm (wordChar_ne (hword k (by simp))).2.1

/-- Behind a field comes a comma or the closing brace. -/
def Ends (t : Bytes) : Prop := ∃ c s, t = c :: s ∧ (c = COMMA ∨ c = RBRACE)

theorem ends_renderRest (fs : List Field) : Ends (renderRest fs) := by
  cases fs with
  | nil => exact ⟨RBRACE, [], rfl, .inr rfl⟩
  | cons f fs => exact ⟨COMMA, _, rfl, .inl rfl⟩

section

variable (hne : key ≠ []) (hword : ∀ c ∈ key, isWordChar c = true)

include hword in
/-- A value, from its opening quote on, given that the search passes over its contents. -/
theorem search_opening {v t : Bytes} (ht : Ends t)
    (h : jsonGetStringFrom (needle key) 0 (jsonEsc v ++ QUOTE :: t) =
      jsonGetStringFrom (needle key) 0 t) :
    jsonGetStringFrom (needle key) 0 (QUOTE :: (jsonEsc v ++ QUOTE :: t)) =
      jsonGetStringFrom (needle key) 0 t := by
  cases hs : stripPrefix (key ++ [QUOTE]) (jsonEsc v ++ QUOTE :: t) with
  | none => rw [search_quote hs, h]
  | some rest =>
    -- the value is spelled like the key, and no colon follows it
    obtain ⟨hv, -⟩ := eq_of_stripPrefix_value hword hs
    obtain ⟨c, s, rfl, hc⟩ := ht
    rw [← hv]
    rcases hc with rfl | rfl <;> exact search_false_match (by decide) (by decide) s

include hne hword in
/-- **Values are passed over**, whatever they look like. -/
theorem search_value (v : Bytes) {t : Bytes} (ht : Ends t) :
    jsonGetStringFrom (needle key) 0 (jsonEsc v ++ QUOTE :: t) =
      jsonGetStringFrom (needle key) 0 t := by
  induction v with
  | nil =>
    obtain ⟨c, s, rfl, hc⟩ := ht
    refine search_quote (stripPrefix_of_head hne hword ?_ s)
    rcases hc with rfl | rfl <;> decide
  | cons c v ih =>
    rw [jsonEsc_cons]
    rcases escByte_cases c with he | ⟨he, hq, -⟩ | ⟨x, he⟩
    · rw [he]
      exact ih
    · rw [he, search_of_not_mem (by simpa using Ne.symm hq)]
      exact ih
    · rw [he, List.cons_append, List.singleton_append,
        search_cons (stripPrefix_head (by decide) _ _)]
      by_cases hx : x = QUOTE
      · subst hx
        exact search_opening hword ht ih
      · rw [search_cons (stripPrefix_head (Ne.symm hx) _ _)]
        exact ih

include hne hword in
/-- **Other fields are passed over.** -/
theorem search_other {f : Field} (hf : f.key ≠ key) {t : Bytes} (ht : Ends t) :
    jsonGetStringFrom (needle key) 0 (f.text ++ t) = jsonGetStringFrom (needle key) 0 t := by
  have hquote {s : Bytes} (h : ∀ c ∈ s, isWordChar c = true) : QUOTE ∉ s := fun hm =>
    (wordChar_ne (h _ hm)).1 rfl
  have hblank {s : Bytes} (h : ∀ c ∈ s, isBlank c = true) : QUOTE ∉ s := fun hm =>
    blank_ne (h _ hm) rfl
  have hopen (r : Bytes) : stripPrefix (key ++ [QUOTE]) (f.key ++ QUOTE :: r) = none := by
    cases hs : stripPrefix (key ++ [QUOTE]) (f.key ++ QUOTE :: r) with
    | none => rfl
    | some rest =>
      rw [stripPrefix_eq_some, List.append_assoc, List.singleton_append] at hs
      have hcut := Lines.cut_append QUOTE f.key r (hquote f.key_word)
      rw [hs, Lines.cut_append QUOTE key rest (hquote hword)] at hcut
      simp only [Option.some.injEq, Prod.mk.injEq] at hcut
      exact absurd hcut.1.symm hf
  have hclose (r : Bytes) : stripPrefix (key ++ [QUOTE]) (f.before ++ COLON :: r) = none := by
    cases hb : f.before with
    | nil => exact stripPrefix_of_head hne hword rfl r
    | cons b bs =>
      have hbb := f.before_blank b (by simp [hb])
      refine stripPrefix_of_head hne hword ?_ _
      cases hw : isWordChar b with
      | false => rfl
      | true => simp [(wordChar_ne hw).2.2.2] at hbb
  have hcolon : COLON ≠ QUOTE := by decide
  simp only [Field.text, List.cons_append, List.append_assoc, List.nil_append]
  rw [search_quote (hopen _), search_of_not_mem (hquote f.key_word), search_quote (hclose _),
    search_of_not_mem (hblank f.before_blank), search_cons (stripPrefix_head hcolon.symm _ _),
    search_of_not_mem (hblank f.after_blank)]
  exact search_opening hword ht (search_value hne hword f.value ht)

end

theorem search_own (f : Field) (t : Bytes) :
    jsonGetStringFrom (needle f.key) 0 (f.text ++ t) = f.value := by
  simp only [Field.text, List.cons_append, List.append_assoc, List.nil_append]
  rw [search_match f.before_blank f.after_blank, endpointString_jsonEsc f.value_kept,
    Option.getD_some]

/-! ## The round trip -/

/-- Along the fields, each one is the own field of the key or another one. -/
theorem search_fields {f g : Field} {fs : List Field} (hf : f ∈ g :: fs)
    (h : ((g :: fs).map (·.key)).Nodup) :
    jsonGetStringFrom (needle f.key) 0 (g.text ++ renderRest fs) = f.value := by
  induction fs generalizing g with
  | nil =>
    obtain rfl := List.mem_singleton.mp hf
    exact search_own f _
  | cons g' fs ih =>
    rcases List.mem_cons.mp hf with rfl | hf
    · exact search_own f _
    · obtain ⟨hg, hrest⟩ := List.nodup_cons.mp h
      have hkey : g.key ≠ f.key := fun e => hg (List.mem_map.mpr ⟨f, hf, e.symm⟩)
      rw [search_other f.key_ne_nil f.key_word hkey (ends_renderRest _), renderRest,
        search_cons (stripPrefix_head (by decide) _ _)]
      exact ih hf hrest

/-- **Round trip.** In an object with distinct keys, every key is read as the value that was
written for it. -/
theorem jsonGetString_render {fs : List Field} (h : (fs.map (·.key)).Nodup) {f : Field}
    (hf : f ∈ fs) : jsonGetString (render fs) f.key = f.value := by
  cases fs with
  | nil => cases hf
  | cons g fs =>
    have hstart : jsonGetString (render (g :: fs)) f.key =
        jsonGetStringFrom (needle f.key) 0 (LBRACE :: (g.text ++ renderRest fs)) := rfl
    rw [hstart, search_cons (stripPrefix_head (by decide) _ _)]
    exact search_fields hf h

/-- A value that is spelled like the other key, quoted and with a colon. -/
def lookalike : Field where
  key := ascii "id"
  value := ascii "label\":\"\\x\",\"label"
  key_ne_nil := by decide
  key_word := by decide
  before_blank := by decide
  after_blank := by decide
  value_kept := by decide

def labelField : Field where
  key := ascii "label"
  value := ascii "\"label\""
  before := ascii " "
  after := ascii "\n "
  key_ne_nil := by decide
  key_word := by decide
  before_blank := by decide
  after_blank := by decide
  value_kept := by decide

theorem jsonGetString_lookalike :
    jsonGetString (render [lookalike, labelField]) (ascii "label") = ascii "\"label\"" :=
  @jsonGetString_render [lookalike, labelField] (by decide) labelField (by simp)

end TrafficMonitor.JsonFields
