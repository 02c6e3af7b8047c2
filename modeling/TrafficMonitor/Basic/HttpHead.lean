import TrafficMonitor.Basic.Lines
import TrafficMonitor.Basic.Tls

/-!
# The head of an HTTP message

A first line and headers, each line with its line end, and a blank line. A reader without a
buffer takes one byte at a time until it has the blank line, or as many bytes as it takes at
most. A header is then searched for in a copy of the head in which every byte is replaced by
`fold` of it, and its value is taken from the head itself.

Proved here:

* `readHead_text`: a reader gets the head and leaves what is behind it, however it is cut;
* `readHead_eq_some`: what a reader has got is what came first, within its limit;
* `findFolded_of_carries`: the first header that the search can take for the one it looks for is
  found with its value;
* `Forwarded.carries`: the only header of its name is that one behind every intermediary.
-/

namespace TrafficMonitor.HttpHead

open Bytes Tls

/-! ## Heads -/

def crlf : Bytes := [CR, LF]

/-- What stands behind the last header. -/
def blankLine : Bytes := crlf ++ crlf

/-- Lines with their line ends. -/
def joinLines (ls : List Bytes) : Bytes := ls.flatMap (· ++ crlf)

structure Header where
  name : Bytes
  value : Bytes
  deriving DecidableEq, Repr

def Header.line (h : Header) : Bytes := h.name ++ COLON :: SP :: h.value

structure Head where
  first : Bytes
  headers : List Header
  deriving DecidableEq, Repr

def Head.lines (h : Head) : List Bytes := h.first :: h.headers.map Header.line

def Head.text (h : Head) : Bytes := joinLines h.lines ++ crlf

/-- Every line can be told from its end. -/
def Head.Clean (h : Head) : Prop := h.first ≠ [] ∧ ∀ l ∈ h.lines, CR ∉ l

@[simp] theorem joinLines_cons (l : Bytes) (ls : List Bytes) :
    joinLines (l :: ls) = l ++ CR :: LF :: joinLines ls := by
  simp [joinLines, crlf]

@[simp] theorem joinLines_append (ls ms : List Bytes) :
    joinLines (ls ++ ms) = joinLines ls ++ joinLines ms := by
  simp [joinLines]

theorem line_ne_nil (h : Header) : h.line ≠ [] := by simp [Header.line]

theorem Head.Clean.lines_ne {h : Head} (hc : h.Clean) : ∀ l ∈ h.lines, l ≠ [] := by
  intro l hl
  rcases List.mem_cons.mp hl with rfl | hl
  · exact hc.1
  · obtain ⟨g, -, rfl⟩ := List.mem_map.mp hl
    exact line_ne_nil g

/-! ## The reader -/

/-- At most `n` further bytes, `acc` being there; nothing if a read fails. -/
def readHead : Nat → Bytes → List Event → Option Bytes × List Event
  | 0, acc, es => (some acc, es)
  | n + 1, acc, es => match sslRead 1 es with
    | (.data s, es) =>
      if blankLine.isSuffixOf (acc ++ s) then (some (acc ++ s), es) else readHead n (acc ++ s) es
    | (_, es) => (none, es)

theorem readHead_byte {n : Nat} {p : Bytes} {es : List Event} {c : UInt8} {rest : List Symbol}
    (he : symbols es = .byte c :: rest) (hb : ¬blankLine <:+ p ++ [c]) :
    ∃ es', readHead (n + 1) p es = readHead n (p ++ [c]) es' ∧ symbols es' = rest := by
  obtain ⟨es', hr, hes⟩ := sslRead_byte he
  refine ⟨es', ?_, hes⟩
  have : blankLine.isSuffixOf (p ++ [c]) = false := by
    rw [Bool.eq_false_iff]
    exact fun h => hb (List.isSuffixOf_iff_suffix.mp h)
  simp [readHead, hr, this]

/-- The end of a text that is no blank line, by its last bytes. -/
theorem not_blank_of_last {acc : Bytes} {c : UInt8} (h : c ≠ LF) : ¬blankLine <:+ acc ++ [c] := by
  rintro ⟨t, ht⟩
  have := congrArg List.getLast? ht
  simp [blankLine, crlf] at this
  exact h this.symm

theorem not_blank_of_last_two {acc : Bytes} {b c : UInt8} (h : b ≠ CR) :
    ¬blankLine <:+ acc ++ [b] ++ [c] := by
  rintro ⟨t, ht⟩
  have := congrArg (fun s => s.reverse.take 2) ht
  simp [blankLine, crlf] at this
  exact h this.2.symm

/-- A line that is being read: what is there ends with a byte that is no carriage return. -/
theorem readHead_inside {l : Bytes} (hl : CR ∉ l) {n : Nat} {p : Bytes} {b : UInt8} (hb : b ≠ CR)
    {es : List Event} {rest : List Symbol} (he : symbols es = ofBytes l ++ rest) :
    ∃ es', readHead (l.length + n) (p ++ [b]) es = readHead n (p ++ [b] ++ l) es' ∧
      symbols es' = rest := by
  induction l generalizing p b es with
  | nil => exact ⟨es, by simp, he⟩
  | cons c l ih =>
    rw [List.mem_cons, not_or] at hl
    obtain ⟨es₁, hr₁, hes₁⟩ := readHead_byte (n := l.length + n) he (not_blank_of_last_two hb)
    obtain ⟨es', hr, hes⟩ := ih hl.2 (Ne.symm hl.1) (p := p ++ [b]) hes₁
    refine ⟨es', ?_, hes⟩
    rw [List.length_cons, Nat.add_right_comm, hr₁, hr]
    simp

/-- Nothing has been read, or the last byte was a line feed. -/
def Opens (acc : Bytes) : Prop := acc = [] ∨ ∃ a, acc = a ++ [LF]

theorem opens_crlf (acc : Bytes) : Opens (acc ++ crlf) := .inr ⟨acc ++ [CR], by simp [crlf]⟩

theorem not_blank_of_opens {acc : Bytes} (h : Opens acc) (c : UInt8) :
    ¬blankLine <:+ acc ++ [c] := by
  rcases h with rfl | ⟨a, rfl⟩
  · intro h
    have := h.length_le
    simp [blankLine, crlf] at this
  · exact not_blank_of_last_two (by decide)

/-- A line that is not empty does not end like a line end. -/
theorem not_crlf_of_line {acc l : Bytes} (ha : Opens acc) (hl : CR ∉ l) (hne : l ≠ []) :
    ¬crlf <:+ acc ++ l := by
  rintro ⟨t, ht⟩
  obtain ⟨m, d, rfl⟩ := l.eq_nil_or_concat.resolve_left hne
  simp only [List.concat_eq_append, crlf, List.mem_append, not_or] at ht hl
  have ht : t ++ [CR] ++ [LF] = acc ++ m ++ [d] := by simpa using ht
  have hcr := List.append_inj_left' ht rfl
  rcases m.eq_nil_or_concat with rfl | ⟨m, e, rfl⟩
  · rcases ha with rfl | ⟨a, rfl⟩
    · simp at hcr
    · have := congrArg List.getLast? hcr
      simp [CR, LF] at this
  · have := congrArg List.getLast? hcr
    simp only [List.concat_eq_append, List.getLast?_append, List.getLast?_singleton,
      Option.some_or, Option.some.injEq, ← List.append_assoc] at this
    exact hl.1 (by simp [this])

theorem readHead_line {l : Bytes} (hl : CR ∉ l) (hne : l ≠ []) {n : Nat} {acc : Bytes}
    (ha : Opens acc) {es : List Event} {rest : List Symbol}
    (he : symbols es = ofBytes (l ++ crlf) ++ rest) :
    ∃ es', readHead ((l ++ crlf).length + n) acc es = readHead n (acc ++ (l ++ crlf)) es' ∧
      symbols es' = rest := by
  obtain ⟨c, m, rfl⟩ := List.exists_cons_of_ne_nil hne
  have hm := hl
  rw [List.mem_cons, not_or] at hm
  rw [ofBytes_append, List.append_assoc, ofBytes_cons] at he
  -- the first byte, the others, and the two of the line end
  obtain ⟨es₁, hr₁, hes₁⟩ := readHead_byte (n := m.length + (n + 2)) he (not_blank_of_opens ha c)
  obtain ⟨es₂, hr₂, hes₂⟩ := readHead_inside (n := n + 2) hm.2 (Ne.symm hm.1) hes₁
  obtain ⟨es₃, hr₃, hes₃⟩ := readHead_byte (n := n + 1) (p := acc ++ [c] ++ m) hes₂
    (not_blank_of_last (by decide))
  have hend : ¬blankLine <:+ acc ++ [c] ++ m ++ [CR] ++ [LF] := by
    rintro ⟨t, ht⟩
    refine not_crlf_of_line ha hl hne ⟨t, ?_⟩
    have : t ++ crlf ++ crlf = acc ++ (c :: m) ++ crlf := by
      simpa [blankLine, crlf] using ht
    exact List.append_cancel_right this
  obtain ⟨es₄, hr₄, hes₄⟩ := readHead_byte (n := n) hes₃ hend
  refine ⟨es₄, ?_, hes₄⟩
  calc readHead ((c :: m ++ crlf).length + n) acc es
      = readHead (m.length + (n + 2) + 1) acc es := by
        congr 1
        simp [crlf]
        omega
    _ = readHead n (acc ++ [c] ++ m ++ [CR] ++ [LF]) es₄ := by rw [hr₁, hr₂, hr₃, hr₄]
    _ = _ := by simp [crlf]

theorem readHead_lines {ls : List Bytes} (hls : ∀ l ∈ ls, CR ∉ l ∧ l ≠ []) {n : Nat} {acc : Bytes}
    (ha : Opens acc) {es : List Event} {rest : List Symbol}
    (he : symbols es = ofBytes (joinLines ls) ++ rest) :
    ∃ es', readHead ((joinLines ls).length + n) acc es = readHead n (acc ++ joinLines ls) es' ∧
      Opens (acc ++ joinLines ls) ∧ symbols es' = rest := by
  induction ls generalizing acc es with
  | nil => exact ⟨es, by simp [joinLines], by simpa [joinLines] using ha, he⟩
  | cons l ls ih =>
    have hcons : joinLines (l :: ls) = (l ++ crlf) ++ joinLines ls := rfl
    obtain ⟨hl, hls⟩ := List.forall_mem_cons.mp hls
    rw [hcons, ofBytes_append, List.append_assoc] at he
    obtain ⟨es₁, hr₁, hes₁⟩ := readHead_line (n := (joinLines ls).length + n) hl.1 hl.2 ha he
    have ha₁ : Opens (acc ++ (l ++ crlf)) := by
      rw [← List.append_assoc]
      exact opens_crlf (acc ++ l)
    obtain ⟨es', hr, ha', hes⟩ := ih hls ha₁ hes₁
    rw [List.append_assoc, ← hcons] at ha'
    refine ⟨es', ?_, ha', hes⟩
    rw [hcons, List.length_append, Nat.add_assoc, hr₁, hr, List.append_assoc]

/-- **A head is read to its end**, and nothing behind it. -/
theorem readHead_text {h : Head} (hc : h.Clean) {n : Nat} (hn : h.text.length ≤ n) {es : List Event}
    {rest : List Symbol} (he : symbols es = ofBytes h.text ++ rest) :
    ∃ es', readHead n [] es = (some h.text, es') ∧ symbols es' = rest := by
  obtain ⟨k, rfl⟩ := Nat.exists_eq_add_of_le hn
  have hls : ∀ l ∈ h.lines, CR ∉ l ∧ l ≠ [] := fun l hl => ⟨hc.2 l hl, hc.lines_ne l hl⟩
  rw [Head.text, ofBytes_append, List.append_assoc] at he
  obtain ⟨es₁, hr₁, ha, hes₁⟩ := readHead_lines (n := k + 2) hls (.inl rfl) he
  obtain ⟨a, hend⟩ : ∃ a, joinLines h.lines = a ++ crlf := by
    obtain ⟨ls, l, hl⟩ := h.lines.eq_nil_or_concat.resolve_left (by simp [Head.lines])
    exact ⟨joinLines ls ++ l, by rw [hl]; simp [joinLines]⟩
  obtain ⟨es₂, hr₂, hes₂⟩ := readHead_byte (n := k + 1) (p := joinLines h.lines) hes₁
    (not_blank_of_last (by decide))
  obtain ⟨es₃, hr₃, hes₃⟩ := sslRead_byte hes₂
  have hblank : blankLine.isSuffixOf (joinLines h.lines ++ [CR] ++ [LF]) = true := by
    rw [List.isSuffixOf_iff_suffix, hend]
    exact ⟨a, by simp [blankLine, crlf]⟩
  refine ⟨es₃, ?_, hes₃⟩
  calc readHead (h.text.length + k) [] es
      = readHead ((joinLines h.lines).length + (k + 2)) [] es := by
        congr 1
        simp [Head.text, crlf]
        omega
    _ = readHead (k + 1) (joinLines h.lines ++ [CR]) es₂ := by rw [hr₁, List.nil_append, hr₂]
    _ = (some (joinLines h.lines ++ [CR] ++ [LF]), es₃) := by
        rw [readHead, hr₃]
        simp only [hblank, if_true]
    _ = _ := by simp [Head.text, crlf]

/-- A read of one byte that does not fail. -/
theorem sslRead_data {es es' : List Event} {s : Bytes} (h : sslRead 1 es = (.data s, es')) :
    ∃ b, s = [b] ∧ symbols es = .byte b :: symbols es' := by
  cases es with
  | nil => cases h
  | cons e es =>
    cases e with
    | record b bs =>
      cases h
      exact ⟨b, rfl, by simp [Event.symbols]⟩
    | timeout => cases h
    | shutdown => cases h

/-- **What a reader has got** came first. It ends with the first blank line, or at the limit. -/
theorem readHead_eq_some {n : Nat} {acc s : Bytes} {es es' : List Event}
    (h : readHead n acc es = (some s, es')) :
    ∃ t, s = acc ++ t ∧ t.length ≤ n ∧ symbols es = ofBytes t ++ symbols es' ∧
      (blankLine <:+ s ∨ t.length = n) := by
  induction n generalizing acc es with
  | zero =>
    cases h
    exact ⟨[], by simp, le_rfl, rfl, .inr rfl⟩
  | succ n ih =>
    rw [readHead] at h
    split at h
    · rename_i r es₁ hr
      obtain ⟨b, rfl, hes⟩ := sslRead_data hr
      split at h
      · rename_i hb
        cases h
        exact ⟨[b], rfl, by simp, hes, .inl (List.isSuffixOf_iff_suffix.mp hb)⟩
      · obtain ⟨t, rfl, hlen, hes', hend⟩ := ih h
        refine ⟨b :: t, by simp, by simpa using hlen, ?_, hend.imp id fun e => by simp [e]⟩
        rw [hes, hes']
        rfl
    · cases h

/-! ## The search -/

/-- `lower.find(needle)`, where `lower` is a copy with `fold` of each byte; the text from the end
of the needle on. -/
def findFolded (fold : UInt8 → UInt8) (needle s : Bytes) : Option Bytes :=
  (findAfter needle (s.map fold)).map fun rest => s.drop (s.length - rest.length)

/-- What the search for a header looks for. -/
def needle (name : Bytes) : Bytes := name ++ [COLON, SP]

/-- The search does not stop in this line. -/
def Passes (fold : UInt8 → UInt8) (name l : Bytes) : Prop :=
  findAfter (needle name) (l.map fold) = none

instance (fold : UInt8 → UInt8) (name l : Bytes) : Decidable (Passes fold name l) :=
  inferInstanceAs (Decidable (_ = none))

/-- The first header that the search can stop at is this one. -/
def Head.Carries (fold : UInt8 → UInt8) (h : Head) (name value : Bytes) : Prop :=
  ∃ front g back, h.headers = front ++ g :: back ∧ g.name.map fold = name ∧ g.value = value ∧
    ∀ l ∈ h.first :: front.map Header.line, Passes fold name l

/-- The replacement of bytes leaves the marks of a head alone. -/
structure KeepsMarks (fold : UInt8 → UInt8) : Prop where
  cr : fold CR = CR
  lf : fold LF = LF
  colon : fold COLON = COLON
  sp : fold SP = SP

section Search

variable {fold : UInt8 → UInt8}

theorem stripPrefix_eq_none {n s : Bytes} : stripPrefix n s = none ↔ ¬n <+: s := by
  rw [← List.isPrefixOf_iff_prefix, stripPrefix]
  split <;> simp_all

/-- A needle without a carriage return is not found across a line end. -/
theorem findAfter_line {n l : Bytes} (hn : n ≠ []) (hcr : CR ∉ n) (hlf : LF ∉ n)
    (hl : findAfter n l = none) (t : Bytes) :
    findAfter n (l ++ CR :: LF :: t) = findAfter n t := by
  have hcut (l : Bytes) (h : ¬n <+: l) : ¬n <+: l ++ CR :: LF :: t := fun hp =>
    h ((Lines.prefix_append_iff hcr (by simp)).mp hp)
  induction l with
  | nil =>
    have hlf' : ¬n <+: LF :: t := fun hp => hn (by
      simpa using (Lines.prefix_append_iff (t := []) hlf (by simp)).mp hp)
    have hcr' := hcut [] (by simpa using hn)
    rw [List.nil_append] at hcr' ⊢
    rw [findAfter_cons (stripPrefix_eq_none.mpr hcr'), findAfter_cons (stripPrefix_eq_none.mpr hlf')]
  | cons c l ih =>
    rw [findAfter] at hl
    split at hl
    · cases hl
    · rename_i hs
      rw [List.cons_append, findAfter_cons, ih hl]
      exact stripPrefix_eq_none.mpr (hcut (c :: l) (stripPrefix_eq_none.mp hs))

/-- The text from the needle on, where the search stops. -/
theorem findFolded_of_findAfter {n a t : Bytes}
    (h : findAfter n ((a ++ t).map fold) = some (t.map fold)) :
    findFolded fold n (a ++ t) = some t := by
  rw [findFolded, h]
  simp

/-- What is found stands behind the needle. -/
theorem eq_of_findFolded {n s t : Bytes} (h : findFolded fold n s = some t) :
    ∃ a b, s = a ++ (b ++ t) ∧ b.map fold = n := by
  simp only [findFolded, Option.map_eq_some_iff] at h
  obtain ⟨r, hr, rfl⟩ := h
  obtain ⟨a, ha⟩ := findAfter_eq_some hr
  obtain ⟨s₁, s', rfl, rfl, hs'⟩ := List.map_eq_append_iff.mp ha
  obtain ⟨s₂, s₃, rfl, rfl, rfl⟩ := List.map_eq_append_iff.mp hs'
  exact ⟨s₁, s₂, by simp [← List.append_assoc], rfl⟩

variable (hf : KeepsMarks fold)
include hf

theorem map_joinLines (ls : List Bytes) :
    (joinLines ls).map fold = joinLines (ls.map (List.map fold)) := by
  induction ls with
  | nil => rfl
  | cons l ls ih => simp [hf.cr, hf.lf, ih]

variable {name : Bytes} (hcr : CR ∉ name) (hlf : LF ∉ name)
include hcr hlf

theorem findAfter_lines {ls : List Bytes} (h : ∀ l ∈ ls, Passes fold name l) (t : Bytes) :
    findAfter (needle name) ((joinLines ls).map fold ++ t) = findAfter (needle name) t := by
  rw [map_joinLines hf]
  induction ls with
  | nil => rfl
  | cons l ls ih =>
    obtain ⟨hl, hls⟩ := List.forall_mem_cons.mp h
    have hcr' : CR ∉ needle name := by
      have : CR ∉ [COLON, SP] := by decide
      simp [needle, hcr, this]
    have hlf' : LF ∉ needle name := by
      have : LF ∉ [COLON, SP] := by decide
      simp [needle, hlf, this]
    simp only [List.map_cons, joinLines_cons, List.append_assoc, List.cons_append]
    rw [findAfter_line (by simp [needle]) hcr' hlf' hl, ih hls]

/-- **The header that is found** is the first one that the search can take for it. -/
theorem findFolded_of_carries {h : Head} {value : Bytes} (hs : h.Carries fold name value) :
    ∃ t, findFolded fold (needle name) h.text = some (value ++ CR :: t) := by
  obtain ⟨front, g, back, hh, rfl, rfl, hpass⟩ := hs
  have e : h.text = joinLines (h.first :: front.map Header.line) ++ (g.name ++ [COLON, SP]) ++
      (g.value ++ CR :: LF :: (joinLines (back.map Header.line) ++ crlf)) := by
    simp [Head.text, Head.lines, hh, Header.line]
  refine ⟨LF :: (joinLines (back.map Header.line) ++ crlf), ?_⟩
  rw [e]
  refine findFolded_of_findAfter ?_
  have hneedle : g.name.map fold ++ [COLON, SP].map fold = needle (g.name.map fold) := by
    simp [needle, hf.colon, hf.sp]
  rw [List.map_append, List.map_append, List.append_assoc, findAfter_lines hf hcr hlf hpass,
    List.map_append, hneedle]
  exact findAfter_append _ _ (by simp [needle])

omit hcr hlf in
theorem map_line (g : Header) : g.line.map fold = g.name.map fold ++ COLON :: SP :: g.value.map fold := by
  simp [Header.line, hf.colon, hf.sp]

omit hcr hlf in
/-- The search stops in the header that it looks for. -/
theorem not_passes_of_name {g : Header} (hn : g.name.map fold = name) : ¬Passes fold name g.line := by
  have e : g.line.map fold = needle name ++ g.value.map fold := by
    rw [map_line hf, hn]
    simp [needle]
  rw [Passes, e, findAfter_append _ _ (by simp [needle])]
  simp

omit hcr hlf in
/-- It passes a header with another name, where a blank stands only behind the colon. -/
theorem passes_of_name {g : Header} (hv : SP ∉ g.value.map fold)
    (hn : ¬name <:+ g.name.map fold) (hg : SP ∉ g.name.map fold) : Passes fold name g.line := by
  rw [Passes, map_line hf, Option.eq_none_iff_forall_ne_some]
  intro t ht
  obtain ⟨a, ha⟩ := findAfter_eq_some ht
  -- both sides are cut at their only blank
  have hl := Lines.cut_append SP (g.name.map fold ++ [COLON]) (g.value.map fold) (by
    have : SP ∉ [COLON] := by decide
    simp [hg, this])
  have hsp : SP ∉ a ++ (name ++ [COLON]) := by
    intro hmem
    have hcount := congrArg (List.count SP) ha
    have := List.count_pos_iff.mpr hmem
    have h₁ := List.count_eq_zero.mpr hv
    have h₂ := List.count_eq_zero.mpr hg
    have h₃ : (COLON == SP) = false := by decide
    simp only [needle, List.count_append, List.count_cons, List.count_nil, h₁, h₂, h₃, beq_self_eq_true,
      Bool.false_eq_true, if_true, if_false] at hcount this
    omega
  have hr := Lines.cut_append SP (a ++ (name ++ [COLON])) t hsp
  have e : g.name.map fold ++ [COLON] ++ SP :: g.value.map fold
      = a ++ (name ++ [COLON]) ++ SP :: t := by simpa [needle] using ha
  rw [e, hr] at hl
  obtain ⟨hl, -⟩ := Prod.mk.inj (Option.some.inj hl)
  rw [← List.append_assoc] at hl
  exact hn ⟨a, List.append_cancel_right hl⟩

end Search

/-! ## On the way -/

/-- What an intermediary makes of a head. The first line stays. Headers may be reordered, their
names written in another case, and others added in which the search does not stop. -/
structure Forwarded (fold : UInt8 → UInt8) (name : Bytes) (h h' : Head) : Prop where
  first : h'.first = h.first
  clean : h'.Clean
  kept : ∀ g ∈ h.headers, ∃ g' ∈ h'.headers,
    g'.name.map fold = g.name.map fold ∧ g'.value = g.value
  only : ∀ g' ∈ h'.headers, ¬Passes fold name g'.line →
    ∃ g ∈ h.headers, g'.name.map fold = g.name.map fold ∧ g'.value = g.value

/-- A header that is the only one of its name is still the first one that is found. -/
theorem Forwarded.carries {fold : UInt8 → UInt8} (hf : KeepsMarks fold) {name value : Bytes}
    {h h' : Head} (hfw : Forwarded fold name h h') (hfirst : Passes fold name h.first)
    (hex : ∃ g ∈ h.headers, g.name.map fold = name)
    (huniq : ∀ g ∈ h.headers, Passes fold name g.line ∨ g.name.map fold = name ∧ g.value = value) :
    h'.Carries fold name value := by
  obtain ⟨g, hg, hgn⟩ := hex
  obtain ⟨g', hg', hn', -⟩ := hfw.kept g hg
  have hstop : ∃ x ∈ h'.headers, ¬Passes fold name x.line :=
    ⟨g', hg', not_passes_of_name hf (hn'.trans hgn)⟩
  obtain ⟨c, hc⟩ := Option.isSome_iff_exists.mp <| List.find?_isSome.mpr <|
    show ∃ x ∈ h'.headers, (decide ¬Passes fold name x.line) = true by simpa using hstop
  obtain ⟨hcp, front, back, hsplit, hfront⟩ := List.find?_eq_some_iff_append.mp hc
  have hcp : ¬Passes fold name c.line := of_decide_eq_true hcp
  obtain ⟨d, hd, hdn, hdv⟩ := hfw.only c (hsplit ▸ by simp) hcp
  -- the header that it comes from does not pass either
  have hline : (d.line.map fold) = c.line.map fold := by
    rw [map_line hf, map_line hf, hdn, hdv]
  rcases huniq d hd with hp | ⟨hname, hvalue⟩
  · rw [Passes, hline] at hp
    exact absurd hp hcp
  · refine ⟨front, c, back, hsplit, hdn.trans hname, hdv.trans hvalue, ?_⟩
    intro l hl
    rcases List.mem_cons.mp hl with rfl | hl
    · rwa [hfw.first]
    · obtain ⟨x, hx, rfl⟩ := List.mem_map.mp hl
      simpa using hfront x hx

/-- Every name as `fold` makes it. -/
def Head.folded (fold : UInt8 → UInt8) (h : Head) : Head where
  first := h.first
  headers := h.headers.map fun g => ⟨g.name.map fold, g.value⟩

theorem Head.Clean.folded {fold : UInt8 → UInt8} (hcr : ∀ c, fold c = CR → c = CR) {h : Head}
    (hc : h.Clean) : (h.folded fold).Clean := by
  refine ⟨hc.1, fun l hl => ?_⟩
  simp only [Head.lines, Head.folded, List.map_map, List.mem_cons] at hl
  rcases hl with rfl | hl
  · exact hc.2 _ (by simp [Head.lines])
  · obtain ⟨g, hg, rfl⟩ := List.mem_map.mp hl
    have hline := hc.2 g.line (by simp only [Head.lines, List.mem_cons]; exact .inr (List.mem_map_of_mem hg))
    simp only [Function.comp_apply, Header.line, List.mem_append, not_or] at hline ⊢
    refine ⟨fun hm => ?_, hline.2⟩
    obtain ⟨c, hmem, e⟩ := List.mem_map.mp hm
    exact hline.1 (hcr c e ▸ hmem)

theorem length_text_folded (fold : UInt8 → UInt8) (h : Head) :
    (h.folded fold).text.length = h.text.length := by
  simp [Head.text, Head.lines, Head.folded, joinLines, Header.line, List.flatMap_map]

/-- An intermediary that writes every name so forwards every head. -/
theorem forwarded_folded {fold : UInt8 → UInt8} (hf : ∀ c, fold (fold c) = fold c)
    (hcr : ∀ c, fold c = CR → c = CR) (name : Bytes) {h : Head} (hc : h.Clean) :
    Forwarded fold name h (h.folded fold) where
  first := rfl
  clean := hc.folded hcr
  kept g hg := ⟨_, List.mem_map_of_mem hg, by simp [hf], rfl⟩
  only g' hg' _ := by
    obtain ⟨g, hg, rfl⟩ := List.mem_map.mp hg'
    exact ⟨g, hg, by simp [hf], rfl⟩

end TrafficMonitor.HttpHead
