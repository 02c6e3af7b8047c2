import TrafficMonitor.Basic.Words
import TrafficMonitor.Protocol

/-!
# The grammar of a D-line body

The body of a D-line is `{iface} {src_ip} {dst_ip} {bytes}`: four fields, the last a
plain unsigned decimal number of 32 bits. `parseDataLine` never looks for a fifth
field and reads the number with `strtoull`, which skips `isspace` bytes and a sign
and stops at the first byte that is no digit. Proved here:

* `nextTok_eq_some_iff`, `strtoull_eq_some_iff`: what the two readers accept;
* `parseDataLine_eq_some_iff`: the texts the parser accepts, and its result;
* `parse_iff_grammar`: the parser agrees with the grammar on every body but those
  whose number is preceded by such a byte or sign, or followed by anything but separators.
-/

namespace TrafficMonitor.DLineGrammar

open Bytes Words

def MINUS : UInt8 := 45
def PLUS : UInt8 := 43
def UINT32_MAX : Nat := 2 ^ 32 - 1

/-! ## The grammar -/

/-- The whitespace-separated fields of a body. -/
def fields (line : Bytes) : List Bytes := words isSep line

/-- A plain unsigned decimal number of at most 32 bits. -/
def IsU32 (s : Bytes) : Prop :=
  s ≠ [] ∧ (∀ c ∈ s, isDigit c = true) ∧ digitsValue s ≤ UINT32_MAX

instance (s : Bytes) : Decidable (IsU32 s) := inferInstanceAs (Decidable (_ ∧ _ ∧ _))

/-- The record of a body in the grammar. -/
def grammar (line : Bytes) (maxIfaceLen maxIpLen : Nat) : Option PacketMeta :=
  match fields line with
  | [iface, src, dst, num] =>
    if iface.length ≤ orDefault maxIfaceLen kMaxIfaceLabelLen ∧
        src.length ≤ orDefault maxIpLen kMaxIpLabelLen ∧
        dst.length ≤ orDefault maxIpLen kMaxIpLabelLen ∧ IsU32 num then
      some ⟨iface, src, dst, digitsValue num⟩
    else none
  | _ => none

/-- `parseDataLine(line, out, …)`: the result and what stands in `out` afterwards. -/
def parseInto (line : Bytes) (out : PacketMeta) (maxIfaceLen maxIpLen : Nat) :
    Bool × PacketMeta :=
  match parseDataLine line maxIfaceLen maxIpLen with
  | some m => (true, m)
  | none => (false, out)

/-- What the grammar asks of the result and of `out`. -/
def asked (line : Bytes) (out : PacketMeta) (maxIfaceLen maxIpLen : Nat) : Bool × PacketMeta :=
  match grammar line maxIfaceLen maxIpLen with
  | some m => (true, m)
  | none => (false, out)

/-! ## Texts the parser accepts

A number as `strtoull` finds it at the head of a text: bytes of `isspace`, a sign,
digits, and what is left unread. -/

structure NumberText where
  blanks : Bytes
  sign : Bytes
  digits : Bytes
  junk : Bytes

namespace NumberText

def text (n : NumberText) : Bytes := n.blanks ++ (n.sign ++ (n.digits ++ n.junk))

structure Valid (n : NumberText) : Prop where
  blanks : ∀ c ∈ n.blanks, isSpace c = true
  sign : n.sign = [] ∨ n.sign = [PLUS] ∨ n.sign = [MINUS]
  digits_ne : n.digits ≠ []
  digits : ∀ c ∈ n.digits, isDigit c = true
  junk : ∀ c ∈ n.junk.head?, isDigit c = false

/-- The value, saturated at 64 bits and negated modulo 2^64 by a minus sign. -/
def value (n : NumberText) : Nat :=
  if 2 ^ 64 ≤ digitsValue n.digits then 2 ^ 64 - 1
  else if n.sign = [MINUS] then (2 ^ 64 - digitsValue n.digits) % 2 ^ 64
  else digitsValue n.digits

/-- Only the digits, and separators after them. -/
def Plain (n : NumberText) : Prop :=
  n.blanks = [] ∧ n.sign = [] ∧ ∀ c ∈ n.junk, isSep c = true

end NumberText

/-- Three fields and the text from the fourth field on. -/
structure BodyText where
  s0 : Bytes
  iface : Bytes
  s1 : Bytes
  src : Bytes
  s2 : Bytes
  dst : Bytes
  s3 : Bytes
  number : NumberText

namespace BodyText

def afterDst (b : BodyText) : Bytes := b.s3 ++ b.number.text
def afterSrc (b : BodyText) : Bytes := b.s2 ++ (b.dst ++ b.afterDst)
def afterIface (b : BodyText) : Bytes := b.s1 ++ (b.src ++ b.afterSrc)
def text (b : BodyText) : Bytes := b.s0 ++ (b.iface ++ b.afterIface)

def Separators (s : Bytes) : Prop := ∀ c ∈ s, isSep c = true

structure Valid (b : BodyText) (maxIfaceLen maxIpLen : Nat) : Prop where
  s0 : Separators b.s0
  s1 : Separators b.s1 ∧ b.s1 ≠ []
  s2 : Separators b.s2 ∧ b.s2 ≠ []
  s3 : Separators b.s3 ∧ b.s3 ≠ []
  iface : IsWord isSep b.iface ∧ b.iface.length ≤ orDefault maxIfaceLen kMaxIfaceLabelLen
  src : IsWord isSep b.src ∧ b.src.length ≤ orDefault maxIpLen kMaxIpLabelLen
  dst : IsWord isSep b.dst ∧ b.dst.length ≤ orDefault maxIpLen kMaxIpLabelLen
  number : b.number.Valid
  head : ∀ c ∈ b.number.text.head?, isSep c = false
  range : b.number.value ≤ UINT32_MAX

def packet (b : BodyText) : PacketMeta := ⟨b.iface, b.src, b.dst, b.number.value⟩

end BodyText

/-- A body whose number stands behind an `isspace` byte or a sign, or before anything
but separators, and is in range as `strtoull` reads it. -/
def Lenient (line : Bytes) (maxIfaceLen maxIpLen : Nat) : Prop :=
  ∃ b : BodyText, b.text = line ∧ b.Valid maxIfaceLen maxIpLen ∧ ¬ b.number.Plain

/-! ## The tokenizer -/

private theorem nextTok_sep_append {s : Bytes} (hs : BodyText.Separators s) (p : Bytes) :
    nextTok (s ++ p) = nextTok p := by
  induction s with
  | nil => rfl
  | cons c s ih =>
    rw [List.cons_append, nextTok_sep c _ (hs c (by simp)), ih fun d hd => hs d (by simp [hd])]

/-- **Tokens.** `nextTok` skips separators and stops at the first one after the field. -/
theorem nextTok_eq_some_iff {p tok b rest : Bytes} :
    nextTok p = some (tok, b, rest) ↔
      ∃ s, p = s ++ b ∧ b = tok ++ rest ∧ BodyText.Separators s ∧ IsWord isSep tok ∧
        ∀ c ∈ rest.head?, isSep c = true := by
  constructor
  · intro h
    rcases exists_word isSep p with hp | ⟨s, w, t, rfl, hs, hw, ht⟩
    · have hnone := nextTok_sep_append hp []
      rw [List.append_nil, h] at hnone
      cases hnone
    · rw [List.append_assoc, nextTok_sep_append hs, nextTok_append w t hw.1 hw.2 ht] at h
      simp only [Option.some.injEq, Prod.mk.injEq] at h
      obtain ⟨rfl, rfl, rfl⟩ := h
      exact ⟨s, List.append_assoc .., rfl, hs, hw, ht⟩
  · rintro ⟨s, rfl, rfl, hs, hw, ht⟩
    rw [nextTok_sep_append hs, nextTok_append tok rest hw.1 hw.2 ht]

theorem fields_of_nextTok {p tok b rest : Bytes} (h : nextTok p = some (tok, b, rest)) :
    fields p = tok :: fields rest := by
  obtain ⟨s, rfl, rfl, hs, hw, ht⟩ := nextTok_eq_some_iff.mp h
  rw [fields, words_sep_append hs, words_word_append hw ht, fields]

theorem nextTok_of_fields {p tok : Bytes} {ts : List Bytes} (h : fields p = tok :: ts) :
    ∃ rest, nextTok p = some (tok, tok ++ rest, rest) ∧ fields rest = ts := by
  rcases exists_word isSep p with hp | ⟨s, w, t, rfl, hs, hw, ht⟩
  · rw [fields, words_eq_nil.mpr hp] at h
    cases h
  · rw [fields, List.append_assoc, words_sep_append hs, words_word_append hw ht] at h
    obtain ⟨rfl, rfl⟩ := List.cons.inj h
    exact ⟨t, nextTok_eq_some_iff.mpr ⟨s, List.append_assoc .., rfl, hs, hw, ht⟩, rfl⟩

/-! ## The number -/

private theorem digit_toNat {c : UInt8} (h : isDigit c = true) : 48 ≤ c.toNat ∧ c.toNat ≤ 57 := by
  simpa [isDigit, UInt8.le_iff_toNat_le] using h

private theorem digit_not_space {c : UInt8} (h : isDigit c = true) : isSpace c = false := by
  have hc := digit_toNat h
  simp only [isSpace, SP, Bool.or_eq_false_iff, decide_eq_false_iff_not, Bool.and_eq_false_iff,
    UInt8.le_iff_toNat_le, ← UInt8.toNat_inj]
  constructor
  · change ¬ c.toNat = 32; omega
  · right; change ¬ c.toNat ≤ 13; omega

private theorem digit_not_sign {c : UInt8} (h : isDigit c = true) : c ≠ MINUS ∧ c ≠ PLUS := by
  constructor <;> rintro rfl <;> revert h <;> decide

private theorem takeWhile_digits {ds junk : Bytes} (hds : ∀ c ∈ ds, isDigit c = true)
    (hj : ∀ c ∈ junk.head?, isDigit c = false) :
    (ds ++ junk).takeWhile isDigit = ds ∧ (ds ++ junk).dropWhile isDigit = junk := by
  rw [List.takeWhile_append_of_pos hds, List.dropWhile_append_of_pos hds]
  cases junk with
  | nil => simp
  | cons c junk => simp [hj c (by simp)]

private theorem dropWhile_blanks {blanks t : Bytes} (hb : ∀ c ∈ blanks, isSpace c = true)
    (ht : ∀ c ∈ t.head?, isSpace c = false) : (blanks ++ t).dropWhile isSpace = t := by
  rw [List.dropWhile_append_of_pos hb]
  cases t with
  | nil => rfl
  | cons c t => simp [ht c (by simp)]

/-- Blanks, a sign and a text that begins with a digit. -/
private theorem exists_number {blanks sign u : Bytes} (hb : ∀ c ∈ blanks, isSpace c = true)
    (hs : sign = [] ∨ sign = [PLUS] ∨ sign = [MINUS]) (hne : u.takeWhile isDigit ≠ []) :
    ∃ n : NumberText, n.Valid ∧ n.text = blanks ++ (sign ++ u) ∧ n.sign = sign ∧
      n.digits = u.takeWhile isDigit := by
  refine ⟨⟨blanks, sign, u.takeWhile isDigit, u.dropWhile isDigit⟩, ⟨hb, hs, hne, ?_, ?_⟩, ?_,
    rfl, rfl⟩
  · exact fun c hc => List.mem_takeWhile_imp hc
  · intro c hc
    have := List.head?_dropWhile_not isDigit u
    rw [Option.mem_def.mp hc] at this
    simpa using this
  · simp [NumberText.text]

/-- **Numbers.** `strtoull` skips blanks and a sign and reads digits up to the first
byte that is none, whatever follows. -/
theorem strtoull_eq_some_iff {s : Bytes} {v : Nat} :
    strtoull s = some v ↔ ∃ n : NumberText, n.Valid ∧ n.text = s ∧ n.value = v := by
  constructor
  · intro h
    have hblanks : ∀ c ∈ s.takeWhile isSpace, isSpace c = true := fun c hc =>
      List.mem_takeWhile_imp hc
    have hs : s.takeWhile isSpace ++ s.dropWhile isSpace = s := List.takeWhile_append_dropWhile
    simp only [strtoull, Option.ite_none_left_eq_some, Option.some.injEq] at h
    obtain ⟨hne, hv⟩ := h
    generalize s.dropWhile isSpace = t at hne hv hs
    -- the byte after the blanks decides where the digits start
    rcases t with _ | ⟨c, u⟩
    · simp at hne
    by_cases hm : c = MINUS
    · subst hm
      simp only [List.head?_cons, MINUS, true_or, ↓reduceIte, List.tail_cons] at hne hv
      obtain ⟨n, hn, ht, hsign, hd⟩ := exists_number hblanks (.inr (.inr rfl)) hne
      exact ⟨n, hn, ht.trans hs, by rw [NumberText.value, hsign, hd, if_pos rfl]; exact hv⟩
    by_cases hp : c = PLUS
    · subst hp
      simp only [List.head?_cons, PLUS, or_true, ↓reduceIte, List.tail_cons] at hne hv
      obtain ⟨n, hn, ht, hsign, hd⟩ := exists_number hblanks (.inr (.inl rfl)) hne
      exact ⟨n, hn, ht.trans hs, by rw [NumberText.value, hsign, hd]; exact hv⟩
    · have hm' : ¬ c = 45 := hm
      have hp' : ¬ c = 43 := hp
      simp only [List.head?_cons, Option.some.injEq, hm', hp', or_self, ↓reduceIte] at hne hv
      obtain ⟨n, hn, ht, hsign, hd⟩ := exists_number hblanks (.inl rfl) hne
      exact ⟨n, hn, ht.trans hs, by rw [NumberText.value, hsign, hd]; exact hv⟩
  · rintro ⟨n, hn, rfl, rfl⟩
    obtain ⟨d, ds, hd⟩ := List.exists_cons_of_ne_nil hn.digits_ne
    have hdig : isDigit d = true := hn.digits d (by simp [hd])
    have hread := (takeWhile_digits hn.digits hn.junk).1
    have hdrop : n.text.dropWhile isSpace = n.sign ++ (n.digits ++ n.junk) := by
      apply dropWhile_blanks hn.blanks
      intro c hc
      rcases hn.sign with hs | hs | hs
      · obtain rfl : d = c := by simpa [hs, hd] using hc
        exact digit_not_space hdig
      · obtain rfl : PLUS = c := by simpa [hs] using hc
        rfl
      · obtain rfl : MINUS = c := by simpa [hs] using hc
        rfl
    have hfirst : d ≠ 45 ∧ d ≠ 43 := digit_not_sign hdig
    rcases hn.sign with hs | hs | hs
    · have hhead : (n.digits ++ n.junk).head? = some d := by simp [hd]
      simp [strtoull, hdrop, hs, hhead, hfirst.1, hfirst.2, hread, hn.digits_ne, NumberText.value]
    · simp [strtoull, hdrop, hs, hread, hn.digits_ne, NumberText.value, PLUS, MINUS]
    · simp [strtoull, hdrop, hs, hread, hn.digits_ne, NumberText.value, MINUS]

/-! ## The whole body -/

/-- The fields of an accepted text are read one after the other. -/
private theorem tokens_of_valid {b : BodyText} {maxIfaceLen maxIpLen : Nat}
    (hb : b.Valid maxIfaceLen maxIpLen) :
    nextTok b.text = some (b.iface, b.iface ++ b.afterIface, b.afterIface) ∧
      nextTok b.afterIface = some (b.src, b.src ++ b.afterSrc, b.afterSrc) ∧
      nextTok b.afterSrc = some (b.dst, b.dst ++ b.afterDst, b.afterDst) := by
  have hsep : ∀ s t : Bytes, BodyText.Separators s ∧ s ≠ [] →
      ∀ c ∈ (s ++ t).head?, isSep c = true := by
    rintro s t ⟨hs, hne⟩ c hc
    rw [List.head?_append_of_ne_nil _ hne] at hc
    exact hs c (List.mem_of_head? hc)
  refine ⟨nextTok_eq_some_iff.mpr ⟨b.s0, rfl, rfl, hb.s0, hb.iface.1, hsep _ _ hb.s1⟩,
    nextTok_eq_some_iff.mpr ⟨b.s1, rfl, rfl, hb.s1.1, hb.src.1, hsep _ _ hb.s2⟩,
    nextTok_eq_some_iff.mpr ⟨b.s2, rfl, rfl, hb.s2.1, hb.dst.1, hsep _ _ hb.s3⟩⟩

private theorem text_ne_nil {n : NumberText} (hn : n.Valid) : n.text ≠ [] := by
  simp [NumberText.text, hn.digits_ne]

/-- The fourth field begins where the number text does. -/
private theorem number_token {b : BodyText} {maxIfaceLen maxIpLen : Nat}
    (hb : b.Valid maxIfaceLen maxIpLen) :
    ∃ tok rest, nextTok b.afterDst = some (tok, b.number.text, rest) := by
  rcases exists_word isSep b.number.text with hp | ⟨s, w, t, he, hs, hw, ht⟩
  · obtain ⟨c, u, hc⟩ := List.exists_cons_of_ne_nil (text_ne_nil hb.number)
    have := hb.head c (by simp [hc])
    rw [hp c (by simp [hc])] at this
    cases this
  · obtain rfl : s = [] := by
      rcases s with _ | ⟨c, s⟩
      · rfl
      · have := hb.head c (by simp [he])
        rw [hs c (by simp)] at this
        cases this
    exact ⟨w, t, nextTok_eq_some_iff.mpr ⟨b.s3, rfl, he, hb.s3.1, hw, ht⟩⟩

/-- **What the parser accepts.** Three fields within their limits and a number in
range, wherever in the rest of the body it ends. -/
theorem parseDataLine_eq_some_iff {line : Bytes} {maxIfaceLen maxIpLen : Nat} {m : PacketMeta} :
    parseDataLine line maxIfaceLen maxIpLen = some m ↔
      ∃ b : BodyText, b.Valid maxIfaceLen maxIpLen ∧ b.text = line ∧ b.packet = m := by
  constructor
  · intro h
    simp only [parseDataLine, Option.bind_eq_bind, Option.bind_eq_some_iff, Prod.exists] at h
    obtain ⟨iface, _, p1, hi, src, _, p2, hs, dst, _, p3, hd, num, bb, rest, hn, h⟩ := h
    split at h
    · cases h
    · rename_i hlen
      obtain ⟨v, hv, h⟩ := Option.bind_eq_some_iff.mp h
      split at h
      · cases h
      · rename_i hrange
        obtain ⟨n, hvalid, rfl, rfl⟩ := strtoull_eq_some_iff.mp hv
        obtain ⟨s0, rfl, rfl, hs0, hwi, hp1⟩ := nextTok_eq_some_iff.mp hi
        obtain ⟨s1, rfl, rfl, hs1, hws, hp2⟩ := nextTok_eq_some_iff.mp hs
        obtain ⟨s2, rfl, rfl, hs2, hwd, hp3⟩ := nextTok_eq_some_iff.mp hd
        obtain ⟨s3, rfl, hbb, hs3, hwn, _⟩ := nextTok_eq_some_iff.mp hn
        have hstart : ∀ {s w t : Bytes}, IsWord isSep w →
            (∀ c ∈ (s ++ (w ++ t)).head?, isSep c = true) → s ≠ [] := by
          rintro s w t hw hc rfl
          obtain ⟨x, w', rfl⟩ := List.exists_cons_of_ne_nil hw.1
          have := hc x (by simp)
          rw [hw.2 x (by simp)] at this
          cases this
        simp only [not_or, not_lt] at hlen
        refine ⟨⟨s0, iface, s1, src, s2, dst, s3, n⟩,
          ⟨hs0, ⟨hs1, hstart hws hp1⟩, ⟨hs2, hstart hwd hp2⟩, ⟨hs3, ?_⟩, ⟨hwi, hlen.1⟩,
            ⟨hws, hlen.2.1⟩, ⟨hwd, hlen.2.2⟩, hvalid, ?_, Nat.not_lt.mp hrange⟩, rfl, ?_⟩
        · rw [hbb] at hp3
          exact hstart hwn hp3
        · intro c hc
          change c ∈ n.text.head? at hc
          rw [hbb, List.head?_append_of_ne_nil _ hwn.1] at hc
          exact hwn.2 c (List.mem_of_head? hc)
        · exact Option.some.inj h
  · rintro ⟨b, hb, rfl, rfl⟩
    obtain ⟨e1, e2, e3⟩ := tokens_of_valid hb
    obtain ⟨tok, rest, e4⟩ := number_token hb
    have e5 := strtoull_eq_some_iff.mpr ⟨b.number, hb.number, rfl, rfl⟩
    have hlen : ¬ (b.iface.length > orDefault maxIfaceLen kMaxIfaceLabelLen ∨
        b.src.length > orDefault maxIpLen kMaxIpLabelLen ∨
        b.dst.length > orDefault maxIpLen kMaxIpLabelLen) := by
      have := hb.iface.2
      have := hb.src.2
      have := hb.dst.2
      omega
    have hrange : ¬ b.number.value > 2 ^ 32 - 1 := Nat.not_lt.mpr hb.range
    simp only [parseDataLine, e1, Option.bind_eq_bind, Option.bind_some, e2, e3, e4, e5, hlen,
      ↓reduceIte, hrange, BodyText.packet]

/-! ## The grammar over the same texts -/

private theorem fields_of_valid {b : BodyText} {maxIfaceLen maxIpLen : Nat}
    (hb : b.Valid maxIfaceLen maxIpLen) :
    fields b.text = b.iface :: b.src :: b.dst :: fields b.number.text := by
  obtain ⟨e1, e2, e3⟩ := tokens_of_valid hb
  rw [fields_of_nextTok e1, fields_of_nextTok e2, fields_of_nextTok e3, BodyText.afterDst, fields,
    words_sep_append hb.s3.1, fields]

/-- A number text whose only field is made of digits is those digits and separators. -/
private theorem plain_of_fields {n : NumberText} {d : Bytes} (hn : n.Valid)
    (hhead : ∀ c ∈ n.text.head?, isSep c = false) (hf : fields n.text = [d])
    (hd : ∀ c ∈ d, isDigit c = true) : n.Plain ∧ n.digits = d := by
  obtain ⟨rest, htok, hrest⟩ := nextTok_of_fields hf
  obtain ⟨s, he, -, hs, hw, ht⟩ := nextTok_eq_some_iff.mp htok
  obtain ⟨x, d', rfl⟩ := List.exists_cons_of_ne_nil hw.1
  have hsep : ∀ c ∈ rest, isSep c = true := words_eq_nil.mp hrest
  obtain rfl : s = [] := by
    rcases s with _ | ⟨c, s⟩
    · rfl
    · have := hhead c (by simp [he])
      rw [hs c (by simp)] at this
      cases this
  have hx : isDigit x = true := hd x (by simp)
  have hblanks : n.blanks = [] := by
    rcases hb : n.blanks with _ | ⟨c, t⟩
    · rfl
    · have hc := hn.blanks c (by simp [hb])
      obtain rfl : c = x := by
        have : (n.text).head? = some c := by simp [NumberText.text, hb]
        simpa [he] using this.symm
      rw [digit_not_space hx] at hc
      cases hc
  have hsign : n.sign = [] := by
    have hno := digit_not_sign hx
    rcases hn.sign with hs' | hs' | hs'
    · exact hs'
    · have : n.text.head? = some PLUS := by simp [NumberText.text, hblanks, hs']
      exact absurd (by simpa [he] using this) hno.2
    · have : n.text.head? = some MINUS := by simp [NumberText.text, hblanks, hs']
      exact absurd (by simpa [he] using this) hno.1
  have hjunk : ∀ c ∈ rest.head?, isDigit c = false := by
    intro c hc
    cases hdc : isDigit c with
    | false => rfl
    | true =>
      have := isSep_of_isDigit hdc
      rw [ht c hc] at this
      cases this
  have htext : n.digits ++ n.junk = (x :: d') ++ rest := by
    simpa [NumberText.text, hblanks, hsign] using he
  have h1 := takeWhile_digits hn.digits hn.junk
  have h2 := takeWhile_digits hd hjunk
  rw [htext] at h1
  refine ⟨⟨hblanks, hsign, ?_⟩, h1.1.symm.trans h2.1⟩
  rw [← h1.2, h2.2]
  exact hsep

private theorem value_of_plain {n : NumberText} (hp : n.Plain) (hr : n.value ≤ UINT32_MAX) :
    n.value = digitsValue n.digits ∧ digitsValue n.digits ≤ UINT32_MAX := by
  have hs : ¬ n.sign = [MINUS] := by simp [hp.2.1]
  simp only [NumberText.value, hs, ↓reduceIte, UINT32_MAX] at hr ⊢
  split at hr
  · omega
  · rename_i hlt
    rw [if_neg hlt]
    exact ⟨rfl, hr⟩

private theorem fields_of_plain {n : NumberText} (hn : n.Valid) (hp : n.Plain) :
    fields n.text = [n.digits] := by
  have hword : IsWord isSep n.digits := ⟨hn.digits_ne, fun c hc => isSep_of_isDigit (hn.digits c hc)⟩
  have hjunk : ∀ c ∈ n.junk.head?, isSep c = true := fun c hc => hp.2.2 c (List.mem_of_head? hc)
  rw [fields, NumberText.text, hp.1, hp.2.1, List.nil_append, List.nil_append,
    words_word_append hword hjunk, words_eq_nil.mpr hp.2.2]

/-- A body of the grammar is an accepted text with nothing but its digits in the number. -/
theorem grammar_eq_some {line : Bytes} {maxIfaceLen maxIpLen : Nat} {m : PacketMeta}
    (h : grammar line maxIfaceLen maxIpLen = some m) :
    parseDataLine line maxIfaceLen maxIpLen = some m := by
  simp only [grammar] at h
  split at h
  · rename_i iface src dst num hf
    split at h
    · rename_i hok
      obtain ⟨hi, hs, hd, hne, hdig, hr⟩ := hok
      obtain rfl := Option.some.inj h
      obtain ⟨p1, e1, hf⟩ := nextTok_of_fields hf
      obtain ⟨p2, e2, hf⟩ := nextTok_of_fields hf
      obtain ⟨p3, e3, hf⟩ := nextTok_of_fields hf
      obtain ⟨p4, e4, hf⟩ := nextTok_of_fields hf
      obtain ⟨_, _, _, _, _, h4⟩ := nextTok_eq_some_iff.mp e4
      have hjunk : ∀ c ∈ p4.head?, isDigit c = false := by
        intro c hc
        cases hdc : isDigit c with
        | false => rfl
        | true =>
          have := isSep_of_isDigit hdc
          rw [h4 c hc] at this
          cases this
      have e5 : strtoull (num ++ p4) = some (digitsValue num) := by
        refine strtoull_eq_some_iff.mpr ⟨⟨[], [], num, p4⟩,
          ⟨by simp, .inl rfl, hne, hdig, hjunk⟩, rfl, ?_⟩
        simp only [UINT32_MAX] at hr
        simp only [NumberText.value]
        rw [if_neg (by omega)]
        rfl
      have hlen : ¬ (iface.length > orDefault maxIfaceLen kMaxIfaceLabelLen ∨
          src.length > orDefault maxIpLen kMaxIpLabelLen ∨
          dst.length > orDefault maxIpLen kMaxIpLabelLen) := by omega
      have hrange : ¬ digitsValue num > 2 ^ 32 - 1 := Nat.not_lt.mpr hr
      simp only [parseDataLine, e1, Option.bind_eq_bind, Option.bind_some, e2, e3, e4, e5, hlen,
        ↓reduceIte, hrange]
    · cases h
  · cases h

/-- **The grammar on an accepted text.** It asks for the record the parser returns when
the number is plain, and for a failure otherwise. -/
theorem grammar_of_valid {b : BodyText} {maxIfaceLen maxIpLen : Nat}
    (hb : b.Valid maxIfaceLen maxIpLen) :
    (b.number.Plain → grammar b.text maxIfaceLen maxIpLen = some b.packet) ∧
      (¬ b.number.Plain → grammar b.text maxIfaceLen maxIpLen = none) := by
  have hf := fields_of_valid hb
  constructor
  · intro hp
    obtain ⟨hv, hr⟩ := value_of_plain hp hb.range
    rw [fields_of_plain hb.number hp] at hf
    have hok : b.iface.length ≤ orDefault maxIfaceLen kMaxIfaceLabelLen ∧
        b.src.length ≤ orDefault maxIpLen kMaxIpLabelLen ∧
        b.dst.length ≤ orDefault maxIpLen kMaxIpLabelLen ∧ IsU32 b.number.digits :=
      ⟨hb.iface.2, hb.src.2, hb.dst.2, hb.number.digits_ne, hb.number.digits, hr⟩
    simp only [grammar, hf, hok, and_self, ↓reduceIte, BodyText.packet, hv]
  · intro hp
    rcases h : grammar b.text maxIfaceLen maxIpLen with _ | m
    · rfl
    · simp only [grammar, hf] at h
      split at h
      · rename_i iface src dst num he
        split at h
        · rename_i hok
          simp only [List.cons.injEq] at he
          exact absurd (plain_of_fields hb.number hb.head he.2.2.2 hok.2.2.2.2.1).1 hp
        · cases h
      · cases h

/-- **Parser and grammar.** For every body and all limits the parser does what the
grammar asks, unless the body is a lenient one. -/
theorem parse_iff_grammar (line : Bytes) (maxIfaceLen maxIpLen : Nat) :
    (∀ out, parseInto line out maxIfaceLen maxIpLen = asked line out maxIfaceLen maxIpLen) ↔
      ¬ Lenient line maxIfaceLen maxIpLen := by
  constructor
  · rintro h ⟨b, rfl, hb, hp⟩
    have hparse := parseDataLine_eq_some_iff.mpr ⟨b, hb, rfl, rfl⟩
    have := h b.packet
    simp only [parseInto, hparse, asked, (grammar_of_valid hb).2 hp, Prod.mk.injEq,
      Bool.true_eq_false, false_and] at this
  · intro h out
    rcases hparse : parseDataLine line maxIfaceLen maxIpLen with _ | m
    · have hg : grammar line maxIfaceLen maxIpLen = none := by
        rcases hg : grammar line maxIfaceLen maxIpLen with _ | m
        · rfl
        · rw [grammar_eq_some hg] at hparse
          cases hparse
      simp only [parseInto, asked, hparse, hg]
    · obtain ⟨b, hb, rfl, rfl⟩ := parseDataLine_eq_some_iff.mp hparse
      have hp : b.number.Plain := by
        by_contra hp
        exact h ⟨b, rfl, hb, hp⟩
      simp only [parseInto, asked, hparse, (grammar_of_valid hb).1 hp]

/-- A sign, a wrapped number, a byte behind the digits and a fifth field: the body is
accepted as one of a single byte. -/
theorem signed_number_accepted :
    parseInto (ascii "en0 10.0.0.2 1.1.1.1 -18446744073709551615x 7") ⟨[], [], [], 9⟩ 0 0 =
        (true, ⟨ascii "en0", ascii "10.0.0.2", ascii "1.1.1.1", 1⟩) ∧
      asked (ascii "en0 10.0.0.2 1.1.1.1 -18446744073709551615x 7") ⟨[], [], [], 9⟩ 0 0 =
        (false, ⟨[], [], [], 9⟩) := by
  decide +kernel

end TrafficMonitor.DLineGrammar
