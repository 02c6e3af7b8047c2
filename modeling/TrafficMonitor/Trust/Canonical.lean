import TrafficMonitor.Trust.Verify

/-!
# The texts of delegations and bundles are canonical

`parseDelegation` and `parseBundle` accept one text for each value, and only texts whose
lines stand in the order of the grammar, each of them once.

Proved here:

* `text_of_parseDelegation`: printing what was read from a document gives the document back;
* `strict_of_parseDelegation`, `strict_of_parseBundle`: the lines of what is accepted;
* `parsers_canonical`: the accepted texts of both formats and of base64.

The grammar has documents that are refused, with a version of 19 digits for example
(`version_of_nineteen_digits`), or with an expiry before the year 2000.
-/

namespace TrafficMonitor.Trust

open Bytes Base64

/-! ## Printing -/

/-- The document of a delegation that was read. -/
def Delegation.document (d : Delegation) : Document := ⟨d.version, Time.ofUnix d.expires, d.keys⟩

def Delegation.text (d : Delegation) : Bytes := d.document.text

theorem document_delegation {isMlDsa65Spki : Bytes → Bool} {d : Document}
    (h : d.WellFormed isMlDsa65Spki) : d.delegation.document = d := by
  simp only [Document.delegation, Delegation.document, Time.ofUnix_unix h.expires]

theorem text_of_parseDelegation {isMlDsa65Spki : Bytes → Bool} {doc : Bytes} {dl : Delegation}
    (h : parseDelegation isMlDsa65Spki doc = .ok dl) : dl.text = doc := by
  obtain ⟨-, d, hd, -, rfl, rfl⟩ := parseDelegation_eq_ok.mp h
  rw [Delegation.text, document_delegation hd]

/-! ## Lines -/

/-- What stands before the first colon of a line. -/
def keyword (l : Bytes) : Bytes := l.takeWhile (· ≠ COLON)

private theorem takeWhile_ne {b : UInt8} {k : Bytes} (h : b ∉ k) (s : Bytes) :
    (k ++ b :: s).takeWhile (· ≠ b) = k := by
  have hk : ∀ c ∈ k, decide (c ≠ b) = true := by
    intro c hc
    simpa using fun e : c = b => h (e ▸ hc)
  rw [List.takeWhile_append_of_pos hk]
  simp

/-- A line that begins with a word, a colon and a blank. -/
theorem keyword_append {p k : Bytes} (hp : p = k ++ [COLON, SP]) (h : COLON ∉ k) (s : Bytes) :
    keyword (p ++ s) = k := by
  rw [hp, List.append_assoc, List.cons_append, keyword, takeWhile_ne h]

/-- The text is made of lines with these keywords in this order, no line stands twice, each is
ended by a line feed, and none holds a carriage return or a zero byte. -/
def Strict (keywords : List Bytes) (s : Bytes) : Prop :=
  ∃ ls, s = Lines.join LF ls ∧ ls.map keyword = keywords ∧ ls.Nodup ∧ ∀ l ∈ ls, IsLine l

def delegationKeywords (n : Nat) : List Bytes :=
  [ascii "ntm-delegation 1", ascii "version", ascii "expires"] ++ List.replicate n (ascii "key")

def bundleKeywords (n : Nat) : List Bytes :=
  [ascii "NTMSIG 2", ascii "delegation"] ++ List.replicate n (ascii "root-sig") ++
    [ascii "key-id", ascii "signature"]

theorem Strict.not_mem {ks : List Bytes} {s : Bytes} (h : Strict ks s) : CR ∉ s ∧ NUL ∉ s := by
  obtain ⟨ls, rfl, -, -, hl⟩ := h
  have hne : ∀ c, c ≠ LF → (∀ l ∈ ls, c ∉ l) → c ∉ Lines.join LF ls := by
    intro c hc hls hm
    obtain ⟨l, hl, hm⟩ := List.mem_flatMap.mp hm
    rcases List.mem_append.mp hm with hm | hm
    · exact hls l hl hm
    · exact hc (by simpa using hm)
  exact ⟨hne CR (by decide) fun l h => (hl l h).2.2.1,
    hne NUL (by decide) fun l h => (hl l h).2.2.2⟩

theorem Strict.getLast? {ks : List Bytes} {s : Bytes} (h : Strict ks s) (hne : ks ≠ []) :
    s.getLast? = some LF := by
  obtain ⟨ls, rfl, rfl, -, -⟩ := h
  obtain ⟨init, l, rfl⟩ := List.eq_nil_or_concat ls |>.resolve_left (by simpa using hne)
  simp

private theorem keyword_keyLine (k : DelegatedKey) : keyword k.line = ascii "key" := by
  rw [DelegatedKey.line, List.append_assoc, List.append_assoc, List.append_assoc,
    List.append_assoc]
  exact keyword_append (by decide) (by decide) _

private theorem keyword_rootSigLine (p : Bytes × Bytes) :
    keyword (rootSigLine p) = ascii "root-sig" := by
  rw [rootSigLine, List.append_assoc, List.append_assoc]
  exact keyword_append (by decide) (by decide) _

private theorem map_keyword_const {α : Type} {f : α → Bytes} {k : Bytes}
    (h : ∀ x, keyword (f x) = k) (xs : List α) :
    (xs.map f).map keyword = List.replicate xs.length k := by
  rw [List.map_map, List.eq_replicate_iff]
  simp [h]

/-- Lines that begin with the same word and then have different fields. -/
private theorem nodup_lines {α : Type} {line : α → Bytes} (id : α → Bytes) {n : Nat} {xs : List α}
    (hline : ∀ x ∈ xs, ((line x).drop n).takeWhile (· ≠ SP) = id x) (h : (xs.map id).Nodup) :
    (xs.map line).Nodup := by
  refine List.Nodup.of_map (fun l => (l.drop n).takeWhile (· ≠ SP)) ?_
  rw [List.map_map]
  convert h using 1
  exact List.map_congr_left hline

private theorem takeWhile_id {s : Bytes} (h : isId s = true) (t : Bytes) :
    (s ++ SP :: t).takeWhile (· ≠ SP) = s := takeWhile_ne (isId_field h).2 t

private theorem nodup_keyLines {isMlDsa65Spki : Bytes → Bool} {d : Document}
    (h : d.WellFormed isMlDsa65Spki) : (d.keys.map DelegatedKey.line).Nodup := by
  refine nodup_lines (·.id) (n := 5) ?_ h.ids
  intro k hk
  rw [DelegatedKey.line, List.append_assoc, List.append_assoc, List.append_assoc,
    List.append_assoc, List.drop_left' (by decide)]
  exact takeWhile_id (h.keys k hk).1 _

private theorem nodup_rootSigLines {b : Bundle} (h : b.WellFormed) :
    (b.rootSigs.map rootSigLine).Nodup := by
  refine nodup_lines (·.1) (n := 10) ?_ (nodup_of_ascending h)
  intro p hp
  rw [rootSigLine, List.append_assoc, List.append_assoc, List.drop_left' (by decide)]
  exact takeWhile_id (h.rootSigs p hp).1 _

theorem strict_document {isMlDsa65Spki : Bytes → Bool} {d : Document}
    (h : d.WellFormed isMlDsa65Spki) : Strict (delegationKeywords d.keys.length) d.text := by
  have hv : keyword (ascii "version: " ++ decimal d.version) = ascii "version" :=
    keyword_append (by decide) (by decide) _
  have he : keyword (ascii "expires: " ++ d.expires.text) = ascii "expires" :=
    keyword_append (by decide) (by decide) _
  have hh : keyword (ascii "ntm-delegation 1") = ascii "ntm-delegation 1" := by decide
  refine ⟨d.lines, rfl, ?_, ?_, isLine_document h⟩
  · rw [Document.lines, List.map_append, map_keyword_const keyword_keyLine]
    simp [delegationKeywords, hv, he, hh]
  · rw [Document.lines, List.nodup_append]
    refine ⟨?_, nodup_keyLines h, ?_⟩
    · refine List.Nodup.of_map keyword ?_
      simp only [List.map_cons, List.map_nil, hh, hv, he]
      decide
    · intro l hl m hm e
      obtain ⟨k, -, rfl⟩ := List.mem_map.mp hm
      have hk : keyword l = ascii "key" := e ▸ keyword_keyLine k
      simp only [List.mem_cons, List.not_mem_nil, or_false] at hl
      rcases hl with rfl | rfl | rfl
      · exact absurd (hh ▸ hk) (by decide)
      · exact absurd (hv ▸ hk) (by decide)
      · exact absurd (he ▸ hk) (by decide)

theorem strict_bundle {b : Bundle} (h : b.WellFormed) :
    Strict (bundleKeywords b.rootSigs.length) b.text := by
  have hd : keyword (ascii "delegation: " ++ encodeBlock b.document) = ascii "delegation" :=
    keyword_append (by decide) (by decide) _
  have hk : keyword (ascii "key-id: " ++ b.keyId) = ascii "key-id" :=
    keyword_append (by decide) (by decide) _
  have hs : keyword (ascii "signature: " ++ encodeBlock b.signature) = ascii "signature" :=
    keyword_append (by decide) (by decide) _
  have hh : keyword (ascii "NTMSIG 2") = ascii "NTMSIG 2" := by decide
  have hroot : ∀ l ∈ b.rootSigs.map rootSigLine, keyword l = ascii "root-sig" := by
    intro l hl
    obtain ⟨p, -, rfl⟩ := List.mem_map.mp hl
    exact keyword_rootSigLine p
  refine ⟨b.lines, rfl, ?_, ?_, isLine_bundle h⟩
  · rw [Bundle.lines, List.map_append, List.map_append, map_keyword_const keyword_rootSigLine]
    simp [bundleKeywords, hd, hk, hs, hh]
  · rw [Bundle.lines, List.append_assoc, List.nodup_append, List.nodup_append]
    refine ⟨?_, ⟨nodup_rootSigLines h, ?_, ?_⟩, ?_⟩
    · refine List.Nodup.of_map keyword ?_
      simp only [List.map_cons, List.map_nil, hh, hd]
      decide
    · refine List.Nodup.of_map keyword ?_
      simp only [List.map_cons, List.map_nil, hk, hs]
      decide
    · rintro l hl m hm rfl
      have hr := hroot l hl
      simp only [List.mem_cons, List.not_mem_nil, or_false] at hm
      rcases hm with rfl | rfl
      · exact absurd (hk ▸ hr) (by decide)
      · exact absurd (hs ▸ hr) (by decide)
    · rintro l hl m hm rfl
      have hm' : keyword l = ascii "root-sig" ∨ keyword l = ascii "key-id" ∨
          keyword l = ascii "signature" := by
        rcases List.mem_append.mp hm with hm | hm
        · exact .inl (hroot l hm)
        · simp only [List.mem_cons, List.not_mem_nil, or_false] at hm
          rcases hm with rfl | rfl
          · exact .inr (.inl hk)
          · exact .inr (.inr hs)
      simp only [List.mem_cons, List.not_mem_nil, or_false] at hl
      rcases hl with rfl | rfl
      · rw [hh] at hm'
        exact absurd hm' (by decide)
      · rw [hd] at hm'
        exact absurd hm' (by decide)

/-- The lines of an accepted document; its version has no leading zero. -/
theorem strict_of_parseDelegation {isMlDsa65Spki : Bytes → Bool} {doc : Bytes} {dl : Delegation}
    (h : parseDelegation isMlDsa65Spki doc = .ok dl) :
    (1 ≤ dl.keys.length ∧ dl.keys.length ≤ 8 ∧ Strict (delegationKeywords dl.keys.length) doc) ∧
      ∃ version rest, doc = ascii "ntm-delegation 1\nversion: " ++ version ++ LF :: rest ∧
        version = decimal dl.version ∧ version.head? ≠ some 48 := by
  obtain ⟨-, d, hd, hs, rfl, rfl⟩ := parseDelegation_eq_ok.mp h
  refine ⟨⟨hd.count.1, hd.count.2, strict_document hd⟩, decimal d.version,
    Lines.join LF ((ascii "expires: " ++ d.expires.text) :: d.keys.map DelegatedKey.line), ?_,
    rfl, decimal_head hs.1⟩
  simp only [Document.text, Document.lines, List.cons_append, List.nil_append, Lines.join_cons]
  rw [show ascii "ntm-delegation 1\nversion: " =
    ascii "ntm-delegation 1" ++ LF :: ascii "version: " by decide]
  simp only [List.append_assoc, List.cons_append]

theorem strict_of_parseBundle {bytes : Bytes} {b : Bundle} (h : parseBundle bytes = .ok b) :
    1 ≤ b.rootSigs.length ∧ b.rootSigs.length ≤ 3 ∧
      Strict (bundleKeywords b.rootSigs.length) bytes := by
  obtain ⟨-, hb, rfl⟩ := parseBundle_eq_ok.mp h
  exact ⟨hb.count.1, hb.count.2, strict_bundle hb⟩

/-! ## The accepted texts -/

/-- **Canonical texts.** A document is accepted exactly if it is in the grammar, with values
that the code supports, and is what its delegation is printed as; a bundle likewise; base64
has one encoding for each nonempty value. What is accepted has its lines in order, each of
them once, and ends with a line feed. -/
theorem parsers_canonical (isMlDsa65Spki : Bytes → Bool) :
    (∀ doc dl, parseDelegation isMlDsa65Spki doc = .ok dl ↔ doc.length ≤ kMaxDelegationBytes ∧
      ∃ d : Document, d.WellFormed isMlDsa65Spki ∧ d.Supported ∧ doc = d.text ∧
        dl = d.delegation) ∧
    (∀ doc dl, parseDelegation isMlDsa65Spki doc = .ok dl → dl.text = doc) ∧
    (∀ bytes b, parseBundle bytes = .ok b ↔
      bytes.length ≤ kMaxBundleBytes ∧ b.WellFormed ∧ bytes = b.text) ∧
    (∀ text out, b64Decode text = some out ↔ out ≠ [] ∧ text = encodeBlock out) ∧
    (∀ doc dl, parseDelegation isMlDsa65Spki doc = .ok dl →
      (1 ≤ dl.keys.length ∧ dl.keys.length ≤ 8 ∧ Strict (delegationKeywords dl.keys.length) doc ∧
        doc.getLast? = some LF ∧ CR ∉ doc) ∧
      ∃ version rest, doc = ascii "ntm-delegation 1\nversion: " ++ version ++ LF :: rest ∧
        version = decimal dl.version ∧ version.head? ≠ some 48) ∧
    ∀ bytes b, parseBundle bytes = .ok b → 1 ≤ b.rootSigs.length ∧ b.rootSigs.length ≤ 3 ∧
      Strict (bundleKeywords b.rootSigs.length) bytes ∧ bytes.getLast? = some LF ∧ CR ∉ bytes := by
  refine ⟨fun doc dl => parseDelegation_eq_ok, fun doc dl => text_of_parseDelegation,
    fun bytes b => parseBundle_eq_ok, fun text out => b64Decode_eq_some, ?_, ?_⟩
  · intro doc dl h
    obtain ⟨⟨h1, h8, hs⟩, hv⟩ := strict_of_parseDelegation h
    exact ⟨⟨h1, h8, hs, hs.getLast? (by simp [delegationKeywords]), hs.not_mem.1⟩, hv⟩
  · intro bytes b h
    obtain ⟨h1, h3, hs⟩ := strict_of_parseBundle h
    exact ⟨h1, h3, hs, hs.getLast? (by simp [bundleKeywords]), hs.not_mem.1⟩

/-- A version of 19 digits is a decimal number without leading zeros. -/
theorem version_of_nineteen_digits :
    (sampleDocument (10 ^ 18)).WellFormed allValid.isMlDsa65Spki ∧
      (sampleDocument (10 ^ 18)).text.length ≤ kMaxDelegationBytes ∧
      parseDelegation allValid.isMlDsa65Spki (sampleDocument (10 ^ 18)).text =
        .error (ascii "delegation: bad version") := by
  refine ⟨⟨⟨by decide, by decide, by decide, by decide, by decide, by decide⟩, by decide, by decide,
    by decide⟩, by decide +kernel, by decide +kernel⟩

end TrafficMonitor.Trust
