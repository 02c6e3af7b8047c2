import TrafficMonitor.Trust.Text
import TrafficMonitor.Trust.Values

/-!
# Delegation documents and signature bundles (`trust.hpp`)

A signature file is an `NTMSIG 2` bundle, which carries a delegation document. `parseBundle`
and `parseDelegation` are the code; `Bundle.text` and `Document.text` print a bundle and a
document in the grammar that the code documents.

Proved here:

* `parseBundle_eq_ok`: the accepted files are the printed bundles of at most 64 KiB;
* `parseDelegation_eq_ok`: the accepted documents are the printed ones of at most 48 KiB
  with a version from 1 up to 10^18 and an expiry from the year 2000 on;
* `length_document_le`: the document of a bundle has at most 48 KiB.
-/

namespace TrafficMonitor.Trust

open Bytes Base64

/-! ## The code -/

structure DelegatedKey where
  id : Bytes
  platform : Bytes
  spki : Bytes
  deriving DecidableEq

structure Delegation where
  version : Nat
  expires : Int
  keys : List DelegatedKey
  deriving DecidableEq

structure Bundle where
  document : Bytes
  rootSigs : List (Bytes × Bytes)
  keyId : Bytes
  signature : Bytes
  deriving DecidableEq

def kMaxBundleBytes : Nat := 64 * 1024
def kMaxDelegationBytes : Nat := 48 * 1024
def kMaxDelegatedKeys : Nat := 8
def kMaxRootSigs : Nat := 3

def takePrefix (line p : Bytes) : Option Bytes := stripPrefix p line

section Delegation

variable (isMlDsa65Spki : Bytes → Bool)

/-- One round of the key loop of `parseDelegation`, with the keys before it. -/
def parseKey (keys : List DelegatedKey) (line : Bytes) : Except Bytes DelegatedKey :=
  match (takePrefix line (ascii "key: ")).bind (splitFields · 4) with
  | some [id, platform, algorithm, text] =>
    if !isId id then .error (ascii "delegation: bad key id")
    else if !isKnownPlatform platform then .error (ascii "delegation: unknown platform")
    else if algorithm ≠ ascii "ML-DSA-65" then .error (ascii "delegation: unsupported algorithm")
    else match (b64Decode text).filter isMlDsa65Spki with
      | none => .error (ascii "delegation: key '" ++ id ++ ascii "' is not an ML-DSA-65 SPKI")
      | some spki =>
        if keys.any fun prev => prev.id = id then .error (ascii "delegation: duplicate key id")
        else .ok ⟨id, platform, spki⟩
  | _ => .error (ascii "delegation: bad key line")

def parseKeys (keys : List DelegatedKey) : List Bytes → Except Bytes (List DelegatedKey)
  | [] => .ok keys
  | line :: lines => do
    let k ← parseKey isMlDsa65Spki keys line
    parseKeys (keys ++ [k]) lines

def parseDelegation (doc : Bytes) : Except Bytes Delegation :=
  if kMaxDelegationBytes < doc.length then .error (ascii "delegation too large")
  else match splitLines doc with
  | none => .error (ascii "delegation: malformed lines")
  | some lines =>
    if lines.length < 4 || 3 + kMaxDelegatedKeys < lines.length then
      .error (ascii "delegation: wrong number of lines")
    else if lines.getD 0 [] ≠ ascii "ntm-delegation 1" then .error (ascii "delegation: bad header")
    else match (takePrefix (lines.getD 1 []) (ascii "version: ")).bind parseVersion with
    | none => .error (ascii "delegation: bad version")
    | some version =>
      match (takePrefix (lines.getD 2 []) (ascii "expires: ")).bind parseTime with
      | none => .error (ascii "delegation: bad expires")
      | some expires => do
        let keys ← parseKeys isMlDsa65Spki [] (lines.drop 3)
        .ok ⟨version, expires, keys⟩

end Delegation

def parseRootSigs (sigs : List (Bytes × Bytes)) : List Bytes → Except Bytes (List (Bytes × Bytes))
  | [] => .ok sigs
  | line :: lines =>
    match (takePrefix line (ascii "root-sig: ")).bind (splitFields · 2) with
    | some [id, text] =>
      match if isId id then b64Decode text else none with
      | none => .error (ascii "bundle: bad root-sig line")
      | some sig =>
        if sigs.getLast?.any fun back => !decide (back.1 < id) then
          .error (ascii "bundle: root-sig ids not strictly ascending")
        else parseRootSigs (sigs ++ [(id, sig)]) lines
    | _ => .error (ascii "bundle: bad root-sig line")

def parseBundle (bytes : Bytes) : Except Bytes Bundle :=
  if kMaxBundleBytes < bytes.length then .error (ascii "signature bundle too large")
  else match splitLines bytes with
  | none => .error (ascii "not an NTMSIG 2 signature bundle (legacy or corrupt .sig)")
  | some lines =>
    if lines.head? ≠ some (ascii "NTMSIG 2") then
      .error (ascii "not an NTMSIG 2 signature bundle (legacy or corrupt .sig)")
    else if lines.length < 5 || 4 + kMaxRootSigs < lines.length then
      .error (ascii "bundle: wrong number of lines")
    else match (takePrefix (lines.getD 1 []) (ascii "delegation: ")).bind b64Decode with
    | none => .error (ascii "bundle: bad delegation line")
    | some document => do
      let nRoot := lines.length - 4
      let rootSigs ← parseRootSigs [] ((lines.drop 2).take nRoot)
      match (takePrefix (lines.getD (2 + nRoot) []) (ascii "key-id: ")).filter isId with
      | none => .error (ascii "bundle: bad key-id line")
      | some keyId =>
        match (takePrefix (lines.getD (3 + nRoot) []) (ascii "signature: ")).bind b64Decode with
        | none => .error (ascii "bundle: bad signature line")
        | some signature => .ok ⟨document, rootSigs, keyId, signature⟩

/-! ## The grammar -/

def rootSigLine (p : Bytes × Bytes) : Bytes :=
  ascii "root-sig: " ++ p.1 ++ ascii " " ++ encodeBlock p.2

/-- The lines of a bundle, from the first one to the last. -/
def Bundle.lines (b : Bundle) : List Bytes :=
  [ascii "NTMSIG 2", ascii "delegation: " ++ encodeBlock b.document] ++
    b.rootSigs.map rootSigLine ++
    [ascii "key-id: " ++ b.keyId, ascii "signature: " ++ encodeBlock b.signature]

def Bundle.text (b : Bundle) : Bytes := Lines.join LF b.lines

/-- What the grammar asks of a bundle. No encoded value is empty. -/
structure Bundle.WellFormed (b : Bundle) : Prop where
  document : b.document ≠ []
  count : 1 ≤ b.rootSigs.length ∧ b.rootSigs.length ≤ 3
  rootSigs : ∀ p ∈ b.rootSigs, isId p.1 = true ∧ p.2 ≠ []
  ascending : (b.rootSigs.map (·.1)).Pairwise (· < ·)
  keyId : isId b.keyId = true
  signature : b.signature ≠ []

/-- A delegation document with its expiry as it is written. -/
structure Document where
  version : Nat
  expires : Time
  keys : List DelegatedKey
  deriving DecidableEq

def DelegatedKey.line (k : DelegatedKey) : Bytes :=
  ascii "key: " ++ k.id ++ ascii " " ++ k.platform ++ ascii " ML-DSA-65 " ++ encodeBlock k.spki

def Document.lines (d : Document) : List Bytes :=
  [ascii "ntm-delegation 1", ascii "version: " ++ decimal d.version,
    ascii "expires: " ++ d.expires.text] ++ d.keys.map DelegatedKey.line

def Document.text (d : Document) : Bytes := Lines.join LF d.lines

/-- What the grammar asks of a delegation document. -/
structure Document.WellFormed (isMlDsa65Spki : Bytes → Bool) (d : Document) : Prop where
  expires : d.expires.Valid
  count : 1 ≤ d.keys.length ∧ d.keys.length ≤ 8
  keys : ∀ k ∈ d.keys, isId k.id = true ∧ isKnownPlatform k.platform = true ∧
    isMlDsa65Spki k.spki = true ∧ k.spki ≠ []
  ids : (d.keys.map (·.id)).Nodup

/-- The versions and the years that the code takes. -/
def Document.Supported (d : Document) : Prop :=
  1 ≤ d.version ∧ d.version < 10 ^ 18 ∧ 2000 ≤ d.expires.year

def Document.delegation (d : Document) : Delegation := ⟨d.version, d.expires.unix, d.keys⟩

/-! ## Lines -/

/-- A text that may stand in a line. -/
def Clean (s : Bytes) : Prop := LF ∉ s ∧ CR ∉ s ∧ NUL ∉ s

theorem Clean.append {s t : Bytes} (hs : Clean s) (ht : Clean t) : Clean (s ++ t) :=
  ⟨by simp [hs.1, ht.1], by simp [hs.2.1, ht.2.1], by simp [hs.2.2, ht.2.2]⟩

instance decidableClean (s : Bytes) : Decidable (Clean s) := inferInstanceAs (Decidable (_ ∧ _))

theorem clean_encodeBlock (s : Bytes) : Clean (encodeBlock s) :=
  ⟨not_mem_encodeBlock (by decide) s, not_mem_encodeBlock (by decide) s,
    not_mem_encodeBlock (by decide) s⟩

theorem clean_decimal (n : Nat) : Clean (decimal n) :=
  ⟨not_mem_decimal (by decide) n, not_mem_decimal (by decide) n, not_mem_decimal (by decide) n⟩

theorem clean_padded (k n : Nat) : Clean (padded k n) := by
  have h : ∀ c ∈ padded k n, isDigit c = true := fun c hc => isDigit_of_mem_padded hc
  exact ⟨fun hc => absurd (h _ hc) (by decide), fun hc => absurd (h _ hc) (by decide),
    fun hc => absurd (h _ hc) (by decide)⟩

theorem clean_of_isId {s : Bytes} (h : isId s = true) : Clean s := by
  simp only [isId, Bool.and_eq_true, List.all_eq_true] at h
  exact ⟨fun hc => absurd (h.2 _ hc) (by decide), fun hc => absurd (h.2 _ hc) (by decide),
    fun hc => absurd (h.2 _ hc) (by decide)⟩

theorem isKnownPlatform_cases {p : Bytes} (h : isKnownPlatform p = true) :
    p = ascii "linux-amd64" ∨ p = ascii "windows-amd64" := by
  simpa [isKnownPlatform] using h

theorem clean_of_isKnownPlatform {p : Bytes} (h : isKnownPlatform p = true) : Clean p := by
  rcases isKnownPlatform_cases h with rfl | rfl <;> decide

theorem isField_of_isKnownPlatform {p : Bytes} (h : isKnownPlatform p = true) : IsField p := by
  rcases isKnownPlatform_cases h with rfl | rfl <;> exact ⟨by decide, by decide⟩

theorem clean_time (t : Time) : Clean t.text := by
  have hc : ∀ s ∈ [ascii "-", ascii "T", ascii ":", ascii "Z"], Clean s := by decide
  simp only [List.mem_cons, List.not_mem_nil, or_false, forall_eq_or_imp, forall_eq] at hc
  obtain ⟨hd, ht, hk, hz⟩ := hc
  unfold Time.text
  exact (((((((((((clean_padded 4 _).append hd).append (clean_padded 2 _)).append hd).append
    (clean_padded 2 _)).append ht).append (clean_padded 2 _)).append hk).append
    (clean_padded 2 _)).append hk).append (clean_padded 2 _)).append hz

/-- A line that begins with a fixed word. -/
private theorem isLine_append {p s : Bytes} (hp : p ≠ [] ∧ Clean p) (hs : Clean s) :
    IsLine (p ++ s) :=
  ⟨by simp [hp.1], hp.2.append hs⟩

theorem takePrefix_eq_some {line p rest : Bytes} :
    takePrefix line p = some rest ↔ line = p ++ rest := stripPrefix_eq_some

private theorem bind_takePrefix {α : Type} {line p : Bytes} {f : Bytes → Option α} {x : α} :
    (takePrefix line p).bind f = some x ↔ ∃ rest, line = p ++ rest ∧ f rest = some x := by
  simp [Option.bind_eq_some_iff, takePrefix_eq_some]

theorem bind_eq_ok {α β : Type} {x : Except Bytes α} {f : α → Except Bytes β} {b : β} :
    (do let a ← x; f a) = .ok b ↔ ∃ a, x = .ok a ∧ f a = .ok b := by
  cases x <;> simp [bind, Except.bind]

/-! ## Documents -/

section Document

variable {isMlDsa65Spki : Bytes → Bool}

private theorem parseKey_eq_ok {keys : List DelegatedKey} {line : Bytes} {k : DelegatedKey} :
    parseKey isMlDsa65Spki keys line = .ok k ↔ line = k.line ∧
      (isId k.id = true ∧ isKnownPlatform k.platform = true ∧ isMlDsa65Spki k.spki = true ∧
        k.spki ≠ []) ∧ ∀ prev ∈ keys, prev.id ≠ k.id := by
  constructor
  · intro h
    unfold parseKey at h
    split at h
    · rename_i id platform algorithm text hf
      obtain ⟨rest, rfl, hf⟩ := bind_takePrefix.mp hf
      obtain ⟨-, f, fs, hfs, rfl, -⟩ := splitFields_eq_some.mp hf
      cases hfs
      split at h
      · cases h
      · rename_i hid
        split at h
        · cases h
        · rename_i hpl
          split at h
          · cases h
          · rename_i halg
            split at h
            · cases h
            · rename_i spki hs
              split at h
              · cases h
              · rename_i hdup
                cases h
                obtain ⟨hs, hml⟩ := Option.filter_eq_some_iff.mp hs
                obtain ⟨hne, rfl⟩ := b64Decode_eq_some.mp hs
                simp only [Bool.not_eq_true', Bool.not_eq_false, not_not] at hid hpl halg
                subst halg
                refine ⟨by simp [DelegatedKey.line, ascii, SP], ⟨hid, hpl, hml, hne⟩, ?_⟩
                simpa using hdup
    · cases h
  · rintro ⟨rfl, ⟨hid, hpl, hml, hne⟩, hdup⟩
    have hf : (takePrefix k.line (ascii "key: ")).bind (splitFields · 4) =
        some [k.id, k.platform, ascii "ML-DSA-65", encodeBlock k.spki] := by
      rw [bind_takePrefix]
      refine ⟨k.id ++ ascii " " ++ k.platform ++ ascii " ML-DSA-65 " ++ encodeBlock k.spki,
        by simp [DelegatedKey.line], ?_⟩
      rw [splitFields_eq_some]
      refine ⟨rfl, _, _, rfl, by simp [ascii, SP], ?_⟩
      intro g hg
      simp only [List.mem_cons, List.not_mem_nil, or_false] at hg
      rcases hg with rfl | rfl | rfl | rfl
      · exact isId_field hid
      · exact isField_of_isKnownPlatform hpl
      · exact ⟨by decide, by decide⟩
      · exact encodeBlock_field hne
    have hs : (b64Decode (encodeBlock k.spki)).filter isMlDsa65Spki = some k.spki := by
      rw [Option.filter_eq_some_iff]
      exact ⟨b64Decode_eq_some.mpr ⟨hne, rfl⟩, hml⟩
    have hd : (keys.any fun prev => prev.id = k.id) = false := by simpa using hdup
    simp [parseKey, hf, hid, hpl, hs, hd]

private theorem parseKeys_eq_ok {keys out : List DelegatedKey} {lines : List Bytes}
    (hk : (keys.map (·.id)).Nodup) : parseKeys isMlDsa65Spki keys lines = .ok out ↔
      ∃ new, out = keys ++ new ∧ lines = new.map DelegatedKey.line ∧
        (∀ k ∈ new, isId k.id = true ∧ isKnownPlatform k.platform = true ∧
          isMlDsa65Spki k.spki = true ∧ k.spki ≠ []) ∧ ((keys ++ new).map (·.id)).Nodup := by
  induction lines generalizing keys with
  | nil =>
    constructor
    · intro h
      cases h
      exact ⟨[], by simp, rfl, by simp, by simpa using hk⟩
    · rintro ⟨new, rfl, hl, -, -⟩
      obtain rfl : new = [] := by simpa using hl.symm
      simp [parseKeys]
  | cons line lines ih =>
    have hnew : ∀ k : DelegatedKey, (∀ prev ∈ keys, prev.id ≠ k.id) →
        ((keys ++ [k]).map (·.id)).Nodup := by
      intro k hd
      rw [List.map_append, List.nodup_append]
      refine ⟨hk, by simp, ?_⟩
      intro a ha b hb
      obtain ⟨prev, hp, rfl⟩ := List.mem_map.mp ha
      simp only [List.map_cons, List.map_nil, List.mem_singleton] at hb
      exact hb ▸ hd prev hp
    constructor
    · intro h
      rw [parseKeys, bind_eq_ok] at h
      obtain ⟨k, hp, h⟩ := h
      obtain ⟨rfl, hok, hd⟩ := parseKey_eq_ok.mp hp
      obtain ⟨new, rfl, rfl, hall, hn⟩ := (ih (hnew k hd)).mp h
      refine ⟨k :: new, by simp, rfl, ?_, by simpa using hn⟩
      simpa using ⟨hok, hall⟩
    · rintro ⟨new, rfl, hl, hall, hn⟩
      obtain ⟨k, new', rfl, rfl, rfl⟩ := List.map_eq_cons_iff.mp hl.symm
      have hd : ∀ prev ∈ keys, prev.id ≠ k.id := by
        rw [List.map_append, List.nodup_append] at hn
        intro prev hp
        exact hn.2.2 _ (List.mem_map_of_mem hp) _ (by simp)
      have hp := parseKey_eq_ok.mpr ⟨rfl, hall k (by simp), hd⟩
      rw [parseKeys, bind_eq_ok]
      exact ⟨k, hp, (ih (hnew k hd)).mpr ⟨new', by simp, rfl, fun j hj => hall j (by simp [hj]),
        by simpa using hn⟩⟩

/-- The lines of a document are lines. -/
theorem isLine_document {d : Document} (h : d.WellFormed isMlDsa65Spki) :
    ∀ l ∈ d.lines, IsLine l := by
  intro l hl
  simp only [Document.lines, List.mem_append, List.mem_cons, List.not_mem_nil, or_false,
    List.mem_map] at hl
  rcases hl with (rfl | rfl | rfl) | ⟨k, hk, rfl⟩
  · exact ⟨by decide, by decide⟩
  · exact isLine_append ⟨by decide, by decide⟩ (clean_decimal _)
  · exact isLine_append ⟨by decide, by decide⟩ (clean_time _)
  · obtain ⟨hid, hpl, -, -⟩ := h.keys k hk
    have hs : Clean (ascii " ") ∧ Clean (ascii " ML-DSA-65 ") := by decide
    rw [DelegatedKey.line, List.append_assoc, List.append_assoc, List.append_assoc,
      List.append_assoc]
    exact isLine_append ⟨by decide, by decide⟩ ((clean_of_isId hid).append
      (hs.1.append ((clean_of_isKnownPlatform hpl).append (hs.2.append (clean_encodeBlock _)))))

/-- **Documents.** -/
theorem parseDelegation_eq_ok {doc : Bytes} {dl : Delegation} :
    parseDelegation isMlDsa65Spki doc = .ok dl ↔ doc.length ≤ kMaxDelegationBytes ∧
      ∃ d : Document, d.WellFormed isMlDsa65Spki ∧ d.Supported ∧ doc = d.text ∧
        dl = d.delegation := by
  constructor
  · intro h
    unfold parseDelegation at h
    split at h
    · cases h
    · rename_i hlen
      split at h
      · cases h
      · rename_i lines hl
        obtain ⟨-, hdoc, -⟩ := splitLines_eq_some.mp hl
        split at h
        · cases h
        · rename_i hcount
          simp only [Bool.or_eq_true, decide_eq_true_eq, not_or, not_lt] at hcount
          obtain ⟨l₀, l₁, l₂, ls, rfl⟩ : ∃ l₀ l₁ l₂ ls, lines = l₀ :: l₁ :: l₂ :: ls := by
            rcases lines with _ | ⟨l₀, _ | ⟨l₁, _ | ⟨l₂, ls⟩⟩⟩
            · simp at hcount
            · simp at hcount
            · simp at hcount
            · exact ⟨l₀, l₁, l₂, ls, rfl⟩
          simp only [List.getD_cons_zero, List.getD_cons_succ, List.drop_succ_cons,
            List.drop_zero, List.length_cons] at h hcount
          split at h
          · cases h
          · rename_i hhead
            split at h
            · cases h
            · rename_i version hv
              split at h
              · cases h
              · rename_i expires he
                obtain ⟨keys, hk, hok⟩ := bind_eq_ok.mp h
                obtain ⟨vt, rfl, hpv⟩ := bind_takePrefix.mp hv
                obtain ⟨et, rfl, hpe⟩ := bind_takePrefix.mp he
                obtain ⟨rfl, hv1, hv2⟩ := parseVersion_eq_some.mp hpv
                obtain ⟨t, ht, hy, rfl, hx⟩ := parseTime_eq_some.mp hpe
                obtain ⟨new, hnew, rfl, hall, hn⟩ := (parseKeys_eq_ok (by simp)).mp hk
                rw [List.nil_append] at hnew hn
                simp only [List.length_map, kMaxDelegatedKeys] at hcount
                refine ⟨Nat.le_of_not_lt hlen, ⟨version, t, new⟩,
                  ⟨ht, ⟨by dsimp only; omega, by dsimp only; omega⟩, hall, hn⟩, ⟨hv1, hv2, hy⟩, ?_, ?_⟩
                · rw [hdoc, Document.text, not_not.mp hhead]
                  rfl
                · rw [← Except.ok.inj hok, hnew, hx, Document.delegation]
  · rintro ⟨hlen, d, hd, ⟨hv1, hv2, hy⟩, rfl, hdl⟩
    rw [hdl]
    have hl : splitLines d.text = some d.lines :=
      splitLines_eq_some.mpr ⟨by simp [Document.lines], rfl, isLine_document hd⟩
    have hcount : (d.lines.length < 4 || 3 + kMaxDelegatedKeys < d.lines.length) = false := by
      have := hd.count
      simp only [Document.lines, kMaxDelegatedKeys, List.length_append, List.length_cons,
        List.length_nil, List.length_map, Bool.or_eq_false_iff, decide_eq_false_iff_not]
      omega
    have hv : (takePrefix (ascii "version: " ++ decimal d.version) (ascii "version: ")).bind
        parseVersion = some d.version :=
      bind_takePrefix.mpr ⟨_, rfl, parseVersion_eq_some.mpr ⟨rfl, hv1, hv2⟩⟩
    have he : (takePrefix (ascii "expires: " ++ d.expires.text) (ascii "expires: ")).bind
        parseTime = some d.expires.unix :=
      bind_takePrefix.mpr ⟨_, rfl, parseTime_eq_some.mpr ⟨_, hd.expires, hy, rfl, rfl⟩⟩
    have hk : parseKeys isMlDsa65Spki [] (d.keys.map DelegatedKey.line) = .ok d.keys :=
      (parseKeys_eq_ok (by simp)).mpr ⟨d.keys, rfl, rfl, hd.keys, by simpa using hd.ids⟩
    rw [parseDelegation, if_neg (Nat.not_lt.mpr hlen), hl]
    simp only [hcount, Bool.false_eq_true, ↓reduceIte]
    simp only [Document.lines, List.cons_append, List.nil_append, List.getD_cons_zero,
      List.getD_cons_succ, List.drop_succ_cons, List.drop_zero, hv, he, ne_eq, not_true_eq_false,
      ↓reduceIte]
    exact bind_eq_ok.mpr ⟨d.keys, hk, rfl⟩

end Document

/-! ## Bundles -/

private theorem parseRootSigs_cons {sigs out : List (Bytes × Bytes)} {line : Bytes}
    {lines : List Bytes} : parseRootSigs sigs (line :: lines) = .ok out ↔
      ∃ p : Bytes × Bytes, line = rootSigLine p ∧ (isId p.1 = true ∧ p.2 ≠ []) ∧
        (∀ back ∈ sigs.getLast?, back.1 < p.1) ∧ parseRootSigs (sigs ++ [p]) lines = .ok out := by
  constructor
  · intro h
    unfold parseRootSigs at h
    split at h
    · rename_i id text hf
      obtain ⟨rest, rfl, hf⟩ := bind_takePrefix.mp hf
      obtain ⟨-, f, fs, hfs, rfl, -⟩ := splitFields_eq_some.mp hf
      cases hfs
      split at h
      · cases h
      · rename_i sig hs
        split at hs
        · rename_i hid
          obtain ⟨hne, rfl⟩ := b64Decode_eq_some.mp hs
          split at h
          · cases h
          · rename_i hasc
            refine ⟨(id, sig), by simp [rootSigLine, ascii, SP], ⟨hid, hne⟩, ?_, h⟩
            intro back hb
            rw [Option.mem_def.mp hb] at hasc
            simpa using hasc
        · cases hs
    · cases h
  · rintro ⟨⟨id, sig⟩, rfl, ⟨hid, hne⟩, hasc, h⟩
    have hf : (takePrefix (rootSigLine (id, sig)) (ascii "root-sig: ")).bind (splitFields · 2) =
        some [id, encodeBlock sig] := by
      rw [bind_takePrefix]
      refine ⟨id ++ ascii " " ++ encodeBlock sig, by simp [rootSigLine], ?_⟩
      rw [splitFields_eq_some]
      refine ⟨rfl, _, _, rfl, by simp [ascii, SP], ?_⟩
      intro g hg
      simp only [List.mem_cons, List.not_mem_nil, or_false] at hg
      rcases hg with rfl | rfl
      · exact isId_field hid
      · exact encodeBlock_field hne
    have hs : b64Decode (encodeBlock sig) = some sig := b64Decode_eq_some.mpr ⟨hne, rfl⟩
    have ha : (sigs.getLast?.any fun back => !decide (back.1 < id)) = false := by
      cases hl : sigs.getLast? with
      | none => rfl
      | some back => simpa using hasc back hl
    simp only [parseRootSigs, hf, hid, ↓reduceIte, hs, ha, Bool.false_eq_true]
    exact h

/-- One more id after ascending ones. -/
private theorem ascending_snoc {sigs : List (Bytes × Bytes)} {p : Bytes × Bytes}
    (h : (sigs.map (·.1)).Pairwise (· < ·)) :
    ((sigs ++ [p]).map (·.1)).Pairwise (· < ·) ↔ ∀ back ∈ sigs.getLast?, back.1 < p.1 := by
  rw [List.map_append, List.pairwise_append]
  constructor
  · intro hp back hb
    exact hp.2.2 _ (List.mem_map_of_mem (List.mem_of_getLast? hb)) _ (by simp)
  · intro hb
    refine ⟨h, by simp, ?_⟩
    intro a ha c hc
    simp only [List.map_cons, List.map_nil, List.mem_singleton] at hc
    subst hc
    obtain ⟨q, hq, rfl⟩ := List.mem_map.mp ha
    obtain ⟨ini, back, rfl⟩ : ∃ ini back, sigs = ini ++ [back] :=
      ⟨_, _, (List.dropLast_append_getLast (List.ne_nil_of_mem hq)).symm⟩
    have hlast := hb back (by simp)
    rcases List.mem_append.mp hq with hq | hq
    · rw [List.map_append, List.pairwise_append] at h
      exact List.lt_trans (h.2.2 _ (List.mem_map_of_mem hq) _ (by simp)) hlast
    · rw [List.mem_singleton] at hq
      exact hq ▸ hlast

private theorem parseRootSigs_eq_ok {sigs out : List (Bytes × Bytes)} {lines : List Bytes}
    (hs : (sigs.map (·.1)).Pairwise (· < ·)) : parseRootSigs sigs lines = .ok out ↔
      ∃ new, out = sigs ++ new ∧ lines = new.map rootSigLine ∧
        (∀ p ∈ new, isId p.1 = true ∧ p.2 ≠ []) ∧
        ((sigs ++ new).map (·.1)).Pairwise (· < ·) := by
  induction lines generalizing sigs with
  | nil =>
    constructor
    · intro h
      cases h
      exact ⟨[], by simp, rfl, by simp, by simpa using hs⟩
    · rintro ⟨new, rfl, hl, -, -⟩
      obtain rfl : new = [] := by simpa using hl.symm
      simp [parseRootSigs]
  | cons line lines ih =>
    rw [parseRootSigs_cons]
    constructor
    · rintro ⟨p, rfl, hok, hasc, h⟩
      obtain ⟨new, rfl, rfl, hall, hn⟩ := (ih ((ascending_snoc hs).mpr hasc)).mp h
      refine ⟨p :: new, by simp, rfl, ?_, by simpa using hn⟩
      intro q hq
      rcases List.mem_cons.mp hq with rfl | hq
      · exact hok
      · exact hall q hq
    · rintro ⟨new, rfl, hl, hall, hn⟩
      obtain ⟨p, new', rfl, rfl, rfl⟩ := List.map_eq_cons_iff.mp hl.symm
      have hn' : ((sigs ++ [p] ++ new').map (·.1)).Pairwise (· < ·) := by simpa using hn
      have hp : ((sigs ++ [p]).map (·.1)).Pairwise (· < ·) := by
        rw [List.map_append, List.pairwise_append] at hn'
        exact hn'.1
      exact ⟨p, rfl, hall p (by simp), (ascending_snoc hs).mp hp, (ih hp).mpr
        ⟨new', by simp, rfl, fun q hq => hall q (by simp [hq]), hn'⟩⟩

theorem isLine_bundle {b : Bundle} (h : b.WellFormed) : ∀ l ∈ b.lines, IsLine l := by
  intro l hl
  simp only [Bundle.lines, List.mem_append, List.mem_cons, List.not_mem_nil, or_false,
    List.mem_map] at hl
  rcases hl with ((rfl | rfl) | ⟨p, hp, rfl⟩) | rfl | rfl
  · exact ⟨by decide, by decide⟩
  · exact isLine_append ⟨by decide, by decide⟩ (clean_encodeBlock _)
  · have hs : Clean (ascii " ") := by decide
    rw [rootSigLine, List.append_assoc, List.append_assoc]
    exact isLine_append ⟨by decide, by decide⟩
      ((clean_of_isId (h.rootSigs p hp).1).append (hs.append (clean_encodeBlock _)))
  · exact isLine_append ⟨by decide, by decide⟩ (clean_of_isId h.keyId)
  · exact isLine_append ⟨by decide, by decide⟩ (clean_encodeBlock _)

/-- The lines of a file with enough of them, cut where the code cuts them. -/
private theorem exists_bundle_lines {lines : List Bytes} (h : 5 ≤ lines.length) :
    ∃ l₀ l₁ roots k t, lines = l₀ :: l₁ :: (roots ++ [k, t]) := by
  obtain ⟨l₀, l₁, ls, rfl⟩ : ∃ l₀ l₁ ls, lines = l₀ :: l₁ :: ls := by
    rcases lines with _ | ⟨l₀, _ | ⟨l₁, ls⟩⟩
    · simp at h
    · simp at h
    · exact ⟨l₀, l₁, ls, rfl⟩
  simp only [List.length_cons] at h
  obtain ⟨ms, t, rfl⟩ : ∃ ms t, ls = ms ++ [t] :=
    ⟨_, _, (List.dropLast_append_getLast (List.ne_nil_of_length_pos (by omega))).symm⟩
  simp only [List.length_append, List.length_singleton] at h
  obtain ⟨roots, k, rfl⟩ : ∃ roots k, ms = roots ++ [k] :=
    ⟨_, _, (List.dropLast_append_getLast (List.ne_nil_of_length_pos (by omega))).symm⟩
  exact ⟨l₀, l₁, roots, k, t, by simp⟩

/-- Where the code looks for the last lines of a file. -/
private theorem bundle_lines_at (l₀ l₁ : Bytes) (roots : List Bytes) (k t : Bytes) :
    (l₀ :: l₁ :: (roots ++ [k, t])).length - 4 = roots.length ∧
      ((l₀ :: l₁ :: (roots ++ [k, t])).drop 2).take roots.length = roots ∧
      (l₀ :: l₁ :: (roots ++ [k, t])).getD (2 + roots.length) [] = k ∧
      (l₀ :: l₁ :: (roots ++ [k, t])).getD (3 + roots.length) [] = t := by
  have h2 : 2 + roots.length = roots.length + 1 + 1 := by omega
  have h3 : 3 + roots.length = (roots.length + 1) + 1 + 1 := by omega
  refine ⟨by simp, by simp, ?_, ?_⟩
  · rw [h2, List.getD_cons_succ, List.getD_cons_succ]
    simp
  · rw [h3, List.getD_cons_succ, List.getD_cons_succ]
    simp

/-- **Bundles.** -/
theorem parseBundle_eq_ok {bytes : Bytes} {b : Bundle} :
    parseBundle bytes = .ok b ↔
      bytes.length ≤ kMaxBundleBytes ∧ b.WellFormed ∧ bytes = b.text := by
  constructor
  · intro h
    unfold parseBundle at h
    split at h
    · cases h
    · rename_i hlen
      split at h
      · cases h
      · rename_i lines hl
        obtain ⟨-, hbytes, -⟩ := splitLines_eq_some.mp hl
        split at h
        · cases h
        · rename_i hhead
          split at h
          · cases h
          · rename_i hcount
            simp only [Bool.or_eq_true, decide_eq_true_eq, not_or, not_lt] at hcount
            obtain ⟨l₀, l₁, roots, k, t, rfl⟩ := exists_bundle_lines hcount.1
            obtain ⟨hn, hroots, hk, ht⟩ := bundle_lines_at l₀ l₁ roots k t
            simp only [hn, hroots, hk, ht, List.getD_cons_succ, List.getD_cons_zero] at h
            split at h
            · cases h
            · rename_i document hd
              obtain ⟨rootSigs, hs, h⟩ := bind_eq_ok.mp h
              split at h
              · cases h
              · rename_i keyId hkey
                split at h
                · cases h
                · rename_i signature hsig
                  cases h
                  obtain ⟨dt, rfl, hd⟩ := bind_takePrefix.mp hd
                  obtain ⟨st, rfl, hsig⟩ := bind_takePrefix.mp hsig
                  obtain ⟨hkey, hid⟩ := Option.filter_eq_some_iff.mp hkey
                  obtain ⟨hdne, rfl⟩ := b64Decode_eq_some.mp hd
                  obtain ⟨hsne, rfl⟩ := b64Decode_eq_some.mp hsig
                  obtain ⟨new, hnew, rfl, hall, hasc⟩ := (parseRootSigs_eq_ok (by simp)).mp hs
                  rw [List.nil_append] at hnew hasc
                  subst hnew
                  simp only [List.head?_cons, Option.some.injEq, ne_eq, not_not] at hhead
                  simp only [List.length_cons, List.length_append, List.length_map,
                    List.length_nil, kMaxRootSigs] at hcount
                  refine ⟨Nat.le_of_not_lt hlen, ⟨hdne, ⟨?_, ?_⟩, hall, hasc, hid, hsne⟩, ?_⟩
                  · dsimp only
                    omega
                  · dsimp only
                    omega
                  · rw [hbytes, Bundle.text, hhead, takePrefix_eq_some.mp hkey]
                    simp [Bundle.lines]
  · rintro ⟨hlen, hb, rfl⟩
    have hl : splitLines b.text = some b.lines :=
      splitLines_eq_some.mpr ⟨by simp [Bundle.lines], rfl, isLine_bundle hb⟩
    have hlines : b.lines = ascii "NTMSIG 2" :: (ascii "delegation: " ++ encodeBlock b.document) ::
        (b.rootSigs.map rootSigLine ++
          [ascii "key-id: " ++ b.keyId, ascii "signature: " ++ encodeBlock b.signature]) := by
      simp [Bundle.lines]
    have hcount : (b.lines.length < 5 || 4 + kMaxRootSigs < b.lines.length) = false := by
      have := hb.count
      simp only [hlines, kMaxRootSigs, List.length_append, List.length_cons, List.length_nil,
        List.length_map, Bool.or_eq_false_iff, decide_eq_false_iff_not]
      omega
    have hd : (takePrefix (ascii "delegation: " ++ encodeBlock b.document)
        (ascii "delegation: ")).bind b64Decode = some b.document :=
      bind_takePrefix.mpr ⟨_, rfl, b64Decode_eq_some.mpr ⟨hb.document, rfl⟩⟩
    have hs : (takePrefix (ascii "signature: " ++ encodeBlock b.signature)
        (ascii "signature: ")).bind b64Decode = some b.signature :=
      bind_takePrefix.mpr ⟨_, rfl, b64Decode_eq_some.mpr ⟨hb.signature, rfl⟩⟩
    have hk : (takePrefix (ascii "key-id: " ++ b.keyId) (ascii "key-id: ")).filter isId =
        some b.keyId :=
      Option.filter_eq_some_iff.mpr ⟨takePrefix_eq_some.mpr rfl, hb.keyId⟩
    have hr : parseRootSigs [] (b.rootSigs.map rootSigLine) = .ok b.rootSigs :=
      (parseRootSigs_eq_ok (by simp)).mpr ⟨b.rootSigs, rfl, rfl, hb.rootSigs, by
        simpa using hb.ascending⟩
    rw [parseBundle, if_neg (Nat.not_lt.mpr hlen), hl]
    simp only [hcount, Bool.false_eq_true, ↓reduceIte]
    obtain ⟨hn, hroots, hkey, hsig⟩ := bundle_lines_at (ascii "NTMSIG 2")
      (ascii "delegation: " ++ encodeBlock b.document) (b.rootSigs.map rootSigLine)
      (ascii "key-id: " ++ b.keyId) (ascii "signature: " ++ encodeBlock b.signature)
    simp only [hlines, hn, hroots, hkey, hsig, List.head?_cons, ne_eq, not_true_eq_false, ↓reduceIte,
      List.getD_cons_succ, List.getD_cons_zero, hd]
    exact bind_eq_ok.mpr ⟨b.rootSigs, hr, by simp [hk, hs]⟩

/-- The size of a bundle bounds the size of its document. -/
theorem length_document_le {b : Bundle} (h : b.text.length ≤ kMaxBundleBytes) :
    b.document.length ≤ kMaxDelegationBytes := by
  have he := length_encodeBlock b.document
  simp only [Bundle.text, Bundle.lines, List.cons_append, List.nil_append, Lines.join_cons,
    List.length_append, List.length_cons, kMaxBundleBytes] at h
  unfold kMaxDelegationBytes
  omega

end TrafficMonitor.Trust
