import TrafficMonitor.Basic.Inet
import TrafficMonitor.Basic.Intervals
import TrafficMonitor.Basic.Lines
import TrafficMonitor.Basic.NetOrder
import TrafficMonitor.Protocol

/-!
# Countries and networks of addresses

`IPRangeResolver` reads a table of address ranges, one a line, into two vectors that it sorts by
their starts and searches for an address. IPv4 addresses are compared as numbers, IPv6 addresses as
arrays of bytes. The text of the file is what zlib unpacks.

Proved here:

* `filterMap_gzlines`: lines that fit the buffer are read one by one;
* `loadLine_rangeOf`: the line of an entry is loaded to its range.
-/

namespace TrafficMonitor

open Bytes Inet

/-! ## Addresses -/

/-- `std::array<std::uint8_t, 16>` -/
structure In6Addr where
  bytes : Bytes
  length_eq : bytes.length = 16

def parse6 (s : Bytes) : Option In6Addr :=
  match h : inet_pton6 s with
  | some a => some ⟨a, length_inet_pton6 h⟩
  | none => none

inductive IpKey
  | v4 (ip : Nat)
  | v6 (ip : In6Addr)

def parseIp (ip : Bytes) : Option IpKey :=
  if ip = [] then none
  else match inet_pton4 (cStr ip) with
    | some a4 => some (.v4 (netValue a4))
    | none => (parse6 (cStr ip)).map .v6

/-! ## Ranges -/

/-- `V4Range` and `V6Range` -/
structure Range (K : Type) where
  start : K
  stop : K
  asn : Nat
  country : UInt8 × UInt8
  as_desc : Bytes

abbrev V4Range := Range Nat
abbrev V6Range := Range In6Addr

structure IPRangeResolver where
  v4 : List V4Range
  v6 : List V6Range

namespace IPRangeResolver

def QUESTION : UInt8 := 63
def HASH : UInt8 := 35

def kUnknownCountry : Bytes := ascii "??"
def kUnknownEntity : Bytes := ascii "AS??"

def isUnknownEntity (e : Bytes) : Bool := kUnknownEntity.isPrefixOf e

def lookupV4 (r : IPRangeResolver) (ip : Nat) : Option V4Range :=
  Intervals.lookup (fun a b => decide (a < b)) Range.start Range.stop r.v4 ip

def lookupV6 (r : IPRangeResolver) (ip : In6Addr) : Option V6Range :=
  Intervals.lookup (fun a b => lexLt a.bytes b.bytes) Range.start Range.stop r.v6 ip

/-- The country of a range that was looked up. -/
def countryOf {K : Type} : Option (Range K) → Bytes
  | none => kUnknownCountry
  | some r => if r.country.1 = QUESTION then kUnknownCountry else [r.country.1, r.country.2]

/-- The network of a range that was looked up for an address. -/
def entityOf {K : Type} (ip : Bytes) : Option (Range K) → Bytes
  | none => kUnknownEntity ++ SP :: ip
  | some r =>
    if r.asn = 0 then kUnknownEntity ++ SP :: ip
    else ascii "AS" ++ decimal r.asn ++ if r.as_desc = [] then [] else SP :: r.as_desc

def countryFor (r : IPRangeResolver) (ip : Bytes) : Bytes :=
  match parseIp ip with
  | none => kUnknownCountry
  | some (.v4 k) => countryOf (r.lookupV4 k)
  | some (.v6 k) => countryOf (r.lookupV6 k)

def entityFor (r : IPRangeResolver) (ip : Bytes) : Bytes :=
  match parseIp ip with
  | none => kUnknownEntity
  | some (.v4 k) => entityOf ip (r.lookupV4 k)
  | some (.v6 k) => entityOf ip (r.lookupV6 k)

/-! ## Loading -/

def kLineMax : Nat := 8192

/-- `gzgets` with room for `n` bytes: a line with its line feed, or the first `n` bytes of it. -/
def gzgets : Nat → Bytes → Bytes × Bytes
  | 0, s => ([], s)
  | _, [] => ([], [])
  | n + 1, c :: s => if c = LF then ([c], s) else (c :: (gzgets n s).1, (gzgets n s).2)

/-- What the calls of `gzgets` return, at most `fuel` of them. -/
def gzlines : Nat → Bytes → List Bytes
  | 0, _ => []
  | fuel + 1, s =>
    if s = [] then []
    else (gzgets (kLineMax - 1) s).1 :: gzlines fuel (gzgets (kLineMax - 1) s).2

def isEol (c : UInt8) : Bool := c = LF || c = CR

/-- What the loop reads from a line: a range of one of the families, or nothing. -/
inductive Loaded
  | v4 (r : V4Range)
  | v6 (r : V6Range)

def Loaded.v4? : Loaded → Option V4Range
  | .v4 r => some r
  | .v6 _ => none

def Loaded.v6? : Loaded → Option V6Range
  | .v4 _ => none
  | .v6 r => some r

/-- The country is kept if it has two characters. -/
def ccArr (cc : Bytes) : UInt8 × UInt8 :=
  match cc with
  | [c, d] => (c, d)
  | _ => (QUESTION, QUESTION)

/-- The body of the loop; `std::stoul` has 64 bits and throws out of range. -/
def loadLine (linebuf : Bytes) : Option Loaded :=
  let line := trimRight isEol (cStr linebuf)
  if line = [] ∨ line.head? = some HASH then none
  else do
    let (startStr, p) ← Lines.cut TAB line
    let (endStr, p) ← Lines.cut TAB p
    let (asnStr, p) ← Lines.cut TAB p
    let (cc, desc) ← Lines.cut TAB p
    let asn := (← stoull asnStr) % 2 ^ 32
    match inet_pton4 startStr with
    | some a4 =>
      (inet_pton4 endStr).map fun b4 => .v4 ⟨netValue a4, netValue b4, asn, ccArr cc, desc⟩
    | none => match parse6 startStr with
      | some a6 => (parse6 endStr).map fun b6 => .v6 ⟨a6, b6, asn, ccArr cc, desc⟩
      | none => none

/-- `finalize`: both vectors are sorted by their starts. -/
def finalize (r : IPRangeResolver) : IPRangeResolver where
  v4 := r.v4.mergeSort fun a b => !decide (b.start < a.start)
  v6 := r.v6.mergeSort fun a b => !lexLt b.start.bytes a.start.bytes

/-- Load a file that zlib unpacks to this text, if it can be opened. -/
def loadFromFile (file : Option Bytes) : Option IPRangeResolver :=
  match file with
  | none => none
  | some content =>
    let loaded := (gzlines content.length content).filterMap loadLine
    let r : IPRangeResolver := ⟨loaded.filterMap Loaded.v4?, loaded.filterMap Loaded.v6?⟩
    if r.v4 = [] ∧ r.v6 = [] then none else some r.finalize

/-! ## Entries of a table -/

/-- An address as a number of its family. -/
inductive Address
  | v4 (n : Nat)
  | v6 (n : Nat)
  deriving DecidableEq

def addressOf (text : Bytes) : Option Address :=
  match inet_pton4 text with
  | some a => some (.v4 (netValue a))
  | none => (inet_pton6 text).map fun a => .v6 (netValue a)

/-- A range of the table: the texts of its first and last address, its AS number or 0, and the
texts of its country and of its description. -/
structure Entry where
  first : Bytes
  last : Bytes
  asn : Nat
  cc : Bytes
  desc : Bytes
  deriving DecidableEq

namespace Entry

def line (e : Entry) : Bytes :=
  e.first ++ TAB :: (e.last ++ TAB :: (decimal e.asn ++ TAB :: (e.cc ++ TAB :: e.desc)))

/-- The address is between the first and the last one, which are of its family. -/
def Contains (e : Entry) (x : Address) : Prop :=
  match addressOf e.first, addressOf e.last, x with
  | some (.v4 a), some (.v4 b), .v4 n => a ≤ n ∧ n ≤ b
  | some (.v6 a), some (.v6 b), .v6 n => a ≤ n ∧ n ≤ b
  | _, _, _ => False

/-- The country, if there is one; the resolver shows unknown countries with question marks. -/
def country (e : Entry) : Option Bytes :=
  if e.cc.length = 2 ∧ e.cc.head? ≠ some QUESTION then some e.cc else none

/-- The network, if there is one. -/
def network (e : Entry) : Option Bytes :=
  if e.asn = 0 then none
  else some (ascii "AS" ++ decimal e.asn ++ if e.desc = [] then [] else SP :: e.desc)

/-- The first address is not after the last one, and the entry can be written in a line. -/
structure Valid (e : Entry) : Prop where
  ordered : ∃ x, e.Contains x
  asn_lt : e.asn < 2 ^ 32
  noTab : ∀ c ∈ e.first ++ e.last ++ e.cc, c ≠ TAB
  clean : ∀ c ∈ e.first ++ e.last ++ e.cc ++ e.desc, c ≠ NUL ∧ c ≠ LF
  noCr : e.desc.getLast? ≠ some CR

end Entry

/-- The file holds the entries in any order among lines that are passed over; its lines are
shorter than the buffer of the reader, and end with any carriage returns. -/
structure Holds (content : Bytes) (entries : List Entry) : Prop where
  short : ∀ l ∈ Lines.parts LF content, l.length + 1 < kLineMax
  lines : ∃ others, ((Lines.parts LF content).map (trimRight isEol)).Perm
    (entries.map Entry.line ++ others) ∧ ∀ l ∈ others, loadLine l = none

/-! ## Lines -/

theorem gzgets_line {l : Bytes} (hl : LF ∉ l) {n : Nat} (hn : l.length < n) (s : Bytes) :
    gzgets n (l ++ LF :: s) = (l ++ [LF], s) := by
  induction l generalizing n with
  | nil =>
    obtain ⟨n, rfl⟩ := Nat.exists_eq_succ_of_ne_zero (Nat.ne_of_gt hn)
    simp [gzgets]
  | cons c l ih =>
    obtain ⟨n, rfl⟩ := Nat.exists_eq_succ_of_ne_zero (Nat.ne_of_gt (Nat.zero_lt_of_lt hn))
    rw [List.mem_cons, not_or] at hl
    rw [List.cons_append, gzgets, if_neg (Ne.symm hl.1), ih hl.2 (Nat.lt_of_succ_lt_succ hn)]
    rfl

theorem gzgets_rest {l : Bytes} (hl : LF ∉ l) {n : Nat} (hn : l.length < n) :
    gzgets n l = (l, []) := by
  induction l generalizing n with
  | nil => cases n <;> rfl
  | cons c l ih =>
    obtain ⟨n, rfl⟩ := Nat.exists_eq_succ_of_ne_zero (Nat.ne_of_gt (Nat.zero_lt_of_lt hn))
    rw [List.mem_cons, not_or] at hl
    rw [gzgets, if_neg (Ne.symm hl.1), ih hl.2 (Nat.lt_of_succ_lt_succ hn)]

/-- Lines that fit the buffer are returned one by one, the last one only if it is not empty. -/
theorem gzlines_join {ls : List Bytes} {rest : Bytes}
    (hls : ∀ l ∈ ls, LF ∉ l ∧ l.length + 1 < kLineMax)
    (hrest : LF ∉ rest ∧ rest.length + 1 < kLineMax) {fuel : Nat}
    (hfuel : (Lines.join LF ls ++ rest).length ≤ fuel) :
    gzlines fuel (Lines.join LF ls ++ rest) =
      ls.map (· ++ [LF]) ++ if rest = [] then [] else [rest] := by
  induction ls generalizing fuel with
  | nil =>
    rw [Lines.join_nil, List.nil_append] at hfuel ⊢
    cases fuel with
    | zero =>
      obtain rfl := List.eq_nil_of_length_eq_zero (Nat.le_zero.mp hfuel)
      rfl
    | succ fuel =>
      rw [gzlines, gzgets_rest hrest.1 (by omega)]
      split
      · rfl
      · cases fuel <;> simp [gzlines]
  | cons l ls ih =>
    obtain ⟨hl, hshort⟩ := hls l (by simp)
    rw [Lines.join_cons, List.append_assoc, List.cons_append] at hfuel ⊢
    cases fuel with
    | zero => simp at hfuel
    | succ fuel =>
      rw [gzlines, if_neg (by simp), gzgets_line hl (by omega), List.map_cons, List.cons_append]
      dsimp only
      rw [ih (fun m hm => hls m (by simp [hm]))]
      simp only [List.length_append, List.length_cons] at hfuel ⊢
      omega

theorem trimRight_snoc {p : UInt8 → Bool} {c : UInt8} (h : p c = true) (s : Bytes) :
    trimRight p (s ++ [c]) = trimRight p s := by
  rw [trimRight, trimRight, List.rdropWhile_concat_pos _ _ _ h]

/-- The reader does not see carriage returns and line feeds at the end of a line. -/
theorem trim_cStr_snoc {c : UInt8} (h : isEol c = true) (s : Bytes) :
    trimRight isEol (cStr (s ++ [c])) = trimRight isEol (cStr s) := by
  have hc : c ≠ NUL := fun e => by
    rw [e] at h
    exact absurd h (by decide)
  by_cases hs : NUL ∈ s
  · congr 1
    rw [cStr, cStr, List.takeWhile_append, if_neg]
    intro hlen
    have hall := List.takeWhile_eq_self_iff.mp
      ((List.takeWhile_prefix (· ≠ NUL)).eq_of_length hlen)
    simpa using hall NUL hs
  · rw [cStr_of_not_mem hs, cStr_of_not_mem (by simp [hs, Ne.symm hc]), trimRight_snoc h]

theorem loadLine_snoc {c : UInt8} (h : isEol c = true) (s : Bytes) :
    loadLine (s ++ [c]) = loadLine s := by
  rw [loadLine, loadLine, trim_cStr_snoc h]

theorem loadLine_trim (s : Bytes) : loadLine (trimRight isEol s) = loadLine s := by
  induction s using List.reverseRecOn with
  | nil => rfl
  | append_singleton s c ih =>
    by_cases h : isEol c = true
    · rw [trimRight_snoc h, ih, loadLine_snoc h]
    · rw [trimRight, List.rdropWhile_concat_neg _ _ _ h]

/-- What the loop loads from a file whose lines fit the buffer. -/
theorem filterMap_gzlines {content : Bytes}
    (hshort : ∀ l ∈ Lines.parts LF content, l.length + 1 < kLineMax) :
    (gzlines content.length content).filterMap loadLine =
      ((Lines.parts LF content).map (trimRight isEol)).filterMap loadLine := by
  obtain ⟨hjoin, hno, hrest⟩ := Lines.split_spec LF content
  have hall : ∀ l ∈ (Lines.split LF content).1, LF ∉ l ∧ l.length + 1 < kLineMax := fun l hl =>
    ⟨hno l hl, hshort l (by simp [Lines.parts, hl])⟩
  have hend := hshort (Lines.split LF content).2 (by simp [Lines.parts])
  have hlines := gzlines_join hall ⟨hrest, hend⟩ (Nat.le_refl _)
  rw [← hjoin] at hlines
  rw [hlines, Lines.parts, List.filterMap_map, List.filterMap_append, List.filterMap_append,
    List.filterMap_map]
  congr 1
  · congr 1
    funext l
    exact (loadLine_snoc (by decide) l).trans (loadLine_trim l).symm
  · split
    next h => simp [h, loadLine, cStr, trimRight]
    · simp [loadLine_trim]

/-! ## The line of an entry -/

/-- What a loaded range keeps of its entry besides the addresses. -/
structure Fields {K : Type} (e : Entry) (r : Range K) : Prop where
  asn : r.asn = e.asn
  country : r.country = ccArr e.cc
  desc : r.as_desc = e.desc

/-- The range of an entry, in the family `family` whose keys have the numbers `rank`. -/
structure RangeOf {K : Type} (family : Nat → Address) (rank : K → Nat) (e : Entry) (r : Range K) :
    Prop where
  fields : Fields e r
  contains : ∀ n, e.Contains (family n) ↔ rank r.start ≤ n ∧ n ≤ rank r.stop
  only : ∀ x, e.Contains x → ∃ n, x = family n
  ordered : rank r.start ≤ rank r.stop

def rank6 (a : In6Addr) : Nat := netValue a.bytes

theorem parse6_of_inet_pton6 {s a : Bytes} (h : inet_pton6 s = some a) :
    ∃ hlen, parse6 s = some ⟨a, hlen⟩ := by
  refine ⟨length_inet_pton6 h, ?_⟩
  unfold parse6
  split
  next b hb =>
    have : a = b := Option.some.inj (h.symm.trans hb)
    simp [this]
  next hb => rw [h] at hb; cases hb

theorem octet_of_head {c : UInt8} (h : isDigit c = false) (s : Bytes) : octet (c :: s) = none := by
  simp [octet, h]

theorem inet_pton4_hash (s : Bytes) : inet_pton4 (HASH :: s) = none := by
  unfold inet_pton4
  obtain ⟨hjoin, -, -⟩ := Lines.split_spec Inet.DOT (HASH :: s)
  generalize Lines.split Inet.DOT (HASH :: s) = t at hjoin
  obtain ⟨fields, last⟩ := t
  dsimp only
  split
  next _ a b c =>
    have ha : octet a = none := by
      cases a with
      | nil => simp [octet]
      | cons g a =>
        have hg : HASH = g := by simpa using congrArg List.head? hjoin
        exact octet_of_head (hg ▸ rfl) a
    rw [ha]
    rfl
  · rfl

theorem inet_pton6_hash (s : Bytes) : inet_pton6 (HASH :: s) = none := by
  have hdigit : hexDigitValue HASH = none := by decide
  rw [inet_pton6, if_neg (by decide), groups, hdigit]
  dsimp only
  rw [if_neg (by decide), if_neg fun h => absurd h.1 (by decide)]
  rfl

/-- The text of an address is not that of a comment. -/
theorem not_comment {s : Bytes} {x : Address} (h : addressOf s = some x) (t : Bytes) :
    ¬ (s ++ TAB :: t = [] ∨ (s ++ TAB :: t).head? = some HASH) := by
  rintro (hs | hs)
  · simp at hs
  · cases s with
    | nil => exact absurd hs (by decide : ¬ some TAB = some HASH)
    | cons c s =>
      obtain rfl : c = HASH := Option.some.inj hs
      rw [addressOf, inet_pton4_hash, inet_pton6_hash] at h
      cases h

theorem trim_line {e : Entry} (he : e.Valid) : trimRight isEol (cStr e.line) = e.line := by
  have hmem : ∀ c ∈ e.line, c ≠ NUL ∧ c ≠ LF := by
    intro c hc
    have hclean := he.clean c
    have hdec : c ∈ decimal e.asn → c ≠ NUL ∧ c ≠ LF := fun h => by
      have := isDigit_of_mem_decimal h
      exact ⟨fun e => by simp [e, isDigit, NUL] at this, fun e => by simp [e, isDigit, LF] at this⟩
    have htab : TAB ≠ NUL ∧ TAB ≠ LF := by decide
    simp only [Entry.line, List.mem_append, List.mem_cons] at hc hclean
    rcases hc with h | rfl | h | rfl | h | rfl | h | rfl | h
    all_goals first | exact htab | exact hdec h | exact hclean (by simp [h])
  rw [cStr_of_not_mem fun h => (hmem NUL h).1 rfl]
  apply trimRight_of_last
  intro hl
  have hend : e.line.getLast? = if e.desc = [] then some TAB else e.desc.getLast? := by
    by_cases hd : e.desc = []
    · simp [Entry.line, hd, List.getLast?_cons]
    · simp [Entry.line, hd, List.getLast?_eq_getLast_of_ne_nil]
  have hlast : e.line.getLast hl = TAB ∨ e.desc.getLast? = some (e.line.getLast hl) := by
    rw [List.getLast?_eq_getLast_of_ne_nil hl] at hend
    split at hend
    · exact .inl (Option.some.inj hend)
    · exact .inr hend.symm
  rcases hlast with h | h
  · rw [h]
    rfl
  · have hlf := (hmem _ (List.getLast_mem hl)).2
    have hcr : e.line.getLast hl ≠ CR := fun hcr => he.noCr (hcr ▸ h)
    simp [isEol, hlf, hcr]

theorem cut_field {f : Bytes} (h : ∀ c ∈ f, c ≠ TAB) (t : Bytes) :
    Lines.cut TAB (f ++ TAB :: t) = some (f, t) :=
  Lines.cut_append TAB f t fun hm => h TAB hm rfl

theorem stoull_text {n : Nat} (h : n < 2 ^ 32) : stoull (decimal n) = some n := by
  have := stoull_decimal n [] (by omega) (by simp)
  rwa [List.append_nil] at this

/-- The cuts of the line of an entry. -/
theorem loadLine_line {e : Entry} (he : e.Valid) {x : Address} (hx : addressOf e.first = some x) :
    loadLine e.line =
      match inet_pton4 e.first with
      | some a4 => (inet_pton4 e.last).map fun b4 =>
        .v4 ⟨netValue a4, netValue b4, e.asn, ccArr e.cc, e.desc⟩
      | none => match parse6 e.first with
        | some a6 => (parse6 e.last).map fun b6 => .v6 ⟨a6, b6, e.asn, ccArr e.cc, e.desc⟩
        | none => none := by
  have htab := he.noTab
  simp only [List.mem_append] at htab
  have hdec : ∀ c ∈ decimal e.asn, c ≠ TAB := fun c hc e => by
    have := isDigit_of_mem_decimal hc
    simp [e, isDigit, TAB] at this
  rw [loadLine, trim_line he, Entry.line]
  dsimp only
  rw [if_neg (not_comment hx _), cut_field fun c hc => htab c (by simp [hc])]
  dsimp only [Option.bind_eq_bind, Option.bind_some]
  rw [cut_field fun c hc => htab c (by simp [hc])]
  dsimp only [Option.bind_some]
  rw [cut_field hdec]
  dsimp only [Option.bind_some]
  rw [cut_field fun c hc => htab c (by simp [hc]), stoull_text he.asn_lt]
  dsimp only [Option.bind_some]
  rw [Nat.mod_eq_of_lt he.asn_lt]

theorem addressOf_eq_v4 {s : Bytes} {n : Nat} :
    addressOf s = some (.v4 n) ↔ ∃ a, inet_pton4 s = some a ∧ netValue a = n := by
  cases h4 : inet_pton4 s with
  | some a => simp [addressOf, h4]
  | none => cases h6 : inet_pton6 s <;> simp [addressOf, h4, h6]

theorem addressOf_eq_v6 {s : Bytes} {n : Nat} :
    addressOf s = some (.v6 n) ↔ inet_pton4 s = none ∧ ∃ a, parse6 s = some a ∧ rank6 a = n := by
  cases h4 : inet_pton4 s with
  | some a => simp [addressOf, h4]
  | none =>
    cases h6 : inet_pton6 s with
    | none =>
      have : parse6 s = none := by
        unfold parse6
        split
        next b hb => rw [h6] at hb; cases hb
        · rfl
      simp [addressOf, h4, h6, this]
    | some a =>
      obtain ⟨hlen, ha⟩ := parse6_of_inet_pton6 h6
      simp [addressOf, h4, h6, ha, rank6]

/-- The first and the last address of an entry are of one family and in order. -/
theorem Entry.Valid.bounds {e : Entry} (he : e.Valid) :
    ∃ a b, a ≤ b ∧ ((addressOf e.first = some (.v4 a) ∧ addressOf e.last = some (.v4 b)) ∨
      (addressOf e.first = some (.v6 a) ∧ addressOf e.last = some (.v6 b))) := by
  obtain ⟨x, hx⟩ := he.ordered
  unfold Entry.Contains at hx
  split at hx
  next a b n hf hl => exact ⟨a, b, Nat.le_trans hx.1 hx.2, .inl ⟨hf, hl⟩⟩
  next a b n hf hl => exact ⟨a, b, Nat.le_trans hx.1 hx.2, .inr ⟨hf, hl⟩⟩
  · cases hx

/-- **The line of an entry** is loaded to its range. -/
theorem loadLine_rangeOf {e : Entry} (he : e.Valid) :
    (∃ r, loadLine e.line = some (.v4 r) ∧ RangeOf .v4 id e r) ∨
      ∃ r, loadLine e.line = some (.v6 r) ∧ RangeOf .v6 rank6 e r := by
  obtain ⟨a, b, hab, ⟨hf, hl⟩ | ⟨hf, hl⟩⟩ := he.bounds
  · obtain ⟨a4, ha4, hna⟩ := addressOf_eq_v4.mp hf
    obtain ⟨b4, hb4, hnb⟩ := addressOf_eq_v4.mp hl
    have hline := loadLine_line he hf
    rw [ha4, hb4] at hline
    refine .inl ⟨_, hline, ⟨rfl, rfl, rfl⟩, fun n => ?_, fun y hy => ?_, ?_⟩
    · simp [Entry.Contains, hf, hl, hna, hnb]
    · cases y with
      | v4 n => exact ⟨n, rfl⟩
      | v6 n => simp [Entry.Contains, hf, hl] at hy
    · simpa [hna, hnb] using hab
  · obtain ⟨h4, a6, ha6, hna⟩ := addressOf_eq_v6.mp hf
    obtain ⟨-, b6, hb6, hnb⟩ := addressOf_eq_v6.mp hl
    have hline := loadLine_line he hf
    rw [h4, ha6, hb6] at hline
    refine .inr ⟨_, hline, ⟨rfl, rfl, rfl⟩, fun n => ?_, fun y hy => ?_, ?_⟩
    · simp [Entry.Contains, hf, hl, hna, hnb]
    · cases y with
      | v4 n => simp [Entry.Contains, hf, hl] at hy
      | v6 n => exact ⟨n, rfl⟩
    · simpa [hna, hnb] using hab

end IPRangeResolver

end TrafficMonitor
