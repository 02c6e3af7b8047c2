import TrafficMonitor.Server.IpRanges

/-!
# Lookup of countries and networks

What `IPRangeResolver` answers after it has loaded a file with a table of entries. Proved here:

* `looked_of_sorted`: a sorted vector finds the addresses of its family;
* `loadFromFile_eq`: what a file with a table of entries is loaded to;
* `answers_of_loaded`: the country and the network of every address are those of the one entry that
  contains it, and unknown if there is none.
-/

namespace TrafficMonitor

open Bytes Inet

namespace IPRangeResolver

/-! ## Lookup -/

variable {content : Bytes} {entries : List Entry}

/-- Two entries have no address in common. -/
def Apart (e f : Entry) : Prop := ∀ x, ¬ (e.Contains x ∧ f.Contains x)

/-- What a lookup of the address may return. -/
inductive Looked {K : Type} (entries : List Entry) (x : Address) : Option (Range K) → Prop
  | found {e : Entry} {r : Range K} (he : e ∈ entries) (hx : e.Contains x) (hr : Fields e r) :
    Looked entries x (some r)
  | missing (h : ∀ e ∈ entries, ¬ e.Contains x) : Looked entries x none

/-- The ranges of the entries, in the order of the file, that `select` takes. -/
def rangesOf {K : Type} (select : Loaded → Option (Range K)) (entries : List Entry) :
    List (Range K) :=
  entries.filterMap fun e => (loadLine e.line).bind select

theorem loaded_perm (hfile : Holds content entries) {K : Type}
    (select : Loaded → Option (Range K)) :
    (((gzlines content.length content).filterMap loadLine).filterMap select).Perm
      (rangesOf select entries) := by
  obtain ⟨others, hperm, hothers⟩ := hfile.lines
  have hnone : others.filterMap loadLine = [] := List.filterMap_eq_nil_iff.mpr hothers
  have hranges : rangesOf select entries =
      ((entries.map Entry.line).filterMap loadLine).filterMap select := by
    rw [List.filterMap_map, List.filterMap_filterMap]
    rfl
  have hloaded := (hperm.filterMap loadLine).filterMap select
  rw [List.filterMap_append, hnone, List.append_nil] at hloaded
  rw [filterMap_gzlines hfile.short, hranges]
  exact hloaded

/-- A vector of the ranges of one family, sorted by their starts, finds the addresses of it. -/
theorem looked_of_sorted {K : Type} {family : Nat → Address} {rank : K → Nat} {lt : K → K → Bool}
    {select : Loaded → Option (Range K)} {v : List (Range K)}
    (hlt : ∀ a b, lt a b ↔ rank a < rank b) (hperm : v.Perm (rangesOf select entries))
    (hsorted : v.Pairwise fun r s => rank r.start ≤ rank s.start)
    (hselect : ∀ e ∈ entries, ∀ r, (loadLine e.line).bind select = some r → RangeOf family rank e r)
    (hnone : ∀ e ∈ entries, (loadLine e.line).bind select = none → ∀ n, ¬ e.Contains (family n))
    (hapart : entries.Pairwise Apart) (k : K) :
    Looked entries (family (rank k)) (Intervals.lookup lt Range.start Range.stop v k) := by
  have hof : ∀ r ∈ v, ∃ e ∈ entries, RangeOf family rank e r := fun r hr => by
    obtain ⟨e, he, hre⟩ := List.mem_filterMap.mp (hperm.mem_iff.mp hr)
    exact ⟨e, he, hselect e he r hre⟩
  have hordered : ∀ r ∈ v, rank r.start ≤ rank r.stop := fun r hr => by
    obtain ⟨e, -, hre⟩ := hof r hr
    exact hre.ordered
  have hdisjoint : v.Pairwise fun r s => ∀ k : K, ¬ ((rank r.start ≤ rank k ∧
      rank k ≤ rank r.stop) ∧ rank s.start ≤ rank k ∧ rank k ≤ rank s.stop) := by
    refine (hperm.pairwise_iff fun {r s} h k hk => h k hk.symm).mpr ?_
    rw [rangesOf, List.pairwise_filterMap]
    refine hapart.imp_of_mem fun {e f} he hf hef r hr s hs k hk => hef (family (rank k)) ?_
    exact ⟨((hselect e he r hr).contains _).mpr hk.1, ((hselect f hf s hs).contains _).mpr hk.2⟩
  cases hlook : Intervals.lookup lt Range.start Range.stop v k with
  | some r =>
    obtain ⟨hr, hin⟩ := (Intervals.lookup_eq_some_iff hlt hsorted hordered hdisjoint).mp hlook
    obtain ⟨e, he, hre⟩ := hof r hr
    exact .found he ((hre.contains _).mpr hin) hre.fields
  | none =>
    refine .missing fun e he hx => ?_
    cases hbind : (loadLine e.line).bind select with
    | none => exact hnone e he hbind _ hx
    | some r =>
      have hr : r ∈ v := hperm.mem_iff.mpr (List.mem_filterMap.mpr ⟨e, he, hbind⟩)
      have hin := ((hselect e he r hbind).contains _).mp hx
      rw [(Intervals.lookup_eq_some_iff hlt hsorted hordered hdisjoint).mpr ⟨hr, hin⟩] at hlook
      cases hlook

theorem looked_v4 (hvalid : ∀ e ∈ entries, e.Valid) (hapart : entries.Pairwise Apart)
    {r : IPRangeResolver} (hperm : r.v4.Perm (rangesOf Loaded.v4? entries)) (ip : Nat) :
    Looked entries (.v4 ip) (r.finalize.lookupV4 ip) := by
  refine @looked_of_sorted entries Nat .v4 id _ Loaded.v4? _ (fun a b => by simp)
    ((List.mergeSort_perm _ _).trans hperm) ?_ (fun e he r hr => ?_) (fun e he hr n hn => ?_)
    hapart ip
  · refine (List.pairwise_mergeSort (fun a b c hab hbc => ?_) (fun a b => ?_) r.v4).imp fun h => ?_
    · simp only [Bool.not_eq_true', decide_eq_false_iff_not] at hab hbc ⊢
      omega
    · simp only [Bool.or_eq_true, Bool.not_eq_true', decide_eq_false_iff_not]
      omega
    · simpa using h
  · rcases loadLine_rangeOf (hvalid e he) with ⟨s, hs, hes⟩ | ⟨s, hs, hes⟩
    · obtain rfl : s = r := by simpa [hs, Loaded.v4?] using hr
      exact hes
    · simp [hs, Loaded.v4?] at hr
  · rcases loadLine_rangeOf (hvalid e he) with ⟨s, hs, hes⟩ | ⟨s, hs, hes⟩
    · simp [hs, Loaded.v4?] at hr
    · obtain ⟨m, hm⟩ := hes.only _ hn
      cases hm

theorem lexLt_rank6 (a b : In6Addr) : lexLt a.bytes b.bytes = true ↔ rank6 a < rank6 b :=
  lexLt_iff (a.length_eq.trans b.length_eq.symm)

theorem lexLt_false_iff (a b : In6Addr) : lexLt a.bytes b.bytes = false ↔ rank6 b ≤ rank6 a := by
  rw [Bool.eq_false_iff, ne_eq, lexLt_rank6, Nat.not_lt]

theorem looked_v6 (hvalid : ∀ e ∈ entries, e.Valid) (hapart : entries.Pairwise Apart)
    {r : IPRangeResolver} (hperm : r.v6.Perm (rangesOf Loaded.v6? entries)) (ip : In6Addr) :
    Looked entries (.v6 (rank6 ip)) (r.finalize.lookupV6 ip) := by
  refine @looked_of_sorted entries In6Addr .v6 rank6 _ Loaded.v6? _ lexLt_rank6
    ((List.mergeSort_perm _ _).trans hperm) ?_ (fun e he r hr => ?_) (fun e he hr n hn => ?_)
    hapart ip
  · refine (List.pairwise_mergeSort (fun a b c hab hbc => ?_) (fun a b => ?_) r.v6).imp fun h => ?_
    · simp only [Bool.not_eq_true', lexLt_false_iff] at hab hbc ⊢
      exact Nat.le_trans hab hbc
    · simp only [Bool.or_eq_true, Bool.not_eq_true', lexLt_false_iff]
      exact Nat.le_total _ _
    · simpa [lexLt_false_iff] using h
  · rcases loadLine_rangeOf (hvalid e he) with ⟨s, hs, hes⟩ | ⟨s, hs, hes⟩
    · simp [hs, Loaded.v6?] at hr
    · obtain rfl : s = r := by simpa [hs, Loaded.v6?] using hr
      exact hes
  · rcases loadLine_rangeOf (hvalid e he) with ⟨s, hs, hes⟩ | ⟨s, hs, hes⟩
    · obtain ⟨m, hm⟩ := hes.only _ hn
      cases hm
    · simp [hs, Loaded.v6?] at hr

/-! ## Answers -/

theorem countryOf_fields {K : Type} {e : Entry} {r : Range K} (h : Fields e r) :
    countryOf (some r) = e.country.getD kUnknownCountry := by
  rw [countryOf, h.country, Entry.country]
  unfold ccArr
  generalize e.cc = cc
  match cc with
  | [] => rfl
  | [_] => rfl
  | [c, d] => by_cases hc : c = QUESTION <;> simp [hc]
  | _ :: _ :: _ :: _ => simp

theorem entityOf_fields {K : Type} {e : Entry} {r : Range K} (h : Fields e r) (ip : Bytes) :
    entityOf ip (some r) = e.network.getD (kUnknownEntity ++ SP :: ip) := by
  rw [entityOf, h.asn, h.desc, Entry.network]
  split <;> rfl

theorem country_getD_eq_unknown (e : Entry) :
    e.country.getD kUnknownCountry = kUnknownCountry ↔ e.country = none := by
  rw [Entry.country]
  split
  next h =>
    simp only [Option.getD_some, reduceCtorEq, iff_false]
    intro hcc
    exact h.2 (by simp [hcc, kUnknownCountry, ascii, QUESTION])
  · simp

theorem isUnknownEntity_unknown (s : Bytes) : isUnknownEntity (kUnknownEntity ++ s) = true := by
  rw [isUnknownEntity, List.isPrefixOf_iff_prefix]
  exact List.prefix_append _ _

theorem isUnknownEntity_getD (e : Entry) (ip : Bytes) :
    isUnknownEntity (e.network.getD (kUnknownEntity ++ SP :: ip)) = true ↔ e.network = none := by
  rw [Entry.network]
  split
  · simp [isUnknownEntity_unknown]
  · obtain ⟨c, t, ht⟩ := List.exists_cons_of_ne_nil (decimal_ne_nil e.asn)
    have hc : isDigit c = true := isDigit_of_mem_decimal (by rw [ht]; simp)
    have hq : ¬ (63 : UInt8) = c := fun h => by simp [← h, isDigit] at hc
    simp [isUnknownEntity, kUnknownEntity, ascii, ht, List.isPrefixOf, hq]

/-- An address is in one entry at most. -/
theorem entry_unique (hapart : entries.Pairwise Apart) {x : Address} {e f : Entry}
    (he : e ∈ entries) (hf : f ∈ entries) (hex : e.Contains x) (hfx : f.Contains x) : e = f := by
  by_contra hne
  have : Std.Symm Apart := ⟨fun _ _ h y hy => h y hy.symm⟩
  exact hapart.forall he hf hne x ⟨hex, hfx⟩

theorem country_of_looked {K : Type} {x : Address} {res : Option (Range K)}
    (hapart : entries.Pairwise Apart) (h : Looked entries x res) :
    (∀ e ∈ entries, e.Contains x → countryOf res = e.country.getD kUnknownCountry) ∧
      (countryOf res = kUnknownCountry ↔ ∀ e ∈ entries, e.Contains x → e.country = none) := by
  cases h with
  | found he hx hr =>
    rw [countryOf_fields hr]
    refine ⟨fun f hf hfx => by rw [entry_unique hapart he hf hx hfx], ?_⟩
    rw [country_getD_eq_unknown]
    refine ⟨fun hnone f hf hfx => ?_, fun hall => hall _ he hx⟩
    rwa [← entry_unique hapart he hf hx hfx]
  | missing hno =>
    refine ⟨fun e he hx => absurd hx (hno e he), fun _ e he hx => absurd hx (hno e he), fun _ => ?_⟩
    rfl

theorem entity_of_looked {K : Type} {x : Address} {res : Option (Range K)}
    (hapart : entries.Pairwise Apart) (h : Looked entries x res) (ip : Bytes) :
    (∀ e ∈ entries, e.Contains x →
      entityOf ip res = e.network.getD (kUnknownEntity ++ SP :: ip)) ∧
      (isUnknownEntity (entityOf ip res) = true ↔
        ∀ e ∈ entries, e.Contains x → e.network = none) := by
  cases h with
  | found he hx hr =>
    rw [entityOf_fields hr]
    refine ⟨fun f hf hfx => by rw [entry_unique hapart he hf hx hfx], ?_⟩
    rw [isUnknownEntity_getD]
    refine ⟨fun hnone f hf hfx => ?_, fun hall => hall _ he hx⟩
    rwa [← entry_unique hapart he hf hx hfx]
  | missing hno =>
    refine ⟨fun e he hx => absurd hx (hno e he), fun _ e he hx => absurd hx (hno e he), fun _ => ?_⟩
    exact isUnknownEntity_unknown _

theorem parseIp_cases (ip : Bytes) :
    (parseIp ip = none ∧ addressOf (cStr ip) = none) ∨
      (∃ n, parseIp ip = some (.v4 n) ∧ addressOf (cStr ip) = some (.v4 n)) ∨
      ∃ a, parseIp ip = some (.v6 a) ∧ addressOf (cStr ip) = some (.v6 (rank6 a)) := by
  by_cases hip : ip = []
  · subst hip
    exact .inl ⟨rfl, rfl⟩
  · rw [parseIp, if_neg hip]
    cases h4 : inet_pton4 (cStr ip) with
    | some a => exact .inr (.inl ⟨netValue a, rfl, addressOf_eq_v4.mpr ⟨a, h4, rfl⟩⟩)
    | none =>
      cases h6 : parse6 (cStr ip) with
      | some a => exact .inr (.inr ⟨a, rfl, addressOf_eq_v6.mpr ⟨h4, a, h6, rfl⟩⟩)
      | none =>
        refine .inl ⟨rfl, ?_⟩
        cases hi : inet_pton6 (cStr ip) with
        | none => simp [addressOf, h4, hi]
        | some a =>
          obtain ⟨_, ha⟩ := parse6_of_inet_pton6 hi
          rw [h6] at ha
          cases ha

/-- The answers for a text: those of the entry that contains its address, and unknown if there is
no such entry or it has no country or network. -/
structure Answers (entries : List Entry) (r : IPRangeResolver) (ip : Bytes) : Prop where
  country : ∀ x, addressOf (cStr ip) = some x → ∀ e ∈ entries, e.Contains x →
    r.countryFor ip = e.country.getD kUnknownCountry
  entity : ∀ x, addressOf (cStr ip) = some x → ∀ e ∈ entries, e.Contains x →
    r.entityFor ip = e.network.getD (kUnknownEntity ++ SP :: ip)
  noCountry : r.countryFor ip = kUnknownCountry ↔
    ∀ x, addressOf (cStr ip) = some x → ∀ e ∈ entries, e.Contains x → e.country = none
  noEntity : isUnknownEntity (r.entityFor ip) = true ↔
    ∀ x, addressOf (cStr ip) = some x → ∀ e ∈ entries, e.Contains x → e.network = none

theorem answers_of_looked {K : Type} {r : IPRangeResolver} {ip : Bytes} {x : Address}
    {res : Option (Range K)} (hapart : entries.Pairwise Apart) (h : Looked entries x res)
    (hx : addressOf (cStr ip) = some x) (hcountry : r.countryFor ip = countryOf res)
    (hentity : r.entityFor ip = entityOf ip res) : Answers entries r ip := by
  obtain ⟨hc, hnc⟩ := country_of_looked hapart h
  obtain ⟨he, hne⟩ := entity_of_looked hapart h ip
  have hiff {P : Address → Prop} : (∀ y, addressOf (cStr ip) = some y → P y) ↔ P x := by
    simp [hx]
  refine ⟨?_, ?_, ?_, ?_⟩
  · rw [hiff, hcountry]
    exact hc
  · rw [hiff, hentity]
    exact he
  · rw [hiff, hcountry]
    exact hnc
  · rw [hiff, hentity]
    exact hne

theorem answers_of_ranges (hvalid : ∀ e ∈ entries, e.Valid) (hapart : entries.Pairwise Apart)
    {r : IPRangeResolver} (h4 : r.v4.Perm (rangesOf Loaded.v4? entries))
    (h6 : r.v6.Perm (rangesOf Loaded.v6? entries)) (ip : Bytes) :
    Answers entries r.finalize ip := by
  rcases parseIp_cases ip with ⟨hp, hx⟩ | ⟨n, hp, hx⟩ | ⟨a, hp, hx⟩
  · have hcountry : r.finalize.countryFor ip = kUnknownCountry := by rw [countryFor, hp]
    have hentity : r.finalize.entityFor ip = kUnknownEntity := by rw [entityFor, hp]
    refine ⟨by simp [hx], by simp [hx], by simp [hx, hcountry], ?_⟩
    simpa [hx, hentity] using isUnknownEntity_unknown []
  · exact answers_of_looked hapart (looked_v4 hvalid hapart h4 n) hx (by rw [countryFor, hp])
      (by rw [entityFor, hp])
  · exact answers_of_looked hapart (looked_v6 hvalid hapart h6 a) hx (by rw [countryFor, hp])
      (by rw [entityFor, hp])

theorem ranges_eq_nil_iff (hvalid : ∀ e ∈ entries, e.Valid) :
    rangesOf Loaded.v4? entries = [] ∧ rangesOf Loaded.v6? entries = [] ↔ entries = [] := by
  constructor
  · rintro ⟨h4, h6⟩
    rw [rangesOf, List.filterMap_eq_nil_iff] at h4 h6
    refine List.eq_nil_iff_forall_not_mem.mpr fun e he => ?_
    rcases loadLine_rangeOf (hvalid e he) with ⟨r, hr, -⟩ | ⟨r, hr, -⟩
    · simpa [hr, Loaded.v4?] using h4 e he
    · simpa [hr, Loaded.v6?] using h6 e he
  · rintro rfl
    exact ⟨rfl, rfl⟩

theorem loadFromFile_eq (hfile : Holds content entries) (hvalid : ∀ e ∈ entries, e.Valid) :
    (loadFromFile (some content) = none ↔ entries = []) ∧
      ∀ r, loadFromFile (some content) = some r → ∃ s : IPRangeResolver, r = s.finalize ∧
        s.v4.Perm (rangesOf Loaded.v4? entries) ∧ s.v6.Perm (rangesOf Loaded.v6? entries) := by
  have h4 := loaded_perm hfile Loaded.v4?
  have h6 := loaded_perm hfile Loaded.v6?
  rw [loadFromFile]
  dsimp only
  have hnil : (((gzlines content.length content).filterMap loadLine).filterMap Loaded.v4? = [] ∧
      ((gzlines content.length content).filterMap loadLine).filterMap Loaded.v6? = []) ↔
      entries = [] := by
    rw [← ranges_eq_nil_iff hvalid, ← List.perm_nil, ← List.perm_nil, h4.congr_left, h6.congr_left,
      List.perm_nil, List.perm_nil]
  constructor
  · rw [← hnil]
    split
    next h => exact iff_of_true rfl h
    next h => exact iff_of_false (by simp) h
  · intro r hr
    split at hr
    · cases hr
    · exact ⟨_, (Option.some.inj hr).symm, h4, h6⟩

/-- The last block of the IPv4 addresses. -/
def lastBlock : Entry := ⟨ascii "255.0.0.0", ascii "255.255.255.255", 64496, ascii "US", []⟩

/-- The first and the last block of the IPv4 addresses, and all IPv6 addresses. -/
def sampleEntries : List Entry :=
  [⟨ascii "0.0.0.0", ascii "0.255.255.255", 0, ascii "None", ascii "Not routed"⟩, lastBlock,
    ⟨ascii "::", ascii "ffff:ffff:ffff:ffff:ffff:ffff:ffff:ffff", 64500, ascii "DE", ascii "NET"⟩]

/-- The entries in another order, with a comment, a line without fields and one without AS. -/
def sampleTable : Bytes :=
  ascii "# table\n" ++ ascii "::\tffff:ffff:ffff:ffff:ffff:ffff:ffff:ffff\t64500\tDE\tNET\r\n" ++
    ascii "255.0.0.0\t255.255.255.255\t64496\tUS\t\nnothing\n1.0.0.0\t1.0.0.9\t-\tUS\tX\n" ++
    ascii "0.0.0.0\t0.255.255.255\t0\tNone\tNot routed"

theorem sampleEntries_addresses :
    sampleEntries.map (fun e => (addressOf e.first, addressOf e.last)) =
      [(some (.v4 0), some (.v4 16777215)), (some (.v4 4278190080), some (.v4 4294967295)),
        (some (.v6 0), some (.v6 340282366920938463463374607431768211455))] := by
  decide +kernel

theorem sampleEntries_valid : ∀ e ∈ sampleEntries, e.Valid := by
  have haddr := sampleEntries_addresses
  simp only [sampleEntries, List.map_cons, List.map_nil, List.cons.injEq, Prod.mk.injEq] at haddr
  obtain ⟨⟨h1, h2⟩, ⟨h3, h4⟩, ⟨h5, h6⟩, -⟩ := haddr
  intro e he
  rw [sampleEntries, List.mem_cons, List.mem_cons, List.mem_singleton] at he
  rcases he with rfl | rfl | rfl
  · exact ⟨⟨.v4 0, by simp [Entry.Contains, h1, h2]⟩, by decide, by decide +kernel,
      by decide +kernel, by decide +kernel⟩
  · exact ⟨⟨.v4 4278190080, by simp [Entry.Contains, h3, h4]⟩, by decide, by decide +kernel,
      by decide +kernel, by decide +kernel⟩
  · exact ⟨⟨.v6 0, by simp [Entry.Contains, h5, h6]⟩, by decide, by decide +kernel,
      by decide +kernel, by decide +kernel⟩

theorem sampleEntries_apart : sampleEntries.Pairwise Apart := by
  have haddr := sampleEntries_addresses
  simp only [sampleEntries, List.map_cons, List.map_nil, List.cons.injEq, Prod.mk.injEq] at haddr
  obtain ⟨⟨h1, h2⟩, ⟨h3, h4⟩, ⟨h5, h6⟩, -⟩ := haddr
  simp only [sampleEntries, List.pairwise_cons, List.mem_cons, List.not_mem_nil, or_false,
    forall_eq_or_imp, forall_eq, List.Pairwise.nil, and_true, IsEmpty.forall_iff, implies_true]
  refine ⟨⟨?_, ?_⟩, ?_⟩
  · rintro (n | n) ⟨hx, hy⟩
    · simp only [Entry.Contains, h1, h2, h3, h4] at hx hy
      omega
    · simp [Entry.Contains, h1, h2] at hx
  · rintro (n | n) ⟨hx, hy⟩
    · simp [Entry.Contains, h5, h6] at hy
    · simp [Entry.Contains, h1, h2] at hx
  · rintro (n | n) ⟨hx, hy⟩
    · simp [Entry.Contains, h5, h6] at hy
    · simp [Entry.Contains, h3, h4] at hx

theorem sampleTable_holds : Holds sampleTable sampleEntries where
  short := by decide +kernel
  lines := by
    refine ⟨[ascii "# table", ascii "nothing", ascii "1.0.0.0\t1.0.0.9\t-\tUS\tX"],
      by decide +kernel, fun l hl => ?_⟩
    have hnone : ([ascii "# table", ascii "nothing", ascii "1.0.0.0\t1.0.0.9\t-\tUS\tX"].all
      fun l => (loadLine l).isNone) = true := by decide +kernel
    simpa using List.all_eq_true.mp hnone l hl

end IPRangeResolver

end TrafficMonitor
