import TrafficMonitor.Basic.Best
import TrafficMonitor.Server.ArtifactVersions

/-!
# The scan of the update directory

`scanUpdateDir` (`web_dashboard.cpp`) lists the directory, keeps the artifact of the highest
version for each platform among those whose signature verifies, deletes every other file,
and publishes what it keeps in the manifest. The order in which a directory is listed is
not determined. A regular file can be read, and deletions succeed.

Proved here:

* `candidateOf_eq_some`: the candidates of the code are the verified artifacts;
* `scan_spec`: what a scan leaves and publishes, for every listing;
* `scan_right_iff`: the outcome is as it should be, does not depend on the listing and is
  left alone by a second scan, exactly if the artifacts of a platform can be compared and
  one of them is of the highest version.
-/

namespace TrafficMonitor.Artifacts

open Bytes Best

/-! ## The code -/

/-- What stands under a name of the directory: a regular file, or something else. -/
inductive Entry
  | file (bytes : Bytes)
  | other
  deriving DecidableEq

abbrev Directory := Bytes → Option Entry

/-- The crypto library, and the compiled-in roots. -/
structure ScanEnv where
  crypto : Trust.Crypto
  roots : Trust.RootSet
  sha256 : Bytes → Bytes
  sha256_length : ∀ b, (sha256 b).length = 32

structure BinaryCandidate where
  name : Bytes
  platform : Bytes
  version : Bytes
  sha256hex : Bytes
  sigSize : Nat
  version_ok : isFileVersion version = true
  deriving DecidableEq

structure UpdateManifestEntry where
  platform : Bytes
  version : Bytes
  filename : Bytes
  sha256hex : Bytes
  sigSize : Nat
  deriving DecidableEq

def SIG : Bytes := ascii ".sig"

def isSigName (name : Bytes) : Bool := 4 < name.length && name.rtake 4 = SIG

section Code

variable (e : ScanEnv) (policy : Trust.Policy)

/-- `verifyArtifactFiles`, on the contents of the two files. -/
def accepts (platform binary sig : Bytes) : Bool :=
  (Trust.verifyBundleWithRoots e.crypto binary sig platform e.roots policy).toBool

def sha256FileHex (binary : Bytes) : Bytes := hex (e.sha256 binary)

/-- One round of the first pass. -/
def candidateOf (d : Directory) (name : Bytes) : Option BinaryCandidate :=
  match d name with
  | some (.file binary) =>
    if isSigName name then none
    else match parseClientBinaryFilename name with
    | none => none
    | some info =>
      if !isKnownClientPlatform info.platform then none
      else match d (name ++ SIG) with
      | some (.file sig) =>
        if !accepts e policy info.platform binary sig then none
        else
          let sha := sha256FileHex e binary
          if sha = [] then none
          else some ⟨name, info.platform, info.version, sha, sig.length, info.version_ok⟩
      | _ => none
  | _ => none

/-- The first pass, over the listing of the directory. -/
def candidates (d : Directory) (listing : List Bytes) : List BinaryCandidate :=
  listing.filterMap (candidateOf e policy d)

/-- The second pass. -/
def keepersOf (cs : List BinaryCandidate) : Option (List BinaryCandidate) :=
  select (·.platform) (fun c k => semverCmp c.version k.version) [] cs

def keepNames (keepers : List BinaryCandidate) : List Bytes :=
  keepers.flatMap fun k => [k.name, k.name ++ SIG]

/-- One round of the third pass. -/
def deleteOther (keepers : List BinaryCandidate) (d : Directory) (name : Bytes) : Directory :=
  match d name with
  | some (.file _) => if name ∈ keepNames keepers then d else Function.update d name none
  | _ => d

/-- The fourth pass. -/
def manifestOf (keepers : List BinaryCandidate) : List UpdateManifestEntry :=
  keepers.map fun k => ⟨k.platform, k.version, k.name, k.sha256hex, k.sigSize⟩

/-- The directory and the manifest afterwards, the directory being listed twice. -/
def scanUpdateDir (listing₁ listing₂ : List Bytes) (d : Directory) :
    Option (Directory × List UpdateManifestEntry) := do
  let keepers ← keepersOf (candidates e policy d listing₁)
  some (listing₂.foldl (deleteOther keepers) d, manifestOf keepers)

end Code

/-! ## What a scan should do -/

section Spec

variable (e : ScanEnv) (policy : Trust.Policy) (d : Directory)

/-- A listing of the directory. -/
def Listing (d : Directory) (l : List Bytes) : Prop := l.Nodup ∧ ∀ n, n ∈ l ↔ d n ≠ none

/-- A verified artifact: a file named as one for a known platform, beside a signature file
that verifies it for the platform. -/
structure IsArtifact (c : BinaryCandidate) : Prop where
  name : ∃ isWindows,
    parseClientBinaryFilename c.name = some ⟨c.platform, c.version, c.name, isWindows, c.version_ok⟩
  binary : isSigName c.name = false
  known : isKnownClientPlatform c.platform = true
  files : ∃ binary sig, d c.name = some (.file binary) ∧ d (c.name ++ SIG) = some (.file sig) ∧
    accepts e policy c.platform binary sig = true ∧ c.sha256hex = sha256FileHex e binary ∧
    c.sigSize = sig.length

/-- The numbers of a version, filled up to four. -/
def numbers (version : Bytes) : List Nat :=
  match versionOf ((components version).map digitsValue) with
  | some v => fourOf v
  | none => []

/-- An artifact of maximal version among those of its platform. -/
def Chosen (k : BinaryCandidate) : Prop :=
  IsArtifact e policy d k ∧
    ∀ c, IsArtifact e policy d c → c.platform = k.platform → numbers c.version ≤ numbers k.version

/-- The directory without the files of other artifacts. -/
def keepOnly (keepers : List BinaryCandidate) (d : Directory) : Directory := fun n =>
  match d n with
  | some (.file b) => if n ∈ keepNames keepers then some (.file b) else none
  | x => x

/-- One artifact of maximal version is kept for each platform that has one. -/
structure Keepers (keepers : List BinaryCandidate) : Prop where
  platforms : (keepers.map (·.platform)).Nodup
  chosen : ∀ k ∈ keepers, Chosen e policy d k
  covered : ∀ c, IsArtifact e policy d c → ∃ k ∈ keepers, k.platform = c.platform

/-- For each platform with an artifact, one of maximal version is left with its signature and
listed in the manifest, and no other regular file is left. -/
def Settled (d' : Directory) (m : List UpdateManifestEntry) : Prop :=
  ∃ keepers, Keepers e policy d keepers ∧ d' = keepOnly keepers d ∧ m = manifestOf keepers

/-- Every scan has the same outcome, up to the order of the manifest; it is as it should be, and
a second scan leaves it alone. -/
def ScanRight : Prop :=
  ∃ d' m, Settled e policy d d' m ∧
    (∀ l₁ l₂, Listing d l₁ → Listing d l₂ →
      ∃ m', scanUpdateDir e policy l₁ l₂ d = some (d', m') ∧ m'.Perm m) ∧
    ∀ l₁ l₂, Listing d' l₁ → Listing d' l₂ →
      ∃ m', scanUpdateDir e policy l₁ l₂ d' = some (d', m') ∧ m'.Perm m

/-- The artifacts of a platform with several of them have components that fit an `int`, and one
of them alone is of maximal version. -/
structure Unambiguous : Prop where
  fits : ∀ c c', IsArtifact e policy d c → IsArtifact e policy d c' → c.platform = c'.platform →
    c.name ≠ c'.name → FitsInt c.version
  unique : ∀ c c', Chosen e policy d c → Chosen e policy d c' → c.platform = c'.platform →
    c.name = c'.name

end Spec

/-! ## The comparison -/

private theorem cmpInts_pos {as bs : List Nat} (h : as.length = bs.length) :
    0 < cmpInts as bs ↔ bs < as := by
  induction as generalizing bs with
  | nil =>
    obtain rfl : bs = [] := List.length_eq_zero_iff.mp h.symm
    simp [cmpInts]
  | cons a as ih =>
    obtain ⟨b, bs, rfl⟩ := List.exists_cons_of_length_eq_add_one h.symm
    rw [cmpInts, List.cons_lt_cons_iff]
    split
    · simp
      omega
    · split
      · simp
        omega
      · rw [ih (by simpa using h)]
        have hab : b = a := by omega
        simp [hab]

/-- Where versions can be compared, the comparison is the order of their numbers. -/
theorem semverCmp_pos {c k : BinaryCandidate} {r : Int}
    (h : semverCmp c.version k.version = some r) : 0 < r ↔ numbers k.version < numbers c.version := by
  obtain ⟨fc, fk⟩ := fitsInt_of_semverCmp c.version_ok k.version_ok h
  obtain ⟨v, w, -, -, hv, hw, hr⟩ := semverCmp_eq c.version_ok k.version_ok fc fk
  rw [hr] at h
  cases h
  rw [numbers, numbers, hv.2, hw.2]
  exact cmpInts_pos rfl

theorem semverCmp_isSome {c k : BinaryCandidate} (fc : FitsInt c.version)
    (fk : FitsInt k.version) : (semverCmp c.version k.version).isSome = true := by
  obtain ⟨v, w, -, -, -, -, hr⟩ := semverCmp_eq c.version_ok k.version_ok fc fk
  simp [hr]

private theorem fits_of_isSome (c k : BinaryCandidate)
    (h : (semverCmp c.version k.version).isSome = true) :
    FitsInt c.version ∧ FitsInt k.version := by
  obtain ⟨r, hr⟩ := Option.isSome_iff_exists.mp h
  exact fitsInt_of_semverCmp c.version_ok k.version_ok hr

/-! ## The passes -/

section Passes

variable {e : ScanEnv} {policy : Trust.Policy} {d : Directory}

private theorem sha256FileHex_ne_nil (binary : Bytes) : sha256FileHex e binary ≠ [] := by
  intro h
  have := congrArg List.length h
  rw [sha256FileHex, length_hex, e.sha256_length] at this
  simp at this

private theorem filename_of_parse {name : Bytes} {info : ClientBinaryInfo}
    (h : parseClientBinaryFilename name = some info) : info.filename = name := by
  simp only [parseClientBinaryFilename, Option.bind_eq_bind, Option.bind_eq_some_iff] at h
  obtain ⟨rest, -, ⟨platform, version⟩, -, h⟩ := h
  split at h
  · cases h
  split at h
  · split at h
    · cases h
    · cases h
      rfl
  · cases h

/-- **The first pass.** Its candidates are the verified artifacts. -/
theorem candidateOf_eq_some {name : Bytes} {c : BinaryCandidate} :
    candidateOf e policy d name = some c ↔ c.name = name ∧ IsArtifact e policy d c := by
  constructor
  · intro h
    unfold candidateOf at h
    split at h
    · rename_i binary hb
      split at h
      · cases h
      rename_i hsig
      split at h
      · cases h
      rename_i info hinfo
      split at h
      · cases h
      rename_i hknown
      split at h
      · rename_i sig hs
        split at h
        · cases h
        rename_i hacc
        simp only [sha256FileHex_ne_nil, ↓reduceIte, Option.some.injEq] at h
        subst h
        obtain ⟨platform, version, filename, isWindows, hv⟩ := info
        obtain rfl := filename_of_parse hinfo
        exact ⟨rfl, ⟨isWindows, hinfo⟩, by simpa using hsig, by simpa using hknown, binary, sig, hb,
          hs, by simpa using hacc, rfl, rfl⟩
      · cases h
    · cases h
  · rintro ⟨rfl, ⟨isWindows, hname⟩, hbin, hknown, binary, sig, hb, hs, hacc, hsha, hsize⟩
    obtain ⟨name, platform, version, sha, size, hv⟩ := c
    simp only at *
    subst hsha hsize
    simp [candidateOf, hb, hbin, hname, hknown, hs, hacc, sha256FileHex_ne_nil]

theorem IsArtifact.ext {c c' : BinaryCandidate} (h : IsArtifact e policy d c)
    (h' : IsArtifact e policy d c') (hn : c.name = c'.name) : c = c' := by
  have hc := candidateOf_eq_some.mpr ⟨rfl, h⟩
  rw [hn, candidateOf_eq_some.mpr ⟨rfl, h'⟩] at hc
  exact (Option.some.inj hc).symm

theorem mem_candidates {l : List Bytes} (hl : Listing d l) {c : BinaryCandidate} :
    c ∈ candidates e policy d l ↔ IsArtifact e policy d c := by
  rw [candidates, List.mem_filterMap]
  constructor
  · rintro ⟨n, -, hc⟩
    exact (candidateOf_eq_some.mp hc).2
  · intro h
    obtain ⟨binary, sig, hb, -⟩ := h.files
    exact ⟨c.name, (hl.2 _).mpr (by simp [hb]), candidateOf_eq_some.mpr ⟨rfl, h⟩⟩

theorem nodup_candidates {l : List Bytes} (hl : l.Nodup) : (candidates e policy d l).Nodup := by
  refine hl.filterMap fun n n' c hc hc' => ?_
  rw [← (candidateOf_eq_some.mp hc).1, ← (candidateOf_eq_some.mp hc').1]

private theorem foldl_deleteOther (K : List BinaryCandidate) (l : List Bytes) (d : Directory)
    (n : Bytes) : l.foldl (deleteOther K) d n = if n ∈ l then keepOnly K d n else d n := by
  induction l generalizing d with
  | nil => simp
  | cons x l ih =>
    have hx : ∀ m, deleteOther K d x m = if m = x then keepOnly K d m else d m := by
      intro m
      unfold deleteOther keepOnly
      cases hd : d x with
      | none =>
        by_cases hm : m = x
        · simp [hm, hd]
        · simp [hm]
      | some y =>
        cases y with
        | other =>
          by_cases hm : m = x
          · simp [hm, hd]
          · simp [hm]
        | file b =>
          by_cases hk : x ∈ keepNames K
          · by_cases hm : m = x
            · simp [hm, hd, hk]
            · simp [hk, hm]
          · by_cases hm : m = x
            · simp [hm, hd, hk]
            · simp [hk, hm]
    have hkeep : keepOnly K (deleteOther K d x) n = keepOnly K d n := by
      rw [keepOnly, hx]
      by_cases hn : n = x
      · rw [if_pos hn]
        unfold keepOnly
        cases hd : d n with
        | none => rfl
        | some y =>
          cases y with
          | other => rfl
          | file b => by_cases hk : n ∈ keepNames K <;> simp [hk]
      · rw [if_neg hn]
        rfl
    rw [List.foldl_cons, ih, hkeep, hx]
    by_cases hn : n = x
    · simp [hn]
    · simp [hn]

/-- **The third pass**, over a listing of the directory. -/
theorem deleteOthers_eq {K : List BinaryCandidate} {l : List Bytes} (hl : Listing d l) :
    l.foldl (deleteOther K) d = keepOnly K d := by
  funext n
  rw [foldl_deleteOther]
  split
  · rfl
  · rename_i hn
    have hd : d n = none := by
      by_contra h
      exact hn ((hl.2 n).mpr h)
    simp [keepOnly, hd]

/-- What a scan that has a result does. -/
theorem scan_cases {l₁ l₂ : List Bytes} {r : Directory × List UpdateManifestEntry}
    (h₁ : Listing d l₁) (h₂ : Listing d l₂) (h : scanUpdateDir e policy l₁ l₂ d = some r) :
    ∃ K, keepersOf (candidates e policy d l₁) = some K ∧ Keepers e policy d K ∧
      r = (keepOnly K d, manifestOf K) := by
  simp only [scanUpdateDir, Option.bind_eq_bind, Option.bind_eq_some_iff] at h
  obtain ⟨K, hK, hr⟩ := h
  refine ⟨K, hK, ⟨nodup_of_select hK, ?_, ?_⟩, ?_⟩
  · intro k hk
    refine ⟨(mem_candidates h₁).mp (mem_of_select hK k hk), fun c hc hp => ?_⟩
    exact select_spec (fun a b r h => semverCmp_pos h) hK k hk c ((mem_candidates h₁).mpr hc) hp
  · exact fun c hc => covered_of_select hK c ((mem_candidates h₁).mpr hc)
  · rw [← Option.some.inj hr, deleteOthers_eq h₂]

end Passes

/-! ## When the outcome is right -/

section Outcome

variable {e : ScanEnv} {policy : Trust.Policy} {d : Directory}

theorem Keepers.nodup {K : List BinaryCandidate} (h : Keepers e policy d K) : K.Nodup :=
  List.Nodup.of_map _ h.platforms

/-- Without ties, the keepers are all artifacts of maximal version. -/
theorem Keepers.mem_iff {K : List BinaryCandidate} (h : Keepers e policy d K)
    (hu : Unambiguous e policy d) {k : BinaryCandidate} : k ∈ K ↔ Chosen e policy d k := by
  refine ⟨h.chosen k, fun hk => ?_⟩
  obtain ⟨j, hj, hp⟩ := h.covered k hk.1
  have hc := h.chosen j hj
  exact (hc.1.ext hk.1 (hu.unique j k hc hk hp)) ▸ hj

theorem Keepers.perm {K K' : List BinaryCandidate} (h : Keepers e policy d K)
    (h' : Keepers e policy d K') (hu : Unambiguous e policy d) : K.Perm K' :=
  (List.perm_ext_iff_of_nodup h.nodup h'.nodup).mpr fun _ => by rw [h.mem_iff hu, h'.mem_iff hu]

theorem keepOnly_perm {K K' : List BinaryCandidate} (h : K.Perm K') (d : Directory) :
    keepOnly K d = keepOnly K' d := by
  funext n
  have hn : n ∈ keepNames K ↔ n ∈ keepNames K' := (h.flatMap_right _).mem_iff
  unfold keepOnly
  cases d n with
  | none => rfl
  | some x =>
    cases x with
    | other => rfl
    | file b => simp [hn]

/-- Artifacts that can be compared: every listing has a scan. -/
theorem scan_spec {l₁ l₂ : List Bytes} (hu : Unambiguous e policy d) (h₁ : Listing d l₁)
    (h₂ : Listing d l₂) : ∃ K, Keepers e policy d K ∧
      scanUpdateDir e policy l₁ l₂ d = some (keepOnly K d, manifestOf K) := by
  obtain ⟨K, hK⟩ : ∃ K, keepersOf (candidates e policy d l₁) = some K := by
    refine exists_select (nodup_candidates h₁.1) fun a ha b hb hab hp => ?_
    have ha := (mem_candidates h₁).mp ha
    have hb := (mem_candidates h₁).mp hb
    have hne : a.name ≠ b.name := fun he => hab (ha.ext hb he)
    exact semverCmp_isSome (hu.fits a b ha hb hp hne) (hu.fits b a hb ha hp.symm hne.symm)
  have hscan : scanUpdateDir e policy l₁ l₂ d = some (l₂.foldl (deleteOther K) d, manifestOf K) := by
    simp [scanUpdateDir, hK]
  obtain ⟨K', hK', hkeep, hr⟩ := scan_cases h₁ h₂ hscan
  cases hK.symm.trans hK'
  exact ⟨K, hkeep, hscan.trans (congrArg some hr)⟩

theorem IsArtifact.name_ne_nil {c : BinaryCandidate} (hc : IsArtifact e policy d c) :
    c.name ≠ [] := by
  obtain ⟨w, h⟩ := hc.name
  intro he
  rw [he] at h
  simp only [parseClientBinaryFilename, Option.bind_eq_bind, Option.bind_eq_some_iff] at h
  obtain ⟨rest, hr, -⟩ := h
  simp [stripPrefix, ascii] at hr

/-- An artifact is not the signature file of another. -/
theorem IsArtifact.name_ne_sig {c k : BinaryCandidate} (hc : IsArtifact e policy d c)
    (hk : IsArtifact e policy d k) : c.name ≠ k.name ++ SIG := by
  intro he
  have hlen := List.length_pos_iff.mpr hk.name_ne_nil
  have hsig : isSigName c.name = true := by
    rw [he]
    simp [isSigName, SIG, ascii, List.rtake, hlen]
  rw [hc.binary] at hsig
  cases hsig

/-- An artifact is among the names kept exactly if it is a keeper. -/
theorem name_mem_keepNames {K : List BinaryCandidate} (hK : ∀ k ∈ K, IsArtifact e policy d k)
    {c : BinaryCandidate} (hc : IsArtifact e policy d c) : c.name ∈ keepNames K ↔ c ∈ K := by
  simp only [keepNames, List.mem_flatMap, List.mem_cons, List.not_mem_nil, or_false]
  constructor
  · rintro ⟨k, hk, he | he⟩
    · exact hc.ext (hK k hk) he ▸ hk
    · exact absurd he (hc.name_ne_sig (hK k hk))
  · exact fun h => ⟨c, h, .inl rfl⟩

/-- The artifacts that are left are the keepers. -/
theorem isArtifact_keepOnly {K : List BinaryCandidate} (hK : ∀ k ∈ K, IsArtifact e policy d k)
    {c : BinaryCandidate} : IsArtifact e policy (keepOnly K d) c ↔ c ∈ K := by
  have file : ∀ {n b}, keepOnly K d n = some (.file b) ↔
      d n = some (.file b) ∧ n ∈ keepNames K := by
    intro n b
    unfold keepOnly
    cases d n with
    | none => simp
    | some x =>
      cases x with
      | other => simp
      | file b' =>
        by_cases hn : n ∈ keepNames K <;> simp [hn]
  constructor
  · intro h
    obtain ⟨binary, sig, hb, hs, hrest⟩ := h.files
    obtain ⟨hb, hname⟩ := file.mp hb
    have hc : IsArtifact e policy d c :=
      ⟨h.name, h.binary, h.known, binary, sig, hb, (file.mp hs).1, hrest⟩
    exact (name_mem_keepNames hK hc).mp hname
  · intro h
    have hc := hK c h
    obtain ⟨binary, sig, hb, hs, hrest⟩ := hc.files
    have hin : c.name ∈ keepNames K ∧ c.name ++ SIG ∈ keepNames K := by
      simp only [keepNames, List.mem_flatMap, List.mem_cons, List.not_mem_nil, or_false]
      exact ⟨⟨c, h, .inl rfl⟩, c, h, .inr rfl⟩
    exact ⟨hc.name, hc.binary, hc.known, binary, sig, file.mpr ⟨hb, hin.1⟩, file.mpr ⟨hs, hin.2⟩,
      hrest⟩

/-- A second scan of what was kept keeps it. -/
private theorem second_scan {K : List BinaryCandidate} (hK : Keepers e policy d K)
    {l₁ l₂ : List Bytes} (h₁ : Listing (keepOnly K d) l₁) (h₂ : Listing (keepOnly K d) l₂) :
    ∃ m', scanUpdateDir e policy l₁ l₂ (keepOnly K d) = some (keepOnly K d, m') ∧
      m'.Perm (manifestOf K) := by
  have hart : ∀ c, IsArtifact e policy (keepOnly K d) c ↔ c ∈ K := fun c =>
    isArtifact_keepOnly fun k hk => (hK.chosen k hk).1
  have alone : ∀ c ∈ K, ∀ c' ∈ K, c.platform = c'.platform → c = c' := fun c hc c' hc' he =>
    List.inj_on_of_nodup_map hK.platforms hc hc' he
  have hu : Unambiguous e policy (keepOnly K d) := by
    constructor
    · intro c c' hc hc' hp hne
      exact absurd (congrArg _ (alone c ((hart c).mp hc) c' ((hart c').mp hc') hp)) hne
    · intro c c' hc hc' hp
      exact congrArg _ (alone c ((hart c).mp hc.1) c' ((hart c').mp hc'.1) hp)
  obtain ⟨K', hK', hscan⟩ := scan_spec hu h₁ h₂
  have hperm : K'.Perm K := by
    refine (List.perm_ext_iff_of_nodup hK'.nodup hK.nodup).mpr fun k => ?_
    rw [hK'.mem_iff hu]
    refine ⟨fun h => (hart k).mp h.1, fun h => ⟨(hart k).mpr h, fun c hc hp => ?_⟩⟩
    exact (congrArg (fun c : BinaryCandidate => numbers c.version)
      (alone c ((hart c).mp hc) k h hp)).le
  refine ⟨manifestOf K', ?_, hperm.map _⟩
  rw [hscan, keepOnly_perm hperm]
  have hidem : keepOnly K (keepOnly K d) = keepOnly K d := by
    funext n
    unfold keepOnly
    cases d n with
    | none => rfl
    | some x =>
      cases x with
      | other => rfl
      | file b => by_cases hn : n ∈ keepNames K <;> simp [hn]
  rw [hidem]

/-- The artifact may stand at the beginning of a listing. -/
private theorem listing_first {c : BinaryCandidate} (hc : IsArtifact e policy d c) {l : List Bytes}
    (hl : Listing d l) : Listing d (c.name :: l.erase c.name) := by
  have hmem : c.name ∈ l := by
    obtain ⟨binary, sig, hb, -⟩ := hc.files
    exact (hl.2 _).mpr (by simp [hb])
  have hperm := List.perm_cons_erase hmem
  exact ⟨hperm.nodup_iff.mp hl.1, fun n => (hperm.mem_iff (a := n)).symm.trans (hl.2 n)⟩

/-- There it is kept, if none exceeds it. -/
private theorem kept_if_first {c : BinaryCandidate} (hc : Chosen e policy d c) {l : List Bytes}
    (hl : Listing d l) {d' : Directory} {m : List UpdateManifestEntry}
    (h : scanUpdateDir e policy (c.name :: l.erase c.name) l d = some (d', m)) :
    ∃ K, Keepers e policy d K ∧ c ∈ K ∧ d' = keepOnly K d := by
  obtain ⟨K, hK, hkeep, hr⟩ := scan_cases (listing_first hc.1 hl) hl h
  refine ⟨K, hkeep, ?_, (Prod.mk.inj hr).1⟩
  have hcand : candidates e policy d (c.name :: l.erase c.name) =
      c :: candidates e policy d (l.erase c.name) := by
    rw [candidates, List.filterMap_cons, candidateOf_eq_some.mpr ⟨rfl, hc.1⟩]
    rfl
  rw [hcand] at hK
  refine mem_select_of_first (fun a b r h => semverCmp_pos h) (fun a ha hp => ?_) hK
  obtain ⟨n, -, ha⟩ := List.mem_filterMap.mp ha
  exact hc.2 a (candidateOf_eq_some.mp ha).2 hp

/-- If every listing leads to the same directory, no two artifacts share the maximal version. -/
theorem unique_of_scans {d' : Directory} {l : List Bytes} (hl : Listing d l)
    (h : ∀ l₁ l₂, Listing d l₁ → Listing d l₂ →
      ∃ m, scanUpdateDir e policy l₁ l₂ d = some (d', m)) {c c' : BinaryCandidate}
    (hc : Chosen e policy d c) (hc' : Chosen e policy d c') (hp : c.platform = c'.platform) :
    c.name = c'.name := by
  by_contra hne
  have scan : ∀ {c : BinaryCandidate}, Chosen e policy d c →
      ∃ K, Keepers e policy d K ∧ c ∈ K ∧ d' = keepOnly K d := by
    intro c hc
    obtain ⟨m, hm⟩ := h _ l (listing_first hc.1 hl) hl
    exact kept_if_first hc hl hm
  obtain ⟨K, hK, hcK, hd⟩ := scan hc
  obtain ⟨K', hK', hcK', hd'⟩ := scan hc'
  have h₁ := (isArtifact_keepOnly fun k hk => (hK.chosen k hk).1).mpr hcK
  rw [← hd, hd', isArtifact_keepOnly fun k hk => (hK'.chosen k hk).1] at h₁
  exact hne (congrArg _ (List.inj_on_of_nodup_map hK'.platforms h₁ hcK' hp))

/-- **The scan.** Its outcome is right exactly if the artifacts of a platform can be compared
and one alone is of maximal version. -/
theorem scan_right_iff {l : List Bytes} (hl : Listing d l) :
    ScanRight e policy d ↔ Unambiguous e policy d := by
  constructor
  · rintro ⟨d', m, -, hscan, -⟩
    have hd' : ∀ l₁ l₂, Listing d l₁ → Listing d l₂ →
        ∃ m, scanUpdateDir e policy l₁ l₂ d = some (d', m) := fun l₁ l₂ h₁ h₂ =>
      (hscan l₁ l₂ h₁ h₂).imp fun _ h => h.1
    refine ⟨fun c c' hc hc' hp hne => ?_, fun c c' hc hc' hp => unique_of_scans hl hd' hc hc' hp⟩
    obtain ⟨m', hm'⟩ := hd' l l hl hl
    obtain ⟨K, hK, -, -⟩ := scan_cases hl hl hm'
    exact compared_of_select (P := fun c : BinaryCandidate => FitsInt c.version) fits_of_isSome hK c
      ((mem_candidates hl).mpr hc) c' ((mem_candidates hl).mpr hc')
      (fun he => hne (congrArg _ he)) hp
  · intro hu
    obtain ⟨K, hK, -⟩ := scan_spec hu hl hl
    refine ⟨keepOnly K d, manifestOf K, ⟨K, hK, rfl, rfl⟩, fun l₁ l₂ h₁ h₂ => ?_,
      fun l₁ l₂ h₁ h₂ => second_scan hK h₁ h₂⟩
    obtain ⟨K', hK', hs⟩ := scan_spec hu h₁ h₂
    have hperm := hK'.perm hK hu
    exact ⟨manifestOf K', by rw [hs, keepOnly_perm hperm], hperm.map _⟩

end Outcome

/-! ## Two names of one version -/

/-- The roots and the crypto library of a sample bundle, with the digest of an empty binary. -/
def sampleEnv : ScanEnv where
  crypto := Trust.allValid
  roots := Trust.twoRoots
  sha256 _ :=
    [0xe3, 0xb0, 0xc4, 0x42, 0x98, 0xfc, 0x1c, 0x14, 0x9a, 0xfb, 0xf4, 0xc8, 0x99, 0x6f, 0xb9, 0x24,
      0x27, 0xae, 0x41, 0xe4, 0x64, 0x9b, 0x93, 0x4c, 0xa4, 0x95, 0x99, 0x1b, 0x78, 0x52, 0xb8, 0x55]
  sha256_length _ := rfl

def samplePolicy : Trust.Policy := ⟨true, 0, 0⟩

def linuxName (version : String) : Bytes := ascii "ntm-client-linux-amd64-" ++ ascii version

/-- Each of these artifacts is an empty binary beside its bundle. -/
def sampleDirectory (names : List Bytes) : Directory := fun n =>
  if n ∈ names then some (.file [])
  else if n ∈ names.map (· ++ SIG) then some (.file (Trust.sampleBundle 7).text)
  else none

def sampleListing (names : List Bytes) : List Bytes := names ++ names.map (· ++ SIG)

theorem listing_sample {names : List Bytes} (h : (sampleListing names).Nodup) :
    Listing (sampleDirectory names) (sampleListing names) := by
  refine ⟨h, fun n => ?_⟩
  simp only [sampleListing, sampleDirectory, List.mem_append]
  split
  · simp [*]
  · split <;> simp [*]

/-- In a directory with one artifact, there is nothing to choose. -/
private theorem unambiguous_single (e : ScanEnv) (policy : Trust.Policy) (name : Bytes) :
    Unambiguous e policy (sampleDirectory [name]) := by
  have only : ∀ c, IsArtifact e policy (sampleDirectory [name]) c → c.name = name := by
    intro c hc
    obtain ⟨binary, sig, hb, hs, -⟩ := hc.files
    by_cases hn : c.name = name
    · exact hn
    · -- then its signature file would be one with the suffix twice
      have h₁ : c.name = name ++ SIG := by
        by_contra h
        simp [sampleDirectory, hn, h] at hb
      have h₂ : c.name ++ SIG ≠ name := by
        intro h
        rw [h₁] at h
        have := congrArg List.length h
        simp [SIG, ascii] at this
      have h₃ : c.name ++ SIG ≠ name ++ SIG := fun h => hn (List.append_cancel_right h)
      simp [sampleDirectory, h₂, h₃] at hs
  constructor
  · intro c c' hc hc' _ hne
    exact absurd ((only c hc).trans (only c' hc').symm) hne
  · exact fun c c' hc hc' _ => (only c hc.1).trans (only c' hc'.1).symm

theorem scan_right_iff_single :
    Listing (sampleDirectory [linuxName "1.2.3"]) (sampleListing [linuxName "1.2.3"]) ∧
      ScanRight sampleEnv samplePolicy (sampleDirectory [linuxName "1.2.3"]) := by
  have hl : Listing (sampleDirectory [linuxName "1.2.3"]) (sampleListing [linuxName "1.2.3"]) :=
    listing_sample (by decide +kernel)
  exact ⟨hl, (scan_right_iff hl).mpr (unambiguous_single _ _ _)⟩

/-- The names of two artifacts whose versions compare equal. -/
def tiedNames : List Bytes := [linuxName "1.2.3", linuxName "1.2.3.0"]

/-- Which of two artifacts of one version is kept depends on the listing. -/
theorem scan_depends_on_listing :
    Listing (sampleDirectory tiedNames) (sampleListing tiedNames) ∧
    Listing (sampleDirectory tiedNames) (sampleListing tiedNames.reverse) ∧
    (∃ d' m, scanUpdateDir sampleEnv samplePolicy (sampleListing tiedNames)
        (sampleListing tiedNames) (sampleDirectory tiedNames) = some (d', m) ∧
      d' (linuxName "1.2.3") = some (.file []) ∧ d' (linuxName "1.2.3.0") = none) ∧
    (∃ d' m, scanUpdateDir sampleEnv samplePolicy (sampleListing tiedNames.reverse)
        (sampleListing tiedNames) (sampleDirectory tiedNames) = some (d', m) ∧
      d' (linuxName "1.2.3") = none ∧ d' (linuxName "1.2.3.0") = some (.file [])) ∧
    ¬ScanRight sampleEnv samplePolicy (sampleDirectory tiedNames) := by
  have h₁ : Listing (sampleDirectory tiedNames) (sampleListing tiedNames) :=
    listing_sample (by decide +kernel)
  have h₂ : Listing (sampleDirectory tiedNames) (sampleListing tiedNames.reverse) := by
    refine ⟨by decide +kernel, fun n => ?_⟩
    rw [← h₁.2 n]
    simp [sampleListing, tiedNames, or_comm, or_left_comm]
  have r₁ : (scanUpdateDir sampleEnv samplePolicy (sampleListing tiedNames)
      (sampleListing tiedNames) (sampleDirectory tiedNames)).map (fun r =>
        (r.1 (linuxName "1.2.3"), r.1 (linuxName "1.2.3.0"))) = some (some (.file []), none) := by
    decide +kernel
  have r₂ : (scanUpdateDir sampleEnv samplePolicy (sampleListing tiedNames.reverse)
      (sampleListing tiedNames) (sampleDirectory tiedNames)).map (fun r =>
        (r.1 (linuxName "1.2.3"), r.1 (linuxName "1.2.3.0"))) = some (none, some (.file [])) := by
    decide +kernel
  obtain ⟨⟨d₁, m₁⟩, s₁, e₁⟩ := Option.map_eq_some_iff.mp r₁
  obtain ⟨⟨d₂, m₂⟩, s₂, e₂⟩ := Option.map_eq_some_iff.mp r₂
  refine ⟨h₁, h₂, ⟨d₁, m₁, s₁, (Prod.mk.inj e₁).1, (Prod.mk.inj e₁).2⟩,
    ⟨d₂, m₂, s₂, (Prod.mk.inj e₂).1, (Prod.mk.inj e₂).2⟩, ?_⟩
  rintro ⟨d', m, -, h, -⟩
  obtain ⟨m', hm', -⟩ := h _ _ h₁ h₁
  obtain ⟨m'', hm'', -⟩ := h _ _ h₂ h₁
  rw [s₁] at hm'
  rw [s₂] at hm''
  cases hm'
  cases hm''
  have := (Prod.mk.inj e₁).1.symm.trans (Prod.mk.inj e₂).1
  cases this

end TrafficMonitor.Artifacts
