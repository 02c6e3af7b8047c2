import TrafficMonitor.Basic.Files
import TrafficMonitor.Basic.Threads
import TrafficMonitor.Server.UpdateDir

/-!
# Pushing a client artifact

`POST /admin/client/push` (`web_dashboard.cpp`) checks a new client artifact, writes it into the
update directory under temporary names, renames the signature and then the binary, and scans the
directory. Pushes and scans run in threads of their own: one call on the file system, one round
of a pass of the scan or one use of the manifest is a step. An iterator visits the names that
stay in the directory, and perhaps others; deletions succeed.

Proved here:

* `parse_filename`: the scan reads the platform and the version back from the name of a pushed
  file;
* `dir_of_untouched`: a step changes no file but those it touches.
-/

namespace TrafficMonitor.ClientPush

open Bytes Artifacts Files Runs Threads
open Rollback hiding step

/-! ## The code -/

/-- The fields of the form. -/
structure Request where
  platform : Bytes
  version : Bytes
  nonce : Bytes
  authProof : Bytes
  binary : Bytes
  signature : Bytes
  deriving DecidableEq

/-- What the rest of the server answers: the rate limiter, the nonce store, whether nonce, digest
and proof are decoded, and the check of the proof. -/
structure Checks where
  tryAcquire : Bool
  consume : Bool
  decoded : Bool
  verifyUpgradeAuth : Bool

/-- What the system answers while a file is written: whether the stream opens, whether it takes
the bytes, and how many of them have reached the file when it is closed. -/
structure WriteIo where
  opened : Bool
  taken : Bool
  flushed : Nat

structure Shared where
  dir : Directory
  g_manifest : List UpdateManifestEntry

/-- Where a thread is. The scan has a push for a caller, or none. -/
inductive Thread
  | idle
  | validated (r : Request)
  | checked (r : Request)
  | wroteBinary (r : Request)
  | madeExecutable (r : Request)
  | wroteSig (r : Request)
  | renamedSig (r : Request)
  | renamedBinary (r : Request)
  | visiting (caller : Option Request) (todo : List Bytes) (candidates : List BinaryCandidate)
  | selected (caller : Option Request) (keepers : List BinaryCandidate)
  | deleting (caller : Option Request) (keepers : List BinaryCandidate) (todo : List Bytes)
  | answered (status : Nat) (error : Bytes)
  | undefined
  deriving DecidableEq

inductive Action
  | receive (r : Request) (io : Checks) (policy : Trust.Policy)
  | checkVersion
  | writeBinary (io : WriteIo)
  | chmod (ok : Bool)
  | writeSig (io : WriteIo)
  | renameSig (ok : Bool)
  | renameBinary (ok : Bool)
  | list (listing : List Bytes)
  | visit (policy : Trust.Policy)
  | select
  | delete
  | publish

def Request.filename (r : Request) : Bytes :=
  ascii "ntm-client-" ++ (r.platform ++ (HYPHEN :: r.version ++
    (if hasSub (ascii "windows") r.platform then ascii ".exe" else [])))

def Request.sigTarget (r : Request) : Bytes := r.filename ++ SIG
def Request.binTmp (r : Request) : Bytes := r.filename ++ ascii ".upload_tmp"
def Request.sigTmp (r : Request) : Bytes := r.filename ++ ascii ".sig.upload_tmp"

def Semver.str (v : Semver) : Bytes :=
  decimal v.major ++ ascii "." ++ decimal v.minor ++ ascii "." ++ decimal v.patch ++ ascii "." ++
    decimal v.revision

/-- Up to the check that the version can be parsed. -/
def receive (e : ScanEnv) (r : Request) (io : Checks) (policy : Trust.Policy) : Thread :=
  if !io.tryAcquire then .answered 429 (ascii "rate limit exceeded")
  else if r.platform.isEmpty || r.version.isEmpty || r.nonce.isEmpty || r.authProof.isEmpty ||
      r.binary.isEmpty || r.signature.isEmpty then
    .answered 400 (ascii "missing required field")
  else if !io.consume then .answered 403 (ascii "invalid, expired, or already-used nonce")
  else if !io.decoded then .answered 400 (ascii "malformed nonce, binary, or auth_proof")
  else if !isKnownClientPlatform r.platform then .answered 400 (ascii "unknown platform")
  else if !accepts e policy r.platform r.binary r.signature then
    .answered 403 (ascii "binary signature verification failed")
  else if !io.verifyUpgradeAuth then .answered 403 (ascii "auth proof verification failed")
  else if (parseSemver r.version).isNone then
    .answered 400 (ascii "unparseable version string")
  else .validated r

/-- The manifest's entry for a platform. -/
def published (manifest : List UpdateManifestEntry) (platform : Bytes) :
    Option UpdateManifestEntry :=
  manifest.find? (·.platform = platform)

/-- The version check: only a newer version than the current one goes on. -/
def checkVersion (manifest : List UpdateManifestEntry) (r : Request) : Thread :=
  match published manifest r.platform with
  | none => .checked r
  | some m => match parseSemver m.version with
    | none => .checked r
    | some curVer =>
      if (semverOf r.version).gt curVer then .checked r
      else .answered 409 (ascii "pushed version " ++ Semver.str (semverOf r.version) ++
        ascii " is not newer than current " ++ Semver.str curVer ++ ascii " for platform " ++
        r.platform)

def cleanup (r : Request) (d : Directory) : Directory := remove r.sigTmp (remove r.binTmp d)

/-- A stream is opened, written and closed; what closing it loses is not noticed. -/
def writeTmp (io : WriteIo) (r : Request) (path data cannotCreate failed : Bytes) (next : Thread)
    (d : Directory) : Thread × Directory :=
  if !io.opened then (.answered 500 cannotCreate, cleanup r d)
  else
    let d := write path (.file (data.take io.flushed)) d
    if !io.taken then (.answered 500 failed, cleanup r d) else (next, d)

/-- One step of one thread. -/
def act (e : ScanEnv) (l : Thread) (u : Shared) (a : Action) : Option (Thread × Shared) :=
  let onDir (p : Thread × Directory) : Option (Thread × Shared) :=
    some (p.1, { u with dir := p.2 })
  match l, a with
  | .idle, .receive r io policy => some (receive e r io policy, u)
  | .validated r, .checkVersion => some (checkVersion u.g_manifest r, u)
  | .checked r, .writeBinary io => onDir <|
    writeTmp io r r.binTmp r.binary (ascii "cannot create temp file") (ascii "write failed")
      (.wroteBinary r) u.dir
  | .wroteBinary r, .chmod ok => onDir <|
    if ok then (.madeExecutable r, u.dir)
    else (.answered 500 (ascii "chmod failed"), cleanup r u.dir)
  | .madeExecutable r, .writeSig io => onDir <|
    writeTmp io r r.sigTmp r.signature (ascii "cannot create sig temp file")
      (ascii "sig write failed") (.wroteSig r) u.dir
  | .wroteSig r, .renameSig ok => onDir <|
    let (d, ok) := tryRename ok r.sigTmp r.sigTarget u.dir
    if ok then (.renamedSig r, d)
    else (.answered 500 (ascii "sig rename failed"), cleanup r d)
  | .renamedSig r, .renameBinary ok => onDir <|
    let (d, ok) := tryRename ok r.binTmp r.filename u.dir
    if ok then (.renamedBinary r, d) else (.answered 500 (ascii "binary rename failed"), d)
  | .idle, .list listing => some (.visiting none listing [], u)
  | .renamedBinary r, .list listing => some (.visiting (some r) listing [], u)
  | .visiting caller (n :: todo) cs, .visit policy =>
    some (.visiting caller todo (cs ++ (candidateOf e policy u.dir n).toList), u)
  | .visiting caller [] cs, .select => match keepersOf cs with
    | none => some (.undefined, u)
    | some keepers => some (.selected caller keepers, u)
  | .selected caller keepers, .list listing => some (.deleting caller keepers listing, u)
  | .deleting caller keepers (n :: todo), .delete =>
    onDir (.deleting caller keepers todo, deleteOther keepers u.dir n)
  | .deleting _ keepers [], .publish =>
    some (.answered 200 [], { u with g_manifest := manifestOf keepers })
  | _, _ => none

/-! ## What a push relies on -/

/-- The binary and its signature stand under the name. -/
def Pair (d : Directory) (name binary sig : Bytes) : Prop :=
  d name = some (.file binary) ∧ d (name ++ SIG) = some (.file sig)

def Present (d : Directory) (name : Bytes) : Prop := ∃ binary sig, Pair d name binary sig

def Installed (r : Request) (d : Directory) : Prop := Pair d r.filename r.binary r.signature

/-- An artifact for the platform of the push that is at least as new. -/
def AtLeast (r : Request) (c : BinaryCandidate) : Prop :=
  c.platform = r.platform ∧ numbers r.version ≤ numbers c.version

instance (r : Request) : DecidablePred (AtLeast r) := fun _ => inferInstanceAs (Decidable (_ ∧ _))

/-- The files that a push needs from now on. -/
def relied : Thread → List Bytes
  | .wroteBinary r => [r.binTmp]
  | .madeExecutable r => [r.binTmp]
  | .wroteSig r => [r.binTmp, r.sigTmp]
  | .renamedSig r => [r.binTmp, r.sigTarget]
  | .renamedBinary r => [r.filename, r.sigTarget]
  | .visiting (some r) _ cs => r.filename :: r.sigTarget :: keepNames (cs.filter (AtLeast r ·))
  | .selected (some r) keepers => keepNames (keepers.filter (·.platform = r.platform))
  | .deleting (some r) keepers _ => keepNames (keepers.filter (·.platform = r.platform))
  | _ => []

/-- The files that a step may change. -/
def touched : Thread → Action → List Bytes
  | .checked r, .writeBinary _ => [r.binTmp, r.sigTmp]
  | .wroteBinary r, .chmod ok => if ok then [] else [r.binTmp, r.sigTmp]
  | .madeExecutable r, .writeSig _ => [r.binTmp, r.sigTmp]
  | .wroteSig r, .renameSig _ => [r.binTmp, r.sigTmp, r.sigTarget]
  | .renamedSig r, .renameBinary _ => [r.binTmp, r.filename]
  | .deleting _ keepers (n :: _), .delete => if n ∈ keepNames keepers then [] else [n]
  | _, _ => []

/-! ## The condition -/

/-- Three or four plain numbers of 32 bits. -/
def IsPlainVersion (s : Bytes) : Prop := ∃ v, IsVersion s v

/-- The versions that the second pass compares fit an `int`. -/
def Comparable (cs : List BinaryCandidate) : Prop :=
  ∀ c ∈ cs, ∀ c' ∈ cs, c ≠ c' → c.platform = c'.platform → FitsInt c.version

/-- No other artifact has the version of the push. -/
def NoTie (r : Request) (cs : List BinaryCandidate) : Prop :=
  ∀ c ∈ cs, c.platform = r.platform → numbers c.version = numbers r.version → c.name = r.filename

/-- What one step needs to be right: the new version and the published one are plain, closing a
file loses nothing, the pushed artifact is still accepted when the scan reads it, and the second
pass compares versions that fit and differ. -/
def Sound (e : ScanEnv) (l : Thread) (u : Shared) (a : Action) : Prop :=
  match l, a with
  | .validated r, .checkVersion => IsPlainVersion r.version ∧
    ∀ m, published u.g_manifest r.platform = some m → IsPlainVersion m.version
  | .checked r, .writeBinary io => io.taken = true → r.binary.length ≤ io.flushed
  | .madeExecutable r, .writeSig io => io.taken = true → r.signature.length ≤ io.flushed
  | .visiting (some r) (n :: _) _, .visit policy =>
    n = r.filename → accepts e policy r.platform r.binary r.signature = true
  | .visiting caller [] cs, .select => Comparable cs ∧ ∀ r, caller = some r → NoTie r cs
  | _, _ => True

/-- A listing holds every name of the directory, and none twice. -/
def Covers (d : Directory) (listing : List Bytes) : Prop :=
  listing.Nodup ∧ ∀ n, d n ≠ none → n ∈ listing

instance : DecidablePred IsPlain := fun _ => inferInstanceAs (Decidable (_ ∧ _ ∧ _))

variable {ι : Type} [DecidableEq ι]

/-- The step is sound, and touches no file that another push relies on. -/
structure Orderly (e : ScanEnv) (s : System ι Thread Shared) (a : ι × Action) : Prop where
  listing : ∀ listing, a.2 = .list listing → Covers s.shared.dir listing
  sound : Sound e (s.threads a.1) s.shared a.2
  undisturbed : Undisturbed relied touched s a

/-! ## What a push should do -/

/-- The manifest names exactly the pushed version, or a newer one, and its files are there. -/
def IsPublished (r : Request) (u : Shared) : Prop :=
  ∃ m, published u.g_manifest r.platform = some m ∧
    ((m.version = r.version ∧ m.filename = r.filename ∧ Installed r u.dir) ∨
      (numbers r.version < numbers m.version ∧ Present u.dir m.filename))

/-! ## File names -/

theorem isFileVersion_of_plain {s : Bytes} (h : IsPlainVersion s) : isFileVersion s = true := by
  obtain ⟨v, hplain, hv⟩ := h
  rw [isFileVersion_iff]
  refine ⟨?_, fun c hc => ⟨(hplain c hc).1, (hplain c hc).2.1⟩⟩
  simpa using versionOf_eq_some hv

private theorem versionLoop_chars {dots : Nat} {lastWasDot : Bool} {s : Bytes}
    (h : versionLoop dots lastWasDot s = true) : ∀ c ∈ s, c = DOT ∨ isDigit c = true := by
  fun_induction versionLoop dots lastWasDot s with
  | case1 => simp
  | case2 => cases h
  | case3 dots lastWasDot s hdot ih => simpa using ih h
  | case4 => cases h
  | case5 dots lastWasDot c s hc hd ih => simp_all

/-- The characters of a version are digits and dots. -/
theorem ne_of_mem_version {s : Bytes} (h : isFileVersion s = true) {b : UInt8} (hdot : b ≠ DOT)
    (hdigit : isDigit b = false) : b ∉ s := by
  intro hb
  obtain e | e := versionLoop_chars h b hb
  · exact hdot e
  · rw [hdigit] at e
    cases e

theorem version_ne_nil {s : Bytes} (h : isFileVersion s = true) : s ≠ [] := by
  rintro rfl
  cases h

theorem cutLast_append {c : UInt8} {b : Bytes} (a : Bytes) (h : c ∉ b) :
    cutLast c (a ++ c :: b) = some (a, b) := by
  have hcut : Lines.cut c ((a ++ c :: b).reverse) = some (b.reverse, a.reverse) := by
    rw [List.reverse_append, List.reverse_cons, List.append_assoc]
    exact Lines.cut_append c b.reverse a.reverse (by simpa using h)
  rw [cutLast, hcut]
  simp

/-- What ends with a nonempty text without `x` has no suffix that ends with `x`. -/
private theorem rtake_ne (a suffix : Bytes) {b : Bytes} {x : UInt8} (hb : b ≠ []) (hx : x ∉ b)
    (n : Nat) :
    (a ++ b).rtake n ≠ suffix ++ [x] := by
  intro he
  obtain ⟨t, ht⟩ : suffix ++ [x] <:+ a ++ b := he ▸ List.drop_suffix _ _
  obtain ⟨b', y, rfl⟩ := (List.eq_nil_or_concat' b).resolve_left hb
  have := congrArg List.getLast? ht
  simp at this
  exact hx (by simp [this])

private theorem rtake_append (a b : Bytes) : (a ++ b).rtake b.length = b := by simp [List.rtake]

private theorem rdrop_append (a b : Bytes) : (a ++ b).rdrop b.length = a := by simp [List.rdrop]

theorem filename_linux {r : Request} (h : r.platform = ascii "linux-amd64") :
    r.filename = ascii "ntm-client-" ++ (ascii "linux-amd64" ++ HYPHEN :: r.version) := by
  have : hasSub (ascii "windows") (ascii "linux-amd64") = false := by decide
  simp [Request.filename, h, this]

theorem filename_windows {r : Request} (h : r.platform = ascii "windows-amd64") :
    r.filename =
      ascii "ntm-client-" ++ ((ascii "windows-amd64" ++ HYPHEN :: r.version) ++ ascii ".exe") := by
  have : hasSub (ascii "windows") (ascii "windows-amd64") = true := by decide
  simp [Request.filename, h, this]

/-- The name that a push writes is read back by the scan, with its platform and version. -/
theorem parse_filename {r : Request} (hk : isKnownClientPlatform r.platform = true)
    (hv : isFileVersion r.version = true) : ∃ isWindows,
    parseClientBinaryFilename r.filename =
      some ⟨r.platform, r.version, r.filename, isWindows, hv⟩ := by
  have hhyphen : HYPHEN ∉ r.version := ne_of_mem_version hv (by decide) (by decide)
  have hne := version_ne_nil hv
  simp only [isKnownClientPlatform, Bool.or_eq_true, decide_eq_true_eq] at hk
  obtain hk | hk := hk
  · have hexe : (ascii "linux-amd64" ++ HYPHEN :: r.version).rtake 4 ≠ ascii ".exe" := by
      have hx : (101 : UInt8) ∉ r.version := ne_of_mem_version hv (by decide) (by decide)
      have := rtake_ne (ascii "linux-amd64" ++ [HYPHEN]) (ascii ".ex") hne hx 4
      simpa [ascii] using this
    refine ⟨false, ?_⟩
    rw [filename_linux hk, parseClientBinaryFilename, stripPrefix_append]
    simp only [Option.bind_eq_bind, Option.bind_some, hexe, decide_false, Bool.and_false,
      Bool.false_eq_true, if_false, cutLast_append _ hhyphen, hne, hv, dif_pos]
    simp only [hk]
    rfl
  · have hexe : (ascii "windows-amd64" ++ HYPHEN :: r.version ++ ascii ".exe").rtake 4 =
        ascii ".exe" := rtake_append _ (ascii ".exe")
    have hdrop : (ascii "windows-amd64" ++ HYPHEN :: r.version ++ ascii ".exe").rdrop 4 =
        ascii "windows-amd64" ++ HYPHEN :: r.version := rdrop_append _ (ascii ".exe")
    have hlen : 4 < (ascii "windows-amd64" ++ HYPHEN :: r.version ++ ascii ".exe").length := by
      simp [ascii]
    refine ⟨true, ?_⟩
    rw [filename_windows hk, parseClientBinaryFilename, stripPrefix_append]
    simp only [Option.bind_eq_bind, Option.bind_some, hexe, hlen, decide_true, Bool.and_true,
      if_true, hdrop, cutLast_append _ hhyphen, hne, hv, dif_pos]
    simp only [hk]
    rfl

theorem isSigName_filename {r : Request} (hk : isKnownClientPlatform r.platform = true)
    (hv : isFileVersion r.version = true) : isSigName r.filename = false := by
  have hg : (103 : UInt8) ∉ r.version := ne_of_mem_version hv (by decide) (by decide)
  have hne := version_ne_nil hv
  simp only [isKnownClientPlatform, Bool.or_eq_true, decide_eq_true_eq] at hk
  have hrtake : r.filename.rtake 4 ≠ ascii ".si" ++ [103] := by
    obtain hk | hk := hk
    · have := rtake_ne (ascii "ntm-client-linux-amd64-") (ascii ".si") hne hg 4
      rw [filename_linux hk]
      simpa [ascii, HYPHEN] using this
    · have hexe : (103 : UInt8) ∉ r.version ++ ascii ".exe" := by simpa [ascii] using hg
      have := rtake_ne (ascii "ntm-client-windows-amd64-") (ascii ".si")
        (by simp [hne]) hexe 4
      rw [filename_windows hk]
      simpa [ascii, HYPHEN] using this
  have hsig : SIG = ascii ".si" ++ [103] := rfl
  simp [isSigName, hsig, hrtake]

section Names

variable (r : Request)

@[simp] theorem names_ne : r.binTmp ≠ r.sigTmp ∧ r.binTmp ≠ r.sigTarget ∧ r.binTmp ≠ r.filename ∧
    r.sigTmp ≠ r.binTmp ∧ r.sigTmp ≠ r.sigTarget ∧ r.sigTarget ≠ r.binTmp ∧
    r.sigTarget ≠ r.sigTmp ∧ r.sigTarget ≠ r.filename ∧ r.filename ≠ r.sigTarget ∧
    r.filename ≠ r.binTmp ∧ r.filename ≠ r.sigTmp := by
  simp [Request.binTmp, Request.sigTmp, Request.sigTarget, SIG, ascii]

end Names

/-! ## What a step leaves alone -/

theorem cleanup_ne {r : Request} {n : Bytes} (h : n ∉ [r.binTmp, r.sigTmp]) (d : Directory) :
    cleanup r d n = d n := by
  simp only [List.mem_cons, List.not_mem_nil, or_false, not_or] at h
  rw [cleanup, remove_ne h.2, remove_ne h.1]

theorem writeTmp_ne {io : WriteIo} {r : Request} {path data ce fe : Bytes} {next : Thread}
    {d : Directory} {n : Bytes} (hp : path ∈ [r.binTmp, r.sigTmp])
    (h : n ∉ [r.binTmp, r.sigTmp]) : (writeTmp io r path data ce fe next d).2 n = d n := by
  have hne : n ≠ path := fun e => h (e ▸ hp)
  unfold writeTmp
  split
  · exact cleanup_ne h d
  · dsimp only
    split
    · exact (cleanup_ne h _).trans (write_ne hne)
    · exact write_ne hne

theorem tryRename_ne {ok : Bool} {src dst n : Bytes} (h₁ : n ≠ src) (h₂ : n ≠ dst)
    (d : Directory) : (tryRename ok src dst d).1 n = d n := by
  unfold tryRename
  split
  · unfold rename
    split
    · rfl
    · exact (write_ne h₂).trans (remove_ne h₁)
  · rfl

theorem deleteOther_ne {K : List BinaryCandidate} {d : Directory} {x n : Bytes}
    (h : n ∈ keepNames K ∨ n ≠ x) : deleteOther K d x n = d n := by
  unfold deleteOther
  cases d x with
  | none => rfl
  | some y =>
    cases y with
    | other => rfl
    | file b =>
      by_cases hx : x ∈ keepNames K
      · simp [hx]
      · have hne : n ≠ x := h.elim (fun hn e => hx (e ▸ hn)) id
        simp [hx, hne]

/-- **Frame.** A step changes no file but those it touches. -/
theorem dir_of_untouched {e : ScanEnv} {l l' : Thread} {u u' : Shared} {a : Action}
    (h : act e l u a = some (l', u')) (n : Bytes) (hn : n ∉ touched l a) :
    u'.dir n = u.dir n := by
  unfold act at h
  split at h <;> simp only [touched, Option.some.injEq, Prod.mk.injEq, reduceCtorEq] at h hn
  case h_1 => rw [← h.2]
  case h_2 => rw [← h.2]
  case h_3 => rw [← h.2]; exact writeTmp_ne (by simp) hn
  case h_4 r ok =>
    rw [← h.2]
    cases ok with
    | true => rfl
    | false => exact cleanup_ne (by simpa using hn) _
  case h_5 => rw [← h.2]; exact writeTmp_ne (by simp) hn
  case h_6 r ok =>
    simp only [List.mem_cons, List.not_mem_nil, or_false, not_or] at hn
    rw [← h.2]
    split
    · exact tryRename_ne hn.2.1 hn.2.2 _
    · exact (cleanup_ne (by simp [hn.1, hn.2.1]) _).trans (tryRename_ne hn.2.1 hn.2.2 _)
  case h_7 r ok =>
    simp only [List.mem_cons, List.not_mem_nil, or_false, not_or] at hn
    rw [← h.2]
    split <;> exact tryRename_ne hn.1 hn.2 _
  case h_8 => rw [← h.2]
  case h_9 => rw [← h.2]
  case h_10 => rw [← h.2]
  case h_11 =>
    split at h <;> simp only [Option.some.injEq, Prod.mk.injEq] at h <;> rw [← h.2]
  case h_12 => rw [← h.2]
  case h_13 caller K m todo =>
    rw [← h.2]
    refine deleteOther_ne ?_
    split at hn
    · rename_i hm
      by_cases hnm : n = m
      · exact .inl (hnm ▸ hm)
      · exact .inr hnm
    · exact .inr (by simpa using hn)
  case h_14 => rw [← h.2]

end TrafficMonitor.ClientPush
