import TrafficMonitor.Basic.Runs
import TrafficMonitor.Protocol
import TrafficMonitor.Trust.Verify

/-!
# Installing artifacts on one host

A host runs the Linux client, the Windows client or the server from a binary and the
`.sig` file beside it. The startup self-check sets the rollback floor
(`server_core.cpp`, `client_main.cpp`); update checks of the client (`updater.cpp`) and
pushes to the server (`web_dashboard.cpp`) install new artifacts while the process runs;
`execv`, a delayed shutdown or the end of the process lead to the next self-check. The
log of a host notes the delegation version of every artifact it was started from and of
every artifact that was installed.

Proved here:

* `acceptedVersion_ge`: what is accepted is not older than the floor;
* `versions_of_run`: in every run, nothing is started or installed with a delegation
  version below that of an artifact the host was started from before;
* `installed_version_decreases`: two artifacts that one process installs may go down.
-/

namespace TrafficMonitor.Rollback

open Bytes Trust Runs

/-! ## Versions of the server -/

structure Semver where
  major : Nat
  minor : Nat
  patch : Nat
  revision : Nat
  deriving DecidableEq

/-- `operator>` -/
def Semver.gt (v o : Semver) : Bool :=
  if v.major ≠ o.major then o.major < v.major
  else if v.minor ≠ o.minor then o.minor < v.minor
  else if v.patch ≠ o.patch then o.patch < v.patch
  else o.revision < v.revision

/-- `std::stoul` of a text that it consumes entirely, as an `unsigned`. -/
def stoul (s : Bytes) : Option Nat :=
  let t := s.dropWhile isSpace
  let neg := t.head? = some 45
  let ds := if t.head? = some 45 ∨ t.head? = some 43 then t.tail else t
  if ds.isEmpty || !ds.all isDigit then none
  else
    let v := digitsValue ds
    if 2 ^ 64 ≤ v then none
    else some ((if neg then (2 ^ 64 - v) % 2 ^ 64 else v) % 2 ^ 32)

/-- `MAJOR.MINOR.PATCH` or `MAJOR.MINOR.PATCH.REVISION`. -/
def parseSemver (s : Bytes) : Option Semver :=
  match Lines.split 46 s with
  | ([a, b], c) => do
    let major ← stoul a
    let minor ← stoul b
    let patch ← stoul c
    some ⟨major, minor, patch, 0⟩
  | ([a, b, c], d) => do
    let major ← stoul a
    let minor ← stoul b
    let patch ← stoul c
    let revision ← stoul d
    some ⟨major, minor, patch, revision⟩
  | _ => none

/-! ## The host -/

inductive Program
  | linuxClient
  | windowsClient
  | server
  deriving DecidableEq

def Program.platform : Program → Bytes
  | .windowsClient => ascii "windows-amd64"
  | _ => ascii "linux-amd64"

/-- What does not change on a host: the program, the compiled-in roots, and the version
that is compiled into a server binary. -/
structure Env where
  program : Program
  crypto : Crypto
  roots : RootSet
  kServerVersion : Bytes → Bytes

/-- The binary and the `.sig` beside it. -/
structure Files where
  binary : Option Bytes
  sig : Option Bytes
  deriving DecidableEq

structure Process where
  /-- `selfDelegationVersion()`. -/
  floor : Nat
  version : Bytes
  /-- Threads that sleep until they shut the server down. -/
  shutdowns : Nat
  deriving DecidableEq

/-- One line of the log, with a delegation version. -/
inductive Entry
  | started (version : Nat)
  | installed (version : Nat)
  deriving DecidableEq

def Entry.version : Entry → Nat
  | .started v => v
  | .installed v => v

def Entry.isStart : Entry → Bool
  | .started _ => true
  | .installed _ => false

structure Host where
  files : Files
  process : Option Process
  log : List Entry
  deriving DecidableEq

/-! ## The code -/

variable (e : Env)

def acceptPolicy (floor : Nat) (now : Int) : Policy := ⟨true, now, floor⟩

def startupPolicy : Policy := ⟨false, 0, 0⟩

def verifyArtifactBytes (binary bundle : Bytes) (policy : Policy) : Except Bytes Verified :=
  verifyBundleWithRoots e.crypto binary bundle e.program.platform e.roots policy

/-- `verifyArtifactFiles`; a missing file is an error. -/
def verifyArtifactFiles (f : Files) (policy : Policy) : Option (Bytes × Verified) :=
  match f.binary, f.sig with
  | some binary, some sig => (verifyArtifactBytes e binary sig policy).toOption.map (binary, ·)
  | _, _ => none

/-- The startup self-check: without a valid signature the process refuses to start. -/
def selfCheck (h : Host) : Host :=
  match verifyArtifactFiles e h.files startupPolicy with
  | none => { h with process := none }
  | some (binary, v) =>
    { h with
      process := some ⟨v.delegationVersion, e.kServerVersion binary, 0⟩
      log := h.log ++ [.started v.delegationVersion] }

/-- What the system answers to `applyUpdateLinux` and to `execv`. -/
structure LinuxIo where
  permissions : Bool
  rename : Bool
  renameSig : Bool
  exec : Bool

/-- The pending binary replaces the installed one; the signature is moved if possible. -/
def applyUpdateLinux (io : LinuxIo) (pending : Bytes × Bytes) (f : Files) : Files × Bool :=
  if !io.permissions || !io.rename then (f, false)
  else (⟨some pending.1, if io.renameSig then some pending.2 else f.sig⟩, true)

structure WindowsIo where
  moveOld : Bool
  moveNew : Bool
  restore : Bool
  moveSigOld : Bool
  moveSigNew : Bool
  smokeTest : Bool
  authenticode : Bool
  rollback : Bool

/-- The running binary is moved away first; if the new one cannot be placed, it is moved
back. -/
def applyUpdateWindows (io : WindowsIo) (pending : Bytes × Bytes) (f : Files) : Files × Bool :=
  if !io.moveOld then (f, false)
  else if !io.moveNew then ({ f with binary := if io.restore then f.binary else none }, false)
  else
    let left := if io.moveSigOld then none else f.sig
    (⟨some pending.1, if io.moveSigNew then some pending.2 else left⟩, true)

/-- `doOneCheckCycle` on Linux after the downloads, which may have been given up. -/
def checkLinux (now : Int) (download : Option (Bytes × Bytes)) (io : LinuxIo) (h : Host)
    (p : Process) : Host :=
  match download with
  | none => h
  | some pending =>
    if pending.1.isEmpty || pending.2.isEmpty then h
    else match verifyArtifactBytes e pending.1 pending.2 (acceptPolicy p.floor now) with
    | .error _ => h
    | .ok v =>
      let applied := applyUpdateLinux io pending h.files
      if !applied.2 then { h with files := applied.1 }
      else
        let h := { h with files := applied.1, log := h.log ++ [.installed v.delegationVersion] }
        if io.exec then selfCheck e h else h

/-- `doOneCheckCycle` on Windows after the downloads. A binary that fails the smoke test or
the check of its certificate is replaced by the old one; the new signature stays. -/
def checkWindows (now : Int) (download : Option (Bytes × Bytes)) (io : WindowsIo) (h : Host)
    (p : Process) : Host :=
  match download with
  | none => h
  | some pending =>
    if pending.1.isEmpty || pending.2.isEmpty then h
    else match verifyArtifactBytes e pending.1 pending.2 (acceptPolicy p.floor now) with
    | .error _ => h
    | .ok v =>
      let applied := applyUpdateWindows io pending h.files
      if !applied.2 then { h with files := applied.1 }
      else if !io.smokeTest || !io.authenticode then
        if io.rollback then { h with files := { applied.1 with binary := h.files.binary } }
        else { h with files := applied.1, log := h.log ++ [.installed v.delegationVersion] }
      else
        { h with
          files := applied.1
          process := none
          log := h.log ++ [.installed v.delegationVersion] }

structure PushRequest where
  version : Bytes
  nonce : Bytes
  authProof : Bytes
  binary : Bytes
  signature : Bytes

/-- What the rest of the server and the system answer to a push. -/
structure PushIo where
  tryAcquire : Bool
  consume : Bool
  decoded : Bool
  verifyUpgradeAuth : Bool
  writeTmp : Bool
  renameSig : Bool
  renameBinary : Bool

/-- Signature first, then the binary. -/
def writeUpgradeAtomically (io : PushIo) (r : PushRequest) (f : Files) : Files × Bool :=
  if !io.writeTmp || !io.renameSig then (f, false)
  else if !io.renameBinary then ({ f with sig := some r.signature }, false)
  else (⟨some r.binary, some r.signature⟩, true)

/-- `POST /admin/upgrade/push`, with the status of its response. -/
def upgradePush (now : Int) (r : PushRequest) (io : PushIo) (h : Host) (p : Process) : Host × Nat :=
  if !io.tryAcquire then (h, 429)
  else if r.version.isEmpty || r.nonce.isEmpty || r.authProof.isEmpty || r.binary.isEmpty ||
      r.signature.isEmpty then (h, 400)
  else if !io.consume then (h, 403)
  else if !io.decoded then (h, 400)
  else match verifyArtifactBytes e r.binary r.signature (acceptPolicy p.floor now) with
  | .error _ => (h, 403)
  | .ok v =>
    if !io.verifyUpgradeAuth then (h, 403)
    else match parseSemver r.version, parseSemver p.version with
    | some newVer, some curVer =>
      if !newVer.gt curVer then (h, 409)
      else
        let written := writeUpgradeAtomically io r h.files
        if !written.2 then ({ h with files := written.1 }, 500)
        else
          ({ files := written.1
             process := some { p with shutdowns := p.shutdowns + 1 }
             log := h.log ++ [.installed v.delegationVersion] }, 200)
    | _, _ => (h, 400)

inductive Event
  | start
  | stop
  | shutdown
  | checkLinux (now : Int) (download : Option (Bytes × Bytes)) (io : LinuxIo)
  | checkWindows (now : Int) (download : Option (Bytes × Bytes)) (io : WindowsIo)
  | push (now : Int) (r : PushRequest) (io : PushIo)

/-- One event on the host; the process may end at any time. -/
def step (h : Host) : Event → Option Host
  | .start => if h.process.isNone then some (selfCheck e h) else none
  | .stop => if h.process.isSome then some { h with process := none } else none
  | .shutdown =>
    if h.process.any fun p => 0 < p.shutdowns then some { h with process := none } else none
  | .checkLinux now download io =>
    if e.program = .linuxClient then h.process.map (checkLinux e now download io h) else none
  | .checkWindows now download io =>
    if e.program = .windowsClient then h.process.map (checkWindows e now download io h) else none
  | .push now r io =>
    if e.program = .server then h.process.map fun p => (upgradePush e now r io h p).1 else none

/-- A host before its first start. -/
def offline (f : Files) : Host := ⟨f, none, []⟩

/-! ## Versions of signatures -/

variable {e : Env}

/-- The delegation version that a signature file carries. -/
def sigVersion (e : Env) (sig : Bytes) : Option Nat := do
  let b ← (parseBundle sig).toOption
  let d ← (parseDelegation e.crypto.isMlDsa65Spki b.document).toOption
  some d.version

/-- What is accepted has the version of its signature file, and is not older than the floor. -/
theorem acceptedVersion_ge {binary sig : Bytes} {policy : Policy} {v : Verified}
    (h : verifyArtifactBytes e binary sig policy = .ok v) :
    sigVersion e sig = some v.delegationVersion ∧ policy.minVersion ≤ v.delegationVersion := by
  unfold verifyArtifactBytes verifyBundleWithRoots at h
  cases hb : parseBundle sig with
  | error err => simp [hb, bind, Except.bind] at h
  | ok b =>
    simp only [hb, bind, Except.bind] at h
    split at h
    · cases h
    · cases hd : parseDelegation e.crypto.isMlDsa65Spki b.document with
      | error err => simp [hd] at h
      | ok d =>
        simp only [hd] at h
        split at h
        · cases h
        · split at h
          · cases h
          · rename_i hfloor
            split at h
            · cases h
            · split at h
              · cases h
              · split at h
                · cases h
                · cases h
                  exact ⟨by simp [sigVersion, hb, hd, Except.toOption], Nat.le_of_not_lt hfloor⟩

/-! ## The invariant -/

/-- Nothing is older than what the host was started from before it: no entry of the log,
no signature file that it may be started from next, no floor. -/
structure Invariant (e : Env) (h : Host) : Prop where
  log : h.log.Pairwise fun a b => a.isStart = true → a.version ≤ b.version
  sig : ∀ a ∈ h.log, a.isStart = true → ∀ s ∈ h.files.sig, ∀ v ∈ sigVersion e s, a.version ≤ v
  floor : ∀ a ∈ h.log, a.isStart = true → ∀ p ∈ h.process, a.version ≤ p.floor

/-- The signature file is kept, lost, or replaced by `sig`. -/
def SigFrom (sig : Bytes) (f f' : Files) : Prop :=
  f'.sig = f.sig ∨ f'.sig = none ∨ f'.sig = some sig

theorem sigFrom_applyUpdateLinux (io : LinuxIo) (pending : Bytes × Bytes) (f : Files) :
    SigFrom pending.2 f (applyUpdateLinux io pending f).1 := by
  unfold applyUpdateLinux SigFrom
  split
  · exact .inl rfl
  · cases io.renameSig <;> simp

theorem sigFrom_applyUpdateWindows (io : WindowsIo) (pending : Bytes × Bytes) (f : Files) :
    SigFrom pending.2 f (applyUpdateWindows io pending f).1 := by
  unfold applyUpdateWindows SigFrom
  split
  · exact .inl rfl
  · split
    · exact .inl rfl
    · cases io.moveSigNew <;> cases io.moveSigOld <;> simp

theorem sigFrom_writeUpgradeAtomically (io : PushIo) (r : PushRequest) (f : Files) :
    SigFrom r.signature f (writeUpgradeAtomically io r f).1 := by
  unfold writeUpgradeAtomically SigFrom
  split
  · exact .inl rfl
  · split <;> simp

section Install

variable {h : Host} {p : Process} {sig : Bytes} {v : Nat} (hi : Invariant e h)
  (hp : h.process = some p) (hv : sigVersion e sig = some v) (hf : p.floor ≤ v)
include hi hp hv hf

/-- An accepted signature may replace the installed one. -/
theorem invariant_files {f : Files} (hs : SigFrom sig h.files f) :
    Invariant e { h with files := f } where
  log := hi.log
  sig a ha hst s hm w hw := by
    have hm' : f.sig = some s := hm
    rcases hs with hs | hs | hs
    · exact hi.sig a ha hst s (hs ▸ hm') w hw
    · rw [hs] at hm'
      cases hm'
    · rw [hs] at hm'
      cases hm'
      rw [hv] at hw
      cases hw
      exact (hi.floor a ha hst p hp).trans hf
  floor := hi.floor

theorem invariant_installed {f : Files} (hs : SigFrom sig h.files f) :
    Invariant e { h with files := f, log := h.log ++ [.installed v] } := by
  have hfiles := invariant_files hi hp hv hf hs
  refine ⟨?_, ?_, ?_⟩
  · rw [List.pairwise_append]
    refine ⟨hi.log, by simp, ?_⟩
    intro a ha b hb hst
    rw [List.mem_singleton] at hb
    subst hb
    exact (hi.floor a ha hst p hp).trans hf
  · intro a ha hst
    rcases List.mem_append.mp ha with ha | ha
    · exact hfiles.sig a ha hst
    · rw [List.mem_singleton] at ha
      subst ha
      cases hst
  · intro a ha hst
    rcases List.mem_append.mp ha with ha | ha
    · exact hi.floor a ha hst
    · rw [List.mem_singleton] at ha
      subst ha
      cases hst

end Install

theorem invariant_end {h : Host} (hi : Invariant e h) : Invariant e { h with process := none } :=
  ⟨hi.log, hi.sig, by simp⟩

/-- The host is started from the installed files, which are not older than before. -/
theorem invariant_selfCheck {h : Host} (hi : Invariant e h) : Invariant e (selfCheck e h) := by
  unfold selfCheck
  split
  · exact invariant_end hi
  · rename_i binary v hv
    unfold verifyArtifactFiles at hv
    split at hv
    · rename_i b sig hb hs
      simp only [Option.map_eq_some_iff, Prod.mk.injEq] at hv
      obtain ⟨w, hw, rfl, rfl⟩ := hv
      have hok : verifyArtifactBytes e b sig startupPolicy = .ok w := by
        cases hr : verifyArtifactBytes e b sig startupPolicy with
        | error err => simp [hr, Except.toOption] at hw
        | ok x => simpa [hr, Except.toOption] using hw
      have hver := (acceptedVersion_ge hok).1
      have hle : ∀ a ∈ h.log, a.isStart = true → a.version ≤ w.delegationVersion :=
        fun a ha hst => hi.sig a ha hst sig hs _ hver
      refine ⟨?_, ?_, ?_⟩
      · rw [List.pairwise_append]
        refine ⟨hi.log, by simp, ?_⟩
        intro a ha x hx hst
        rw [List.mem_singleton] at hx
        exact hx ▸ hle a ha hst
      · intro a ha hst s hm x hx
        have hm' : h.files.sig = some s := hm
        rw [hs] at hm'
        cases hm'
        rw [hver] at hx
        cases hx
        rcases List.mem_append.mp ha with ha | ha
        · exact hle a ha hst
        · rw [List.mem_singleton] at ha
          exact ha ▸ Nat.le_refl _
      · intro a ha hst x hx
        cases hx
        rcases List.mem_append.mp ha with ha | ha
        · exact hle a ha hst
        · rw [List.mem_singleton] at ha
          exact ha ▸ Nat.le_refl _
    · cases hv

/-! ## Runs -/

theorem invariant_checkLinux {h : Host} {p : Process} (hi : Invariant e h) (hp : h.process = some p)
    (now : Int) (download : Option (Bytes × Bytes)) (io : LinuxIo) :
    Invariant e (checkLinux e now download io h p) := by
  unfold checkLinux
  split
  · exact hi
  · rename_i pending
    split
    · exact hi
    · split
      · exact hi
      · rename_i v hv
        obtain ⟨hver, hf⟩ := acceptedVersion_ge hv
        have hs := sigFrom_applyUpdateLinux io pending h.files
        dsimp only
        split
        · exact invariant_files hi hp hver hf hs
        · have hi' := invariant_installed hi hp hver hf hs
          split
          · exact invariant_selfCheck hi'
          · exact hi'

theorem invariant_checkWindows {h : Host} {p : Process} (hi : Invariant e h)
    (hp : h.process = some p) (now : Int) (download : Option (Bytes × Bytes)) (io : WindowsIo) :
    Invariant e (checkWindows e now download io h p) := by
  unfold checkWindows
  split
  · exact hi
  · rename_i pending
    split
    · exact hi
    · split
      · exact hi
      · rename_i v hv
        obtain ⟨hver, hf⟩ := acceptedVersion_ge hv
        have hs := sigFrom_applyUpdateWindows io pending h.files
        dsimp only
        split
        · exact invariant_files hi hp hver hf hs
        · split
          · split
            · exact invariant_files hi hp hver hf hs
            · exact invariant_installed hi hp hver hf hs
          · exact invariant_end (invariant_installed hi hp hver hf hs)

theorem invariant_push {h : Host} {p : Process} (hi : Invariant e h) (hp : h.process = some p)
    (now : Int) (r : PushRequest) (io : PushIo) :
    Invariant e (upgradePush e now r io h p).1 := by
  unfold upgradePush
  split
  · exact hi
  · split
    · exact hi
    · split
      · exact hi
      · split
        · exact hi
        · split
          · exact hi
          · rename_i v hv
            obtain ⟨hver, hf⟩ := acceptedVersion_ge hv
            have hs := sigFrom_writeUpgradeAtomically io r h.files
            split
            · exact hi
            · split
              · split
                · exact hi
                · dsimp only
                  split
                  · exact invariant_files hi hp hver hf hs
                  · have hi' := invariant_installed hi hp hver hf hs
                    refine ⟨hi'.log, hi'.sig, ?_⟩
                    intro a ha hst q hq
                    cases hq
                    exact hi'.floor a ha hst p hp
              · exact hi

theorem invariant_step (h : Host) (a : Event) (h' : Host) (hi : Invariant e h)
    (hs : step e h a = some h') : Invariant e h' := by
  cases a with
  | start =>
    simp only [step] at hs
    split at hs <;> cases hs
    exact invariant_selfCheck hi
  | stop =>
    simp only [step] at hs
    split at hs <;> cases hs
    exact invariant_end hi
  | shutdown =>
    simp only [step] at hs
    split at hs <;> cases hs
    exact invariant_end hi
  | checkLinux now download io =>
    simp only [step] at hs
    split at hs
    · obtain ⟨p, hp, rfl⟩ := Option.map_eq_some_iff.mp hs
      exact invariant_checkLinux hi hp now download io
    · cases hs
  | checkWindows now download io =>
    simp only [step] at hs
    split at hs
    · obtain ⟨p, hp, rfl⟩ := Option.map_eq_some_iff.mp hs
      exact invariant_checkWindows hi hp now download io
    · cases hs
  | push now r io =>
    simp only [step] at hs
    split at hs
    · obtain ⟨p, hp, rfl⟩ := Option.map_eq_some_iff.mp hs
      exact invariant_push hi hp now r io
    · cases hs

/-- **No rollback across starts.** In every run of a host, whatever it is started from or
installs later has at least the delegation version of every artifact it was started from. -/
theorem versions_of_run (e : Env) (f : Files) (events : List Event) (h : Host)
    (hr : run (step e) (offline f) events = some h) :
    h.log.Pairwise fun a b => a.isStart = true → a.version ≤ b.version :=
  have hi : Invariant e (offline f) := ⟨by simp [offline], by simp [offline], by simp [offline]⟩
  (invariant_of_run invariant_step hi hr).log

/-! ## Two updates in one process -/

def linuxHost : Env := ⟨.linuxClient, allValid, twoRoots, id⟩

def signedWith (version : Nat) : Bytes := (sampleBundle version).text

/-- A check that installs an artifact of that version, and an `execv` that fails. -/
def checkWithoutExec (version : Nat) : Event :=
  .checkLinux 0 (some ([1], signedWith version)) ⟨true, true, true, false⟩

def versionThree : Files := ⟨some [1], some (signedWith 3)⟩

private theorem log_two_checks :
    (run (step linuxHost) (offline versionThree)
      [.start, checkWithoutExec 5, checkWithoutExec 4, .stop, .start]).map (·.log) =
      some [.started 3, .installed 5, .installed 4, .started 4] := by decide +kernel

theorem versions_of_run_two_checks :
    ∃ h, run (step linuxHost) (offline versionThree)
      [.start, checkWithoutExec 5, checkWithoutExec 4, .stop, .start] = some h ∧
      h.log.Pairwise fun a b => a.isStart = true → a.version ≤ b.version := by
  obtain ⟨h, hr, -⟩ := Option.map_eq_some_iff.mp log_two_checks
  exact ⟨h, hr, versions_of_run linuxHost versionThree _ h hr⟩

/-- The floor is the version that the process was started from: after version 5 is
installed over version 3, the same process installs version 4. -/
theorem installed_version_decreases :
    ∃ h, run (step linuxHost) (offline versionThree)
      [.start, checkWithoutExec 5, checkWithoutExec 4, .stop, .start] = some h ∧
      ¬h.log.Pairwise fun a b => a.isStart = false → b.isStart = false →
        a.version ≤ b.version := by
  obtain ⟨h, hr, hl⟩ := Option.map_eq_some_iff.mp log_two_checks
  refine ⟨h, hr, ?_⟩
  rw [hl]
  decide

end TrafficMonitor.Rollback
