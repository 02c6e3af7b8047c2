import TrafficMonitor.Basic.Files
import TrafficMonitor.Trust.Rollback

/-!
# Applying a downloaded update

`applyUpdateLinux` (`updater.cpp`) makes the pending binary executable, renames it over the
installed one and then moves its signature, if it can. What the system answers is an input
(`ApplyIo`), and so is the point where the process or the machine stops.

Proved here:

* `verify_startup`: what an update check accepts, the startup self-check accepts;
* `outcome_eq`: what is installed afterwards, at every point;
* `installed_after`: the installed pair is the old one or the new one, which the next
  start accepts, unless the binary has been moved and the signature has not.
-/

namespace TrafficMonitor.Updater

open Bytes Files Rollback

inductive Path
  | pending
  | pendingSig
  | target
  | targetSig
  deriving DecidableEq

structure File where
  bytes : Bytes
  mode : Nat
  deriving DecidableEq

abbrev Dir := System Path File

/-! ## The code -/

/-- Whether the call succeeds that changes the permissions, renames the binary, asks for the
status of the signature, and renames it. -/
structure ApplyIo where
  permissions : Bool
  rename : Bool
  statusSig : Bool
  renameSig : Bool

/-- `fs::permissions` with `perm_options::add`. -/
def addExec (f : File) : File := { f with mode := f.mode ||| 0o111 }

/-- The directory after each operation, and the result. -/
def applyUpdateLinux (io : ApplyIo) (dir : Dir) : List Dir × Bool :=
  let (dir₁, ok) := tryModify io.permissions addExec .pending dir
  if !ok then ([dir₁], false)
  else
    let (dir₂, ok) := tryRename io.rename .pending .target dir₁
    if !ok then ([dir₁, dir₂], false)
    else if io.statusSig && (dir₂ .pendingSig).isSome then
      ([dir₁, dir₂, (tryRename io.renameSig .pendingSig .targetSig dir₂).1], true)
    else ([dir₁, dir₂], true)

/-- What is left when everything stops after `crash` operations, and what was returned. -/
def outcome (crash : Option Nat) (dir : Dir) (r : List Dir × Bool) : Dir × Option Bool :=
  match crash with
  | none => (r.1.getLastD dir, some r.2)
  | some k => ((dir :: r.1).getD k (r.1.getLastD dir), none)

/-! ## The pairs -/

def installed (dir : Dir) : Rollback.Files :=
  ⟨(dir .target).map File.bytes, (dir .targetSig).map File.bytes⟩

def pendingPair (dir : Dir) : Rollback.Files :=
  ⟨(dir .pending).map File.bytes, (dir .pendingSig).map File.bytes⟩

/-- The startup self-check accepts the pair. -/
def Starts (e : Env) (f : Rollback.Files) : Prop :=
  (verifyArtifactFiles e f startupPolicy).isSome

/-- The binary's rename has taken place. -/
def binaryMoved (io : ApplyIo) (crash : Option Nat) : Bool :=
  io.permissions && io.rename && crash.all (2 ≤ ·)

/-- So has the signature's, if the binary's has. -/
def sigMoved (io : ApplyIo) (crash : Option Nat) : Bool :=
  io.statusSig && io.renameSig && crash.all (3 ≤ ·)

/-! ## Acceptance -/

/-- The self-check asks for less than an update check: no expiry, no floor. -/
theorem verify_startup {e : Env} {binary bundle : Bytes} {policy : Trust.Policy}
    {v : Trust.Verified} (h : verifyArtifactBytes e binary bundle policy = .ok v) :
    verifyArtifactBytes e binary bundle startupPolicy = .ok v := by
  unfold verifyArtifactBytes Trust.verifyBundleWithRoots at h ⊢
  cases hb : Trust.parseBundle bundle with
  | error err => simp [hb, bind, Except.bind] at h
  | ok b =>
    simp only [hb, bind, Except.bind] at h ⊢
    split at h
    · cases h
    · rename_i hq
      rw [if_neg hq]
      cases hd : Trust.parseDelegation e.crypto.isMlDsa65Spki b.document with
      | error err => simp [hd] at h
      | ok d =>
        simp only [hd] at h ⊢
        split at h
        · cases h
        · split at h
          · cases h
          · simpa [startupPolicy] using h

theorem starts_of_accepted {e : Env} {f : Rollback.Files} {policy : Trust.Policy}
    (h : (verifyArtifactFiles e f policy).isSome) : Starts e f := by
  obtain ⟨binary, sig⟩ := f
  cases binary with
  | none => simp [verifyArtifactFiles] at h
  | some binary =>
    cases sig with
    | none => simp [verifyArtifactFiles] at h
    | some sig =>
      simp only [verifyArtifactFiles, Option.isSome_map] at h
      simp only [Starts, verifyArtifactFiles, Option.isSome_map]
      cases hv : verifyArtifactBytes e binary sig policy with
      | error err => simp [hv, Except.toOption] at h
      | ok v => simp [verify_startup hv, Except.toOption]

/-! ## The outcome -/

section Outcome

variable (io : ApplyIo) (crash : Option Nat) {dir : Dir} {b s : File}

/-- The states of a call on a pending pair, by what the system answers. -/
theorem applyUpdateLinux_eq (hb : dir .pending = some b) (hs : dir .pendingSig = some s) :
    applyUpdateLinux io dir =
      let dir₁ := Files.modify addExec .pending dir
      let dir₂ := write .target (addExec b) (remove .pending dir₁)
      if !io.permissions then ([dir], false)
      else if !io.rename then ([dir₁, dir₁], false)
      else if !io.statusSig then ([dir₁, dir₂], true)
      else ([dir₁, dir₂, if io.renameSig then write .targetSig s (remove .pendingSig dir₂)
        else dir₂], true) := by
  have hb₁ : Files.modify addExec .pending dir .pending = some (addExec b) := by simp [hb]
  have hs₂ : write .target (addExec b) (remove .pending (Files.modify addExec .pending dir))
      .pendingSig = some s := by simp [hs]
  unfold applyUpdateLinux
  rw [tryModify_of_some hb]
  cases io.permissions with
  | false => rfl
  | true =>
    simp only [↓reduceIte, Bool.not_true, Bool.false_eq_true, tryRename_of_some hb₁]
    cases io.rename with
    | false => rfl
    | true =>
      simp only [↓reduceIte, Bool.not_true, Bool.false_eq_true, hs₂, tryRename_of_some hs₂]
      cases io.statusSig <;> cases io.renameSig <;> rfl

/-- A call that fails leaves the installed files alone, whether there is a pending pair or not. -/
theorem applyUpdateLinux_failed {io : ApplyIo} {dir : Dir} (h : (applyUpdateLinux io dir).2 = false) :
    (applyUpdateLinux io dir).1.getLastD dir .target = dir .target ∧
    (applyUpdateLinux io dir).1.getLastD dir .targetSig = dir .targetSig := by
  cases hb : dir .pending with
  | none => simp [applyUpdateLinux, tryModify, hb]
  | some b =>
    have hb₁ : Files.modify addExec .pending dir .pending = some (addExec b) := by simp [hb]
    unfold applyUpdateLinux at h ⊢
    rw [tryModify_of_some hb] at h ⊢
    cases hm : io.permissions with
    | false => simp
    | true =>
      simp only [hm, ↓reduceIte, Bool.not_true, Bool.false_eq_true, tryRename_of_some hb₁] at h ⊢
      cases hr : io.rename with
      | false => simp
      | true =>
        simp only [hr, ↓reduceIte, Bool.not_true, Bool.false_eq_true] at h
        split at h <;> cases h

/-- **What is installed afterwards**, and what has been returned. -/
theorem outcome_eq (hb : dir .pending = some b) (hs : dir .pendingSig = some s) :
    installed (outcome crash dir (applyUpdateLinux io dir)).1 =
      ⟨if binaryMoved io crash then some b.bytes else (installed dir).binary,
        if binaryMoved io crash && sigMoved io crash then some s.bytes else (installed dir).sig⟩ ∧
    (outcome crash dir (applyUpdateLinux io dir)).2 =
      if crash = none then some (io.permissions && io.rename) else none := by
  rw [applyUpdateLinux_eq io hb hs]
  obtain ⟨permissions, rename, statusSig, renameSig⟩ := io
  match crash with
  | none =>
    cases permissions <;> cases rename <;> cases statusSig <;> cases renameSig <;>
      simp [outcome, installed, binaryMoved, sigMoved, addExec]
  | some 0 => simp [outcome, installed, binaryMoved]
  | some 1 =>
    cases permissions <;> cases rename <;> cases statusSig <;>
      simp [outcome, installed, binaryMoved]
  | some 2 =>
    cases permissions <;> cases rename <;> cases statusSig <;>
      simp [outcome, installed, binaryMoved, sigMoved, addExec]
  | some 3 =>
    cases permissions <;> cases rename <;> cases statusSig <;> cases renameSig <;>
      simp [outcome, installed, binaryMoved, sigMoved, addExec]
  | some (k + 4) =>
    cases permissions <;> cases rename <;> cases statusSig <;> cases renameSig <;>
      simp [outcome, installed, binaryMoved, sigMoved, addExec]

variable {e : Env} {floor : Nat} {now : Int}

/-- **After an update.** The next start is from the old pair or from the new one and is
accepted, unless the binary has been moved and the signature, which is moved if possible, has
not; the result says whether the binary has been replaced. -/
theorem installed_after
    (hp : (verifyArtifactFiles e (pendingPair dir) (acceptPolicy floor now)).isSome)
    (hi : Starts e (installed dir)) :
    let r := outcome crash dir (applyUpdateLinux io dir)
    (binaryMoved io crash = false → installed r.1 = installed dir ∧ Starts e (installed r.1)) ∧
    (binaryMoved io crash = true → sigMoved io crash = true →
      installed r.1 = pendingPair dir ∧ Starts e (installed r.1)) ∧
    (binaryMoved io crash = true → sigMoved io crash = false →
      installed r.1 = ⟨(pendingPair dir).binary, (installed dir).sig⟩) ∧
    (r.2 = some true → binaryMoved io crash = true) ∧
    (r.2 = some false → binaryMoved io crash = false) := by
  intro r
  obtain ⟨b, s, hb, hs⟩ : ∃ b s, dir .pending = some b ∧ dir .pendingSig = some s := by
    cases hb : dir .pending with
    | none => simp [verifyArtifactFiles, pendingPair, hb] at hp
    | some b =>
      cases hs : dir .pendingSig with
      | none => simp [verifyArtifactFiles, pendingPair, hs] at hp
      | some s => exact ⟨b, s, rfl, rfl⟩
  have hnew : pendingPair dir = ⟨some b.bytes, some s.bytes⟩ := by simp [pendingPair, hb, hs]
  have hstarts := starts_of_accepted hp
  obtain ⟨hr, hv⟩ := outcome_eq io crash hb hs
  refine ⟨fun h => ?_, fun h h' => ?_, fun h h' => ?_, fun h => ?_, fun h => ?_⟩
  · have hr : installed r.1 = installed dir := by simp [r, hr, h]
    exact ⟨hr, hr ▸ hi⟩
  · have hr : installed r.1 = pendingPair dir := by simp [r, hr, h, h', hnew]
    exact ⟨hr, hr ▸ hstarts⟩
  · simp [r, hr, h, h', hnew]
  · rw [hv] at h
    cases crash <;> simp_all [binaryMoved]
  · rw [hv] at h
    cases crash <;> simp_all [binaryMoved]

end Outcome

/-! ## A signature that stays behind -/

/-- A crypto library whose signatures are the first byte of what they sign. -/
def firstByte : Trust.Crypto :=
  ⟨fun data sig _ => if sig = data.take 1 then .ok () else .error [], fun _ => true⟩

def signedBy (binary : Bytes) : Bytes :=
  let document := (Trust.sampleDocument 7).text
  Trust.Bundle.text ⟨document, [(ascii "r1", document.take 1), (ascii "r2", document.take 1)],
    ascii "linux-build", binary⟩

def sampleHost : Env := ⟨.linuxClient, firstByte, Trust.twoRoots, id⟩

/-- Binary 5 is pending, and binary 4 installed. -/
def sampleDir : Dir
  | .pending => some ⟨[5], 0o644⟩
  | .pendingSig => some ⟨signedBy [5], 0o644⟩
  | .target => some ⟨[4], 0o755⟩
  | .targetSig => some ⟨signedBy [4], 0o644⟩

private theorem sampleDir_accepted :
    (verifyArtifactFiles sampleHost (pendingPair sampleDir) (acceptPolicy 7 0)).isSome ∧
    Starts sampleHost (installed sampleDir) := by
  unfold Starts
  decide +kernel

theorem installed_after_sample :
    let r := outcome none sampleDir (applyUpdateLinux ⟨true, true, true, true⟩ sampleDir)
    installed r.1 = pendingPair sampleDir ∧ Starts sampleHost (installed r.1) :=
  (installed_after ⟨true, true, true, true⟩ none sampleDir_accepted.1 sampleDir_accepted.2).2.1
    rfl rfl

/-- The signature's rename fails: the call returns true, and the client does not start again. -/
theorem signature_stays_behind :
    ((verifyArtifactFiles sampleHost (pendingPair sampleDir) (acceptPolicy 7 0)).isSome ∧
      Starts sampleHost (installed sampleDir)) ∧
    let r := outcome none sampleDir (applyUpdateLinux ⟨true, true, true, false⟩ sampleDir)
    r.2 = some true ∧ installed r.1 ≠ installed sampleDir ∧ installed r.1 ≠ pendingPair sampleDir ∧
      ¬Starts sampleHost (installed r.1) := by
  refine ⟨sampleDir_accepted, ?_⟩
  unfold Starts
  decide +kernel

end TrafficMonitor.Updater
