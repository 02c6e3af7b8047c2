import TrafficMonitor.Basic.Bytes
import TrafficMonitor.Basic.Files
import Mathlib.Data.List.TakeDrop

/-!
# Writing a server upgrade

`writeUpgradeAtomically` (`server_upgrade.hpp`) puts a new binary and its signature beside
the old ones under temporary names and renames first the signature, then the binary. What
the system answers to each call is an input of the model (`UpgradeIo`).

Proved here: `atomic_iff`, the binary and the signature change together or not at all, and
leave no temporary file, exactly if the binary's rename does not fail after the
signature's, closing the files loses nothing, and what a failed call leaves is removed.
-/

namespace TrafficMonitor.UpgradeWrite

open Bytes Files

structure File where
  bytes : Bytes
  mode : Nat
  deriving DecidableEq

abbrev FileSystem := System Bytes File

/-! ## The code -/

/-- What the system answers while a file is written: whether `fopen` succeeds, how many bytes
`fwrite` takes, how many of them have reached the file after `fclose`, and the mode of a file
that is new. -/
structure WriteIo where
  fopen : Bool
  fwrite : Nat
  flushed : Nat
  mode : Nat

structure UpgradeIo where
  binary : WriteIo
  chmod : Bool
  sig : WriteIo
  renameSig : Bool
  renameBinary : Bool
  removeBinary : Bool
  removeSig : Bool

def binTmp (target : Bytes) : Bytes := target ++ ascii ".upgrade_tmp"
def sigPath (target : Bytes) : Bytes := target ++ ascii ".sig"
def sigTmp (target : Bytes) : Bytes := sigPath target ++ ascii ".upgrade_tmp"

/-- The lambda `cleanup`; `std::remove` may fail. -/
def cleanup (io : UpgradeIo) (target : Bytes) (fs : FileSystem) : FileSystem :=
  let fs := if io.removeBinary then remove (binTmp target) fs else fs
  if io.removeSig then remove (sigTmp target) fs else fs

/-- A file that was opened with mode `wb`, written and closed; an old file keeps its mode. -/
def written (io : WriteIo) (path data : Bytes) (fs : FileSystem) : FileSystem :=
  write path
    ⟨data.take (min io.flushed io.fwrite), ((fs path).map File.mode).getD io.mode⟩ fs

/-- The variable `ok` after `fwrite`. -/
def WriteIo.ok (io : WriteIo) (data : Bytes) : Bool := data.length = 0 || data.length ≤ io.fwrite

/-- The files afterwards, and the error. -/
def writeUpgradeAtomically (io : UpgradeIo) (target binaryData sigData : Bytes) (fs : FileSystem) :
    FileSystem × Except Bytes Unit :=
  if !io.binary.fopen then (fs, .error (ascii "cannot create " ++ binTmp target))
  else
    let fs := written io.binary (binTmp target) binaryData fs
    if !io.binary.ok binaryData then
      (cleanup io target fs, .error (ascii "write failed: " ++ binTmp target))
    else
      let (fs, ok) := tryModify io.chmod (fun f => { f with mode := 0o755 }) (binTmp target) fs
      if !ok then (cleanup io target fs, .error (ascii "chmod failed on " ++ binTmp target))
      else if !io.sig.fopen then
        (cleanup io target fs, .error (ascii "cannot create " ++ sigTmp target))
      else
        let fs := written io.sig (sigTmp target) sigData fs
        if !io.sig.ok sigData then
          (cleanup io target fs, .error (ascii "write failed: " ++ sigTmp target))
        else
          let arrow := ascii " " ++ [0xe2, 0x86, 0x92] ++ ascii " "
          let (fs, ok) := tryRename io.renameSig (sigTmp target) (sigPath target) fs
          if !ok then
            (cleanup io target fs,
              .error (ascii "rename failed: " ++ sigTmp target ++ arrow ++ sigPath target))
          else
            let (fs, ok) := tryRename io.renameBinary (binTmp target) target fs
            if !ok then
              (fs, .error (ascii "CRITICAL: sig renamed but binary rename failed: " ++
                binTmp target ++ arrow ++ target ++
                ascii ". Deploy the new binary manually to restore consistency."))
            else (fs, .ok ())

/-! ## What the call should do -/

/-- A call that fails leaves the installed files as they were, one that succeeds replaces both,
with the binary executable; neither leaves a temporary file. -/
structure Atomic (target binaryData sigData : Bytes) (fs : FileSystem)
    (r : FileSystem × Except Bytes Unit) : Prop where
  failed : r.2.toBool = false → r.1 target = fs target ∧ r.1 (sigPath target) = fs (sigPath target)
  done : r.2.toBool = true → r.1 target = some ⟨binaryData, 0o755⟩ ∧
    (r.1 (sigPath target)).map File.bytes = some sigData
  tmp : r.1 (binTmp target) = none ∧ r.1 (sigTmp target) = none

/-- The calls before the last rename succeed. -/
def Staged (io : UpgradeIo) (binaryData sigData : Bytes) : Prop :=
  io.binary.fopen = true ∧ io.binary.ok binaryData = true ∧ io.chmod = true ∧
    io.sig.fopen = true ∧ io.sig.ok sigData = true ∧ io.renameSig = true

/-- No temporary file of the signature is there when the call fails. -/
def NoSigTmp (io : UpgradeIo) (target binaryData : Bytes) (fs : FileSystem) : Prop :=
  fs (sigTmp target) = none ∧
    ¬(io.binary.ok binaryData = true ∧ io.chmod = true ∧ io.sig.fopen = true)

/-- The condition on what the system answers: if the first file cannot be opened, there were no
temporary files; if a later call before the last rename fails, the temporary files that are
there can be removed; if none does, the last rename succeeds, and closing the files has lost
nothing. -/
structure Clean (io : UpgradeIo) (target binaryData sigData : Bytes) (fs : FileSystem) : Prop where
  notOpened : io.binary.fopen = false → fs (binTmp target) = none ∧ fs (sigTmp target) = none
  notStaged : io.binary.fopen = true → ¬Staged io binaryData sigData →
    io.removeBinary = true ∧ (io.removeSig = true ∨ NoSigTmp io target binaryData fs)
  staged : Staged io binaryData sigData → io.renameBinary = true ∧
    binaryData.length ≤ io.binary.flushed ∧ sigData.length ≤ io.sig.flushed

/-! ## The four names -/

section Names

variable (target : Bytes)

@[simp] theorem binTmp_ne : target ≠ binTmp target ∧ binTmp target ≠ target := by
  simp [binTmp, ascii]

@[simp] theorem sigPath_ne : target ≠ sigPath target ∧ sigPath target ≠ target := by
  simp [sigPath, ascii]

@[simp] theorem sigTmp_ne : target ≠ sigTmp target ∧ sigTmp target ≠ target := by
  simp [sigTmp, sigPath, ascii]

@[simp] theorem binTmp_ne_sigPath :
    binTmp target ≠ sigPath target ∧ sigPath target ≠ binTmp target := by
  simp [binTmp, sigPath, ascii]

@[simp] theorem binTmp_ne_sigTmp :
    binTmp target ≠ sigTmp target ∧ sigTmp target ≠ binTmp target := by
  simp [binTmp, sigTmp, sigPath, ascii]

@[simp] theorem sigPath_ne_sigTmp :
    sigPath target ≠ sigTmp target ∧ sigTmp target ≠ sigPath target := by
  simp [sigTmp, sigPath, ascii]

end Names

/-! ## The outcomes -/

section Outcomes

variable (io : UpgradeIo) (target binaryData sigData : Bytes) (fs : FileSystem)

/-- What the calls before the first rename leave: the installed files, a temporary binary, and
a temporary signature where there was one or one has been opened. -/
structure Half (fs' : FileSystem) : Prop where
  installed : fs' target = fs target ∧ fs' (sigPath target) = fs (sigPath target)
  binaryThere : (fs' (binTmp target)).isSome
  noSig : fs' (sigTmp target) = none ↔ NoSigTmp io target binaryData fs

theorem written_same (w : WriteIo) (path data : Bytes) : written w path data fs path =
    some ⟨data.take (min w.flushed w.fwrite), ((fs path).map File.mode).getD w.mode⟩ := write_same

/-- The files once the temporary binary is executable. -/
def withBinary : FileSystem :=
  modify (fun f => { f with mode := 0o755 }) (binTmp target)
    (written io.binary (binTmp target) binaryData fs)

/-- The files once both temporary files are written. -/
def withBoth : FileSystem :=
  written io.sig (sigTmp target) sigData (withBinary io target binaryData fs)

theorem half_written (h : io.binary.ok binaryData = false ∨ io.chmod = false) :
    Half io target binaryData fs (written io.binary (binTmp target) binaryData fs) := by
  refine ⟨by simp [written], by simp [written], ?_⟩
  rcases h with h | h <;> simp [written, NoSigTmp, h]

theorem half_withBinary (h : io.sig.fopen = false) :
    Half io target binaryData fs (withBinary io target binaryData fs) :=
  ⟨by simp [withBinary, written], by simp [withBinary, written],
    by simp [withBinary, written, NoSigTmp, h]⟩

theorem half_withBoth (hb : io.binary.ok binaryData = true) (hc : io.chmod = true)
    (hs : io.sig.fopen = true) :
    Half io target binaryData fs (withBoth io target binaryData sigData fs) :=
  ⟨by simp [withBoth, withBinary, written], by simp [withBoth, withBinary, written],
    by simp [withBoth, withBinary, written, NoSigTmp, hb, hc, hs]⟩

theorem withBoth_binTmp : withBoth io target binaryData sigData fs (binTmp target) =
    some ⟨binaryData.take (min io.binary.flushed io.binary.fwrite), 0o755⟩ := by
  simp [withBoth, withBinary, written]

theorem withBoth_sigTmp :
    (withBoth io target binaryData sigData fs (sigTmp target)).map File.bytes =
      some (sigData.take (min io.sig.flushed io.sig.fwrite)) := by
  simp [withBoth, written]

theorem cleanup_installed : cleanup io target fs target = fs target ∧
    cleanup io target fs (sigPath target) = fs (sigPath target) := by
  unfold cleanup
  cases io.removeBinary <;> cases io.removeSig <;> simp

theorem cleanup_tmp :
    cleanup io target fs (binTmp target) = (if io.removeBinary then none else fs (binTmp target)) ∧
    cleanup io target fs (sigTmp target) = if io.removeSig then none else fs (sigTmp target) := by
  unfold cleanup
  cases io.removeBinary <;> cases io.removeSig <;> simp

/-- What the call comes to once both temporary files are written. -/
theorem write_of_both {f : File} (hf : withBoth io target binaryData sigData fs (sigTmp target) = some f)
    (h : Staged io binaryData sigData) :
    ∃ e, writeUpgradeAtomically io target binaryData sigData fs =
      if io.renameBinary then
        (write target ⟨binaryData.take (min io.binary.flushed io.binary.fwrite), 0o755⟩
          (remove (binTmp target) (write (sigPath target) f
            (remove (sigTmp target) (withBoth io target binaryData sigData fs)))), .ok ())
      else (write (sigPath target) f
        (remove (sigTmp target) (withBoth io target binaryData sigData fs)), .error e) := by
  obtain ⟨ho, hb, hc, hs, hk, hr⟩ := h
  have hbin : write (sigPath target) f (remove (sigTmp target)
      (withBoth io target binaryData sigData fs)) (binTmp target) =
        some ⟨binaryData.take (min io.binary.flushed io.binary.fwrite), 0o755⟩ := by
    rw [write_ne (binTmp_ne_sigPath target).1, remove_ne (binTmp_ne_sigTmp target).1]
    exact withBoth_binTmp io target binaryData sigData fs
  have hboth : written io.sig (sigTmp target) sigData (withBinary io target binaryData fs) =
    withBoth io target binaryData sigData fs := rfl
  unfold writeUpgradeAtomically
  simp only [ho, hb, hc, hs, hk, hr, Bool.not_true, Bool.false_eq_true, if_false, if_true,
    tryModify_of_some (written_same fs io.binary (binTmp target) binaryData)]
  rw [← withBinary, hboth, tryRename_of_some hf]
  simp only [if_true, Bool.not_true, Bool.false_eq_true, if_false, tryRename_of_some hbin]
  cases io.renameBinary with
  | false => exact ⟨_, rfl⟩
  | true => exact ⟨[], rfl⟩

/-- **The outcomes.** The first file is not opened; or a later call before the last rename
fails and the temporary files are removed; or the last rename fails; or all is done. -/
theorem write_cases {r : FileSystem × Except Bytes Unit}
    (h : writeUpgradeAtomically io target binaryData sigData fs = r) :
    (io.binary.fopen = false ∧ r.1 = fs ∧ r.2.toBool = false) ∨
    (io.binary.fopen = true ∧ ¬Staged io binaryData sigData ∧ r.2.toBool = false ∧
      ∃ fs', Half io target binaryData fs fs' ∧ r.1 = cleanup io target fs') ∨
    (Staged io binaryData sigData ∧ io.renameBinary = false ∧ r.2.toBool = false ∧
      (r.1 (binTmp target)).isSome) ∨
    (Staged io binaryData sigData ∧ io.renameBinary = true ∧ r.2.toBool = true ∧
      r.1 target = some ⟨binaryData.take (min io.binary.flushed io.binary.fwrite), 0o755⟩ ∧
      (r.1 (sigPath target)).map File.bytes =
        some (sigData.take (min io.sig.flushed io.sig.fwrite)) ∧
      r.1 (binTmp target) = none ∧ r.1 (sigTmp target) = none) := by
  subst h
  by_cases hst : Staged io binaryData sigData
  · have hsig := withBoth_sigTmp io target binaryData sigData fs
    obtain ⟨f, hf, hbytes⟩ := Option.map_eq_some_iff.mp hsig
    obtain ⟨e, he⟩ := write_of_both io target binaryData sigData fs hf hst
    refine .inr (.inr ?_)
    rw [he]
    cases io.renameBinary with
    | false => simp [hst, Except.toBool, withBoth_binTmp]
    | true => simp [hst, Except.toBool, hbytes]
  unfold writeUpgradeAtomically
  cases ho : io.binary.fopen with
  | false => simp [Except.toBool]
  | true =>
  refine .inr (.inl ?_)
  cases hb : io.binary.ok binaryData with
  | false =>
    exact ⟨rfl, hst, by simp [Except.toBool], _,
      half_written io target binaryData fs (.inl hb), by simp⟩
  | true =>
  have hwritten := written_same fs io.binary (binTmp target) binaryData
  cases hc : io.chmod with
  | false =>
    exact ⟨rfl, hst, by simp [Except.toBool, tryModify], _,
      half_written io target binaryData fs (.inr hc), by simp [tryModify]⟩
  | true =>
  cases hs : io.sig.fopen with
  | false =>
    exact ⟨rfl, hst, by simp [Except.toBool, tryModify_of_some hwritten], _,
      half_withBinary io target binaryData fs hs, by simp [tryModify_of_some hwritten, withBinary]⟩
  | true =>
  have half := half_withBoth io target binaryData sigData fs hb hc hs
  cases hk : io.sig.ok sigData with
  | false =>
    exact ⟨rfl, hst, by simp [Except.toBool, tryModify_of_some hwritten], _, half,
      by simp [tryModify_of_some hwritten, withBoth, withBinary]⟩
  | true =>
  have hr : io.renameSig = false := by
    by_contra hr
    exact hst ⟨ho, hb, hc, hs, hk, by simpa using hr⟩
  exact ⟨rfl, hst, by simp [Except.toBool, tryRename, tryModify_of_some hwritten, hr], _, half,
    by simp [tryRename, tryModify_of_some hwritten, hr, withBoth, withBinary]⟩

theorem ok_length {w : WriteIo} {data : Bytes} (h : w.ok data = true) :
    data.take (min w.flushed w.fwrite) = data ↔ data.length ≤ w.flushed := by
  have h : data.length = 0 ∨ data.length ≤ w.fwrite := by simpa [WriteIo.ok] using h
  rw [List.take_eq_self_iff]
  omega

/-- **A call is atomic exactly under `Clean`.** -/
theorem atomic_iff : Atomic target binaryData sigData fs
    (writeUpgradeAtomically io target binaryData sigData fs) ↔
      Clean io target binaryData sigData fs := by
  rcases write_cases io target binaryData sigData fs rfl with
    ⟨ho, hfs, he⟩ | ⟨ho, hst, he, fs', half, hfs⟩ | ⟨hst, hm, he, htmp⟩ |
    ⟨hst, hm, he, hbin, hsig, htmp⟩
  · have hst : ¬Staged io binaryData sigData := fun h => by simp [h.1] at ho
    constructor
    · intro h
      exact ⟨fun _ => hfs ▸ h.tmp, fun h => by simp [ho] at h, fun h => absurd h hst⟩
    · intro h
      exact ⟨fun _ => by simp [hfs], fun h => by simp [he] at h, by rw [hfs]; exact h.notOpened ho⟩
  · have hclean := cleanup_tmp io target fs'
    have hthere : fs' (binTmp target) ≠ none := Option.isSome_iff_ne_none.mp half.binaryThere
    have htmp : (cleanup io target fs' (binTmp target) = none ∧
        cleanup io target fs' (sigTmp target) = none) ↔
        io.removeBinary = true ∧ (io.removeSig = true ∨ NoSigTmp io target binaryData fs) := by
      rw [hclean.1, hclean.2, ← half.noSig]
      cases io.removeBinary <;> cases io.removeSig <;> simp [hthere]
    constructor
    · intro h
      exact ⟨fun h => by simp [ho] at h, fun _ _ => htmp.mp (hfs ▸ h.tmp), fun h => absurd h hst⟩
    · intro h
      refine ⟨fun _ => ?_, fun h => by simp [he] at h, by rw [hfs]; exact htmp.mpr (h.notStaged ho hst)⟩
      rw [hfs, (cleanup_installed io target fs').1, (cleanup_installed io target fs').2]
      exact half.installed
  · constructor
    · intro h
      simp [h.tmp.1] at htmp
    · intro h
      simp [(h.staged hst).1] at hm
  · obtain ⟨ho, hb, hc, hs, hk, hr⟩ := id hst
    constructor
    · intro h
      obtain ⟨hb', hs'⟩ := h.done he
      refine ⟨fun h => by simp [ho] at h, fun _ h => absurd hst h, fun _ => ⟨hm, ?_, ?_⟩⟩
      · rw [hbin] at hb'
        exact (ok_length hb).mp (congrArg File.bytes (Option.some.inj hb'))
      · rw [hsig] at hs'
        exact (ok_length hk).mp (Option.some.inj hs')
    · intro h
      obtain ⟨-, hlb, hls⟩ := h.staged hst
      refine ⟨fun h => by simp [he] at h, fun _ => ⟨?_, ?_⟩, htmp⟩
      · rw [hbin, (ok_length hb).mpr hlb]
      · rw [hsig, (ok_length hk).mpr hls]

end Outcomes

/-- Everything succeeds but the binary's rename: the new signature stands beside the old
binary, and the call has failed. -/
theorem binary_left_behind :
    let io : UpgradeIo := ⟨⟨true, 3, 3, 0o644⟩, true, ⟨true, 3, 3, 0o644⟩, true, false, true, true⟩
    let target := ascii "/opt/ntm/ntm-server"
    let fs : FileSystem := fun n =>
      if n = target then some ⟨ascii "old", 0o755⟩
      else if n = sigPath target then some ⟨ascii "sig", 0o644⟩ else none
    let r := writeUpgradeAtomically io target (ascii "new") (ascii "SIG") fs
    (r.2.toBool = false ∧ r.1 target = some ⟨ascii "old", 0o755⟩ ∧
      r.1 (sigPath target) = some ⟨ascii "SIG", 0o644⟩ ∧
      r.1 (binTmp target) = some ⟨ascii "new", 0o755⟩) ∧
    ¬Atomic target (ascii "new") (ascii "SIG") fs r := by
  intro io target fs r
  have h : r.2.toBool = false ∧ r.1 target = some ⟨ascii "old", 0o755⟩ ∧
      r.1 (sigPath target) = some ⟨ascii "SIG", 0o644⟩ ∧
      r.1 (binTmp target) = some ⟨ascii "new", 0o755⟩ := by
    decide +kernel
  refine ⟨h, fun atomic => ?_⟩
  simpa [h.2.2.2] using atomic.tmp.1

end TrafficMonitor.UpgradeWrite
