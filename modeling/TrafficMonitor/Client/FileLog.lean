import Mathlib.Logic.Function.Basic
import TrafficMonitor.Basic.Files
import TrafficMonitor.Basic.NetOrder
import TrafficMonitor.Basic.Runs

/-!
# The log files of the client

`FileLogger` appends to one file a day. Files are named by their paths; each call takes what the
system answers to the opens that it makes, and the dates that it reads. The other operations on
files succeed. `fp` is the path of the file that is open.

Proved here:

* `open_step`: a call that neither fails an open nor deletes the current file leaves an active
  logger with the file of its day open;
* `logged_of_open`: then the next write is appended, unless an open fails at it;
* `logged_of_run`: so every write is, in every run of such calls;
* `silenced`: after the deletion of the current file, or one failed open, writes are lost.
-/

namespace TrafficMonitor.ClientLog

open Bytes Files

inductive LogLevel
  | Info
  | Warn
  | Err
  deriving DecidableEq

def LogLevel.toNat : LogLevel → Nat
  | .Info => 0
  | .Warn => 1
  | .Err => 2

def levelToStr : LogLevel → Bytes
  | .Info => ascii "INFO"
  | .Warn => ascii "WARN"
  | .Err => ascii "ERR "

structure FileLogger where
  files : System Bytes Bytes
  logDir : Bytes := []
  currentPath : Bytes := []
  fp : Option Bytes := none
  currentSize : Nat := 0
  currentDateStr : Bytes := []
  active : Bool := false
  level : LogLevel := .Info

namespace FileLogger

def kMaxFileSizeBytes : Nat := 50 * 1024 * 1024

def SLASH : UInt8 := 47

/-! ## Files of the directory -/

def inDir (logDir name : Bytes) : Bytes := logDir ++ SLASH :: name

def pathForDate (logDir date : Bytes) : Bytes :=
  inDir logDir (ascii "ntm-client-" ++ date ++ ascii ".log")

/-- The name under which the iterator over the directory shows a path. -/
def entryName (logDir path : Bytes) : Option Bytes :=
  (stripPrefix (logDir ++ [SLASH]) path).filter fun name => SLASH ∉ name

/-- The file is older than the cutoff of `pruneOldFiles`. -/
def prunes (logDir cutoff path : Bytes) : Bool :=
  match entryName logDir path with
  | none => false
  | some name => (ascii "ntm-client-").isPrefixOf name && 25 ≤ name.length &&
    lexLt ((name.drop 11).take 10) cutoff

/-- The file is one that `deleteAllFiles` deletes. -/
def isLogFile (logDir path : Bytes) : Bool :=
  match entryName logDir path with
  | none => false
  | some name => (ascii "ntm-client-").isPrefixOf name && 11 ≤ name.length &&
    name.rtake 4 = ascii ".log"

def pruneOldFiles (l : FileLogger) (cutoff : Bytes) : FileLogger :=
  if l.logDir = [] then l
  else { l with files := fun p => if prunes l.logDir cutoff p then none else l.files p }

/-- `fopen(path, "a")` of a file that may not exist. -/
def touch (path : Bytes) (files : System Bytes Bytes) : System Bytes Bytes :=
  match files path with
  | some _ => files
  | none => Files.write path [] files

def fileSize (files : System Bytes Bytes) (path : Bytes) : Nat := ((files path).getD []).length

/-- Open the file of a date; `ok` is whether the system opens it. -/
def openFile (l : FileLogger) (date : Bytes) (ok : Bool) : FileLogger × Bool :=
  let path := pathForDate l.logDir date
  if ok then
    ({ l with files := touch path l.files, fp := some path, currentPath := path
              currentSize := fileSize l.files path, currentDateStr := date }, true)
  else ({ l with fp := none }, false)

def closeFile (l : FileLogger) : FileLogger :=
  { l with fp := none, currentPath := [], currentDateStr := [], currentSize := 0 }

/-! ## The rotation -/

/-- What `rotateInPlace` keeps: the text behind the first line feed at or after the midpoint. -/
def keptPart (buf : Bytes) : Bytes := ((buf.drop (buf.length / 2)).dropWhile (· ≠ LF)).drop 1

/-- Whether the opens of a rotation succeed: for reading, for rewriting, for appending. -/
structure RotateOpens where
  read : Bool
  rewrite : Bool
  reopen : Bool

def rotateInPlace (l : FileLogger) (opens : RotateOpens) : FileLogger :=
  if l.fp = none ∨ l.currentPath = [] then l
  else
    let path := l.currentPath
    match if opens.read then l.files path else none with
    | none => (openFile l l.currentDateStr opens.reopen).1
    | some [] => (openFile l l.currentDateStr opens.reopen).1
    | some buf =>
      let files := if opens.rewrite then Files.write path (keptPart buf) l.files else l.files
      if opens.reopen then
        { l with files := touch path files, fp := some path, currentSize := fileSize files path }
      else { l with files, fp := none, currentSize := 0 }

/-! ## Calls -/

/-- A write, at a local date and time, with the cutoff of a prune and the answers to its opens. -/
structure Write where
  level : LogLevel
  msg : Bytes
  date : Bytes
  clock : Bytes
  cutoff : Bytes
  rollover : Bool
  rotation : RotateOpens

def Write.line (w : Write) : Bytes :=
  let timeBuf := w.date ++ SP :: w.clock
  let line := ascii "[" ++ timeBuf ++ SP :: levelToStr w.level ++ ascii "] " ++ w.msg
  if line.getLast? = some LF then line else line ++ [LF]

/-- `fwrite` at the end of the open file. -/
def append (l : FileLogger) (line : Bytes) : FileLogger :=
  match l.fp with
  | none => l
  | some path =>
    { l with files := modify (· ++ line) path l.files, currentSize := l.currentSize + line.length }

/-- The daily rollover of a write, and whether the write goes on. -/
def rollover (l : FileLogger) (w : Write) : FileLogger × Bool :=
  if w.date ≠ l.currentDateStr then
    openFile (pruneOldFiles (closeFile l) w.cutoff) w.date w.rollover
  else (l, true)

/-- The part of a write that holds the lock. -/
def writeLine (l : FileLogger) (w : Write) : FileLogger :=
  if l.fp = none then l
  else match rollover l w with
    | (l, false) => l
    | (l, true) =>
      append (if l.currentSize + w.line.length > kMaxFileSizeBytes then rotateInPlace l w.rotation
        else l) w.line

def write (l : FileLogger) (w : Write) : FileLogger :=
  if !l.active then l
  else if w.level.toNat < l.level.toNat then l
  else writeLine l w

def init (l : FileLogger) (logDir : Bytes) (level : LogLevel) (created : Bool)
    (cutoff today : Bytes) (ok : Bool) : FileLogger :=
  let l := { l with logDir, level }
  if !created then l
  else match openFile (pruneOldFiles l cutoff) today ok with
    | (l, false) => l
    | (l, true) => { l with active := true }

def stop (l : FileLogger) : FileLogger := closeFile { l with active := false }

def BACKSLASH : UInt8 := 92

def deleteFile (l : FileLogger) (name : Bytes) : FileLogger × Bool :=
  if SLASH ∈ name ∨ BACKSLASH ∈ name then (l, false)
  else if !(ascii "ntm-client-").isPrefixOf name || name.length < 12 then (l, false)
  else if l.logDir = [] then (l, false)
  else
    let path := inDir l.logDir name
    let l := if path = l.currentPath then closeFile l else l
    ({ l with files := remove path l.files }, (l.files path).isSome)

def deleteAllFiles (l : FileLogger) (today : Bytes) (ok : Bool) : FileLogger :=
  if l.logDir = [] then l
  else
    let l := closeFile l
    let l := { l with files := fun p => if isLogFile l.logDir p then none else l.files p }
    if l.active then (openFile l today ok).1 else l

inductive Call
  | init (logDir : Bytes) (level : LogLevel) (created : Bool) (cutoff today : Bytes) (ok : Bool)
  | write (w : Write)
  | setLevel (level : LogLevel)
  | deleteFile (name : Bytes)
  | deleteAllFiles (today : Bytes) (ok : Bool)
  | stop

def step (l : FileLogger) : Call → FileLogger
  | .init logDir level created cutoff today ok => init l logDir level created cutoff today ok
  | .write w => write l w
  | .setLevel level => { l with level }
  | .deleteFile name => (deleteFile l name).1
  | .deleteAllFiles today ok => deleteAllFiles l today ok
  | .stop => stop l

/-! ## The open file -/

variable {l : FileLogger} {w : Write}

/-- The file of the current date is open, and exists. -/
structure IsOpen (l : FileLogger) : Prop where
  fp : l.fp = some (pathForDate l.logDir l.currentDateStr)
  path : l.currentPath = pathForDate l.logDir l.currentDateStr
  exist : (l.files (pathForDate l.logDir l.currentDateStr)).isSome = true

/-- An active logger has a file open. -/
def Ready (l : FileLogger) : Prop := l.active = true → IsOpen l

theorem touch_same (path : Bytes) (files : System Bytes Bytes) :
    touch path files path = some ((files path).getD []) := by
  unfold touch
  cases h : files path with
  | some c => simp [h]
  | none => simp [Files.write]

theorem isOpen_openFile (l : FileLogger) (date : Bytes) : IsOpen (openFile l date true).1 :=
  ⟨rfl, rfl, by simp [openFile, touch_same]⟩

theorem pathForDate_ne_nil (logDir date : Bytes) : pathForDate logDir date ≠ [] := by
  simp [pathForDate, inDir]

theorem prune_files (l : FileLogger) (cutoff path : Bytes) :
    (pruneOldFiles l cutoff).files path = l.files path ∨
      (pruneOldFiles l cutoff).files path = none := by
  unfold pruneOldFiles
  split
  · exact .inl rfl
  · by_cases hp : prunes l.logDir cutoff path = true
    · exact .inr (by simp [hp])
    · exact .inl (by simp [hp])

theorem logDir_prune (l : FileLogger) (cutoff : Bytes) :
    (pruneOldFiles l cutoff).logDir = l.logDir := by
  unfold pruneOldFiles
  split <;> rfl

theorem active_prune (l : FileLogger) (cutoff : Bytes) :
    (pruneOldFiles l cutoff).active = l.active := by
  unfold pruneOldFiles
  split <;> rfl

/-! ## A write -/

/-- The write is logged: the logger is active and the level is high enough. -/
def Accepted (l : FileLogger) (w : Write) : Prop :=
  l.active = true ∧ l.level.toNat ≤ w.level.toNat

/-- The write opens a file, for its day or after a rotation, and fails to. -/
def OpenFails (l : FileLogger) (w : Write) : Prop :=
  (w.date ≠ l.currentDateStr ∧ w.rollover = false) ∨
    ((rollover l w).1.currentSize + w.line.length > kMaxFileSizeBytes ∧ w.rotation.reopen = false)

/-- The line stands at the end of the file of its day, behind what that held or a last part of
it. -/
def Appended (l : FileLogger) (w : Write) : Prop :=
  ∃ c, c <:+ (l.files (pathForDate l.logDir w.date)).getD [] ∧
    (write l w).files (pathForDate l.logDir w.date) = some (c ++ w.line)

def Logged (l : FileLogger) (w : Write) : Prop := Accepted l w → OpenFails l w ∨ Appended l w

/-- `l'` has the file of the day open, with a last part of what it held in `l`. -/
structure Continues (l l' : FileLogger) (day : Bytes) : Prop where
  isOpen : IsOpen l'
  date : l'.currentDateStr = day
  logDir : l'.logDir = l.logDir
  active : l'.active = l.active
  content : ∃ c, l'.files (pathForDate l.logDir day) = some c ∧
    c <:+ (l.files (pathForDate l.logDir day)).getD []

theorem Continues.trans {l₁ l₂ l₃ : FileLogger} {day : Bytes} (h : Continues l₁ l₂ day)
    (h' : Continues l₂ l₃ day) : Continues l₁ l₃ day := by
  refine ⟨h'.isOpen, h'.date, h'.logDir.trans h.logDir, h'.active.trans h.active, ?_⟩
  obtain ⟨c, hc, hsub⟩ := h.content
  obtain ⟨d, hd, hsub'⟩ := h'.content
  rw [h.logDir] at hd hsub'
  rw [hc, Option.getD_some] at hsub'
  exact ⟨d, hd, hsub'.trans hsub⟩

theorem continues_self (h : IsOpen l) : Continues l l l.currentDateStr := by
  refine ⟨h, rfl, rfl, rfl, ?_⟩
  obtain ⟨c, hc⟩ := Option.isSome_iff_exists.mp h.exist
  refine ⟨c, hc, ?_⟩
  rw [hc]
  exact List.suffix_refl c

theorem rollover_continues (h : IsOpen l)
    (hok : ¬ (w.date ≠ l.currentDateStr ∧ w.rollover = false)) :
    (rollover l w).2 = true ∧ Continues l (rollover l w).1 w.date := by
  unfold rollover
  by_cases hdate : w.date = l.currentDateStr
  · rw [if_neg (by simpa using hdate), hdate]
    exact ⟨rfl, continues_self h⟩
  · have hroll : w.rollover = true := by
      by_contra hno
      exact hok ⟨hdate, by simpa using hno⟩
    rw [if_pos hdate, hroll]
    have hdir : (pruneOldFiles (closeFile l) w.cutoff).logDir = l.logDir := logDir_prune _ _
    refine ⟨rfl, isOpen_openFile _ _, rfl, hdir, active_prune _ _, ?_⟩
    · refine ⟨_, by simp only [openFile, if_true, hdir, touch_same]; rfl, ?_⟩
      rcases prune_files (closeFile l) w.cutoff (pathForDate l.logDir w.date) with hp | hp
      · rw [hp]
        exact List.suffix_refl _
      · rw [hp]
        exact List.nil_suffix

theorem keptPart_suffix (buf : Bytes) : keptPart buf <:+ buf :=
  (List.drop_suffix _ _).trans ((List.dropWhile_suffix _).trans (List.drop_suffix _ _))

theorem openFile_continues (l : FileLogger) :
    Continues l (openFile l l.currentDateStr true).1 l.currentDateStr := by
  refine ⟨isOpen_openFile _ _, rfl, rfl, rfl, _, touch_same _ _, List.suffix_refl _⟩

theorem rotate_continues (h : IsOpen l) {opens : RotateOpens} (hre : opens.reopen = true) :
    Continues l (rotateInPlace l opens) l.currentDateStr := by
  have hopen : ¬ (l.fp = none ∨ l.currentPath = []) := by
    rw [h.fp, h.path]
    simp [pathForDate_ne_nil]
  unfold rotateInPlace
  rw [if_neg hopen, hre]
  dsimp only
  split
  · exact openFile_continues l
  · exact openFile_continues l
  next buf hne hbuf =>
    have hfile : l.files l.currentPath = some buf := by
      split at hbuf
      · exact hbuf
      · cases hbuf
    rw [h.path] at hfile ⊢
    rw [if_pos rfl]
    have hsub : ∀ files : System Bytes Bytes, (touch (pathForDate l.logDir l.currentDateStr) files
        (pathForDate l.logDir l.currentDateStr)).isSome = true := fun files => by simp [touch_same]
    refine ⟨⟨rfl, rfl, hsub _⟩, rfl, rfl, rfl, _, touch_same _ _, ?_⟩
    rw [hfile, Option.getD_some]
    cases opens.rewrite with
    | true => simpa [Files.write] using keptPart_suffix buf
    | false => simp [hfile]

/-- What an accepted write comes to when its day is open. -/
theorem write_eq_append (hfp : l.fp ≠ none) (hacc : Accepted l w)
    (hgo : (rollover l w).2 = true) : write l w =
      append (if (rollover l w).1.currentSize + w.line.length > kMaxFileSizeBytes then
        rotateInPlace (rollover l w).1 w.rotation else (rollover l w).1) w.line := by
  have hlevel := hacc.2
  have hpair : rollover l w = ((rollover l w).1, true) := Prod.ext rfl hgo
  rw [write, if_neg (by simp [hacc.1]), if_neg (by omega), writeLine, if_neg hfp, hpair]

/-- **A write** at which no open fails. -/
theorem write_continues (h : IsOpen l) (hacc : Accepted l w) (hok : ¬ OpenFails l w) :
    IsOpen (write l w) ∧ (write l w).active = l.active ∧ Appended l w := by
  rw [OpenFails, not_or] at hok
  obtain ⟨hgo, hroll⟩ := rollover_continues h hok.1
  have hwrite := write_eq_append (by simp [h.fp]) hacc hgo
  generalize hl : (rollover l w).1 = l₁ at hroll hwrite
  -- the logger after the rotation, if there is one
  have hrot : ∃ l₂, (if l₁.currentSize + w.line.length > kMaxFileSizeBytes then
      rotateInPlace l₁ w.rotation else l₁) = l₂ ∧ Continues l l₂ w.date := by
    refine ⟨_, rfl, ?_⟩
    split
    next hbig =>
      have hre : w.rotation.reopen = true := by
        by_contra hno
        exact hok.2 ⟨by rw [hl]; exact hbig, by simpa using hno⟩
      exact hroll.trans (hroll.date ▸ rotate_continues hroll.isOpen hre)
    · exact hroll
  obtain ⟨l₂, hl₂, hcont⟩ := hrot
  rw [hl₂] at hwrite
  obtain ⟨c, hc, hsub⟩ := hcont.content
  have hfp := hcont.isOpen.fp
  rw [hcont.logDir, hcont.date] at hfp
  have happend : append l₂ w.line = { l₂ with
      files := modify (· ++ w.line) (pathForDate l.logDir w.date) l₂.files
      currentSize := l₂.currentSize + w.line.length } := by rw [append, hfp]
  have hfile : (append l₂ w.line).files (pathForDate l.logDir w.date) = some (c ++ w.line) := by
    rw [happend]
    simp [hc]
  refine ⟨?_, ?_, c, hsub, by rw [hwrite, hfile]⟩
  · rw [hwrite]
    refine ⟨?_, ?_, ?_⟩
    · rw [happend]
      exact hcont.isOpen.fp
    · rw [happend]
      exact hcont.isOpen.path
    · have hdir : (append l₂ w.line).logDir = l.logDir := by rw [happend]; exact hcont.logDir
      have hdate : (append l₂ w.line).currentDateStr = w.date := by rw [happend]; exact hcont.date
      rw [hdir, hdate, hfile]
      rfl
  · rw [hwrite, happend]
    exact hcont.active

/-- **With a file open**, a write is appended unless an open fails at it. -/
theorem logged_of_open (h : Ready l) (w : Write) : Logged l w := by
  intro hacc
  by_cases hok : OpenFails l w
  · exact .inl hok
  · exact .inr (write_continues (h hacc.1) hacc hok).2.2

/-! ## Runs -/

/-- The call does not fail to open a file that an active logger needs, and does not delete the
file that is open. -/
def KeepsOpen (l : FileLogger) : Call → Prop
  | .init _ _ created _ _ ok => l.active = true → created = true ∧ ok = true
  | .write w => Accepted l w → ¬ OpenFails l w
  | .setLevel _ => True
  | .deleteFile name => inDir l.logDir name ≠ l.currentPath
  | .deleteAllFiles _ ok => l.active = true → ok = true
  | .stop => True

theorem write_of_not_accepted (h : ¬ Accepted l w) : write l w = l := by
  unfold write
  cases ha : l.active with
  | false => rfl
  | true =>
    rw [if_neg (by simp), if_pos]
    exact Nat.lt_of_not_le fun hle => h ⟨ha, hle⟩

theorem ready_init {created ok : Bool} (h : l.active = true → created = true ∧ ok = true)
    (logDir : Bytes) (level : LogLevel) (cutoff today : Bytes) :
    Ready (init l logDir level created cutoff today ok) := by
  intro hactive
  unfold init at hactive ⊢
  cases created with
  | false => exact absurd (h hactive).1 (by simp)
  | true =>
    cases ok with
    | false =>
      have ha : l.active = true := (active_prune { l with logDir, level } cutoff).symm.trans hactive
      exact absurd (h ha).2 (by simp)
    | true =>
      have hopen := isOpen_openFile (pruneOldFiles { l with logDir, level } cutoff) today
      exact ⟨hopen.fp, hopen.path, hopen.exist⟩

theorem ready_deleteFile (h : Ready l) {name : Bytes} (hne : inDir l.logDir name ≠ l.currentPath) :
    Ready (deleteFile l name).1 := by
  unfold deleteFile
  split
  · exact h
  · split
    · exact h
    · split
      · exact h
      · dsimp only
        rw [if_neg hne]
        intro hactive
        obtain ⟨hfp, hpath, hexist⟩ := h hactive
        have hother : pathForDate l.logDir l.currentDateStr ≠ inDir l.logDir name :=
          fun e => hne (e.symm.trans hpath.symm)
        exact ⟨hfp, hpath, by simpa [hother] using hexist⟩

theorem ready_deleteAllFiles (h : Ready l) {ok : Bool} (hok : l.active = true → ok = true)
    (today : Bytes) : Ready (deleteAllFiles l today ok) := by
  unfold deleteAllFiles
  split
  · exact h
  · dsimp only
    split
    next ha =>
      obtain rfl := hok ha
      exact fun _ => isOpen_openFile _ _
    next ha => exact fun hactive => absurd hactive ha

/-- **A call** keeps the file of an active logger open. -/
theorem open_step (h : Ready l) (c : Call) (hc : KeepsOpen l c) : Ready (step l c) := by
  cases c with
  | init logDir level created cutoff today ok => exact ready_init hc logDir level cutoff today
  | write w =>
    by_cases hacc : Accepted l w
    · exact fun _ => (write_continues (h hacc.1) hacc (hc hacc)).1
    · have heq : step l (.write w) = l := write_of_not_accepted hacc
      rw [heq]
      exact h
  | setLevel level => exact fun ha => ⟨(h ha).fp, (h ha).path, (h ha).exist⟩
  | deleteFile name => exact ready_deleteFile h hc
  | deleteAllFiles today ok => exact ready_deleteAllFiles h hc today
  | stop =>
    intro hactive
    cases hactive

/-- The calls as the steps of a system. -/
def next (l : FileLogger) (c : Call) : Option FileLogger := some (step l c)

/-- **The log.** In a run of calls that keep the file open, every write is appended to the file of
its day, unless an open fails at it. -/
theorem logged_of_run (files : System Bytes Bytes) (calls : List Call) (l : FileLogger)
    (hrun : Runs.run next { files } calls = some l)
    (hkeep : Runs.Meets next KeepsOpen { files } calls) (w : Write) : Logged l w := by
  have hstart : Ready { files } := fun hactive => absurd hactive (by simp)
  refine logged_of_open (Runs.invariant_of_meets ?_ hstart hkeep hrun) w
  intro l c l' hready hc hstep
  obtain rfl := Option.some.inj hstep
  exact open_step hready c hc

/-! ## Lost writes -/

def noFiles : System Bytes Bytes := fun _ => none

def newYear : Bytes := ascii "2026-01-01"

def newYearFile : Bytes := ascii "ntm-client-2026-01-01.log"

/-- The logger starts on the first of January, with every open succeeding. -/
def startUp : Call := .init (ascii "/var/log") .Info true (ascii "2025-12-29") newYear true

def goodOpens : RotateOpens := ⟨true, true, true⟩

/-- A write on a day, at which the open for the day succeeds or not. -/
def hello (date : Bytes) (rollover : Bool) : Write where
  level := .Warn
  msg := ascii "hello"
  date
  clock := ascii "12:00:00"
  cutoff := ascii "2025-12-30"
  rollover
  rotation := goodOpens

theorem logged_of_run_hello : ∃ l, Runs.run next { files := noFiles } [startUp] = some l ∧
    Logged l (hello newYear true) :=
  ⟨_, rfl, logged_of_run noFiles [startUp] _ rfl ⟨fun h => absurd h (by simp), trivial⟩ _⟩

theorem not_logged_of_closed (hfp : l.fp = none) (hacc : Accepted l w) (hok : ¬ OpenFails l w)
    (hfile : l.files (pathForDate l.logDir w.date) = none) : ¬ Logged l w := by
  intro hlogged
  have hwrite : write l w = l := by
    rw [write, if_neg (by simp [hacc.1]), if_neg (by have := hacc.2; omega), writeLine,
      if_pos hfp]
  rcases hlogged hacc with h | ⟨c, -, h⟩
  · exact hok h
  · rw [hwrite, hfile] at h
    cases h

/-- The deletion of the current file silences the next write; so does one failed open at midnight,
although every open would succeed again. -/
theorem silenced :
    (∃ l, Runs.run next { files := noFiles } [startUp, .deleteFile newYearFile] = some l ∧
      ¬ Logged l (hello newYear true)) ∧
      ∃ l, Runs.run next { files := noFiles }
        [startUp, .write (hello (ascii "2026-01-02") false)] = some l ∧
        ¬ Logged l (hello (ascii "2026-01-02") true) := by
  have hopens (l : FileLogger) (date : Bytes) : ¬ OpenFails l (hello date true) := by
    simp [OpenFails, hello, goodOpens]
  refine ⟨⟨_, rfl, not_logged_of_closed ?_ ⟨rfl, by decide⟩ (hopens _ _) ?_⟩,
    ⟨_, rfl, not_logged_of_closed ?_ ⟨rfl, by decide⟩ (hopens _ _) ?_⟩⟩
  all_goals decide +kernel

end FileLogger

end TrafficMonitor.ClientLog
