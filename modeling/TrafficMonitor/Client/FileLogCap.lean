import TrafficMonitor.Client.FileLog

/-!
# The cap of the log files

A write that would take the current file over the cap discards its older half first, once. Beside
the logger stands a book of everything that was logged to each file (`Book`). Every open succeeds.

Proved here:

* `kept_write`: a write leaves the current file with its size on record, and every file with a
  last part of what was logged to it, from the start of a line on;
* `capped_iff_of_run`: after a run of writes that fit, the file is within the cap after one more
  write if and only if that one fits as well;
* `oversized`: a file that stays above the cap.
-/

namespace TrafficMonitor.ClientLog.FileLogger

open Bytes Files

/-! ## The book -/

/-- The logger, and everything that was logged to each file since it exists. -/
structure Book where
  logger : FileLogger
  logged : Bytes → Bytes

instance (l : FileLogger) (w : Write) : Decidable (Accepted l w) :=
  inferInstanceAs (Decidable (_ ∧ _))

/-- The book after the rollover of a write: a file that is pruned starts again. -/
def Book.roll (b : Book) (w : Write) : Book where
  logger := (rollover b.logger w).1
  logged p :=
    if w.date ≠ b.logger.currentDateStr ∧ b.logger.logDir ≠ [] ∧ prunes b.logger.logDir w.cutoff p
    then [] else b.logged p

/-- The book after a write. -/
def Book.write (b : Book) (w : Write) : Book :=
  if Accepted b.logger w then
    { logger := b.logger.write w
      logged := Function.update (b.roll w).logged (pathForDate b.logger.logDir w.date)
        ((b.roll w).logged (pathForDate b.logger.logDir w.date) ++ w.line) }
  else b

/-- The book when the logger starts, with the files that exist. -/
def Book.start (files : System Bytes Bytes) (logDir : Bytes) (level : LogLevel)
    (cutoff today : Bytes) : Book :=
  let l := init { files } logDir level true cutoff today true
  { logger := l, logged := fun p => (l.files p).getD [] }

/-- All opens of the write succeed. -/
def Works (w : Write) : Prop := w.rollover = true ∧ w.rotation = ⟨true, true, true⟩

/-- `c` is a last part of `all` that starts at the start of a line. -/
def AtLine (all c : Bytes) : Prop := ∃ a, all = a ++ c ∧ (a = [] ∨ a.getLast? = some LF)

/-- The current file is within the cap, its size is on record, and it holds a last part of what
was logged to it, from the start of a line on. -/
def Capped (b : Book) : Prop :=
  ∃ c, b.logger.files b.logger.currentPath = some c ∧ c.length ≤ kMaxFileSizeBytes ∧
    b.logger.currentSize = c.length ∧ AtLine (b.logged b.logger.currentPath) c

/-- What the file of the day holds when the write has rolled over. -/
def held (l : FileLogger) (w : Write) : Bytes :=
  ((rollover l w).1.files (pathForDate l.logDir w.date)).getD []

/-- The line fits in the file, or behind what follows the first line feed in its second half. -/
def Fits (l : FileLogger) (w : Write) : Prop :=
  (held l w).length + w.line.length ≤ kMaxFileSizeBytes ∨
    (LF ∈ (held l w).drop ((held l w).length / 2) ∧
      (keptPart (held l w)).length + w.line.length ≤ kMaxFileSizeBytes)

/-! ## Lines -/

theorem atLine_refl (c : Bytes) : AtLine c c := ⟨[], rfl, .inl rfl⟩

theorem AtLine.append {all c : Bytes} (h : AtLine all c) (line : Bytes) :
    AtLine (all ++ line) (c ++ line) := by
  obtain ⟨a, rfl, ha⟩ := h
  exact ⟨a, List.append_assoc _ _ _, ha⟩

theorem exists_keptPart {c : Bytes} (h : LF ∈ c.drop (c.length / 2)) :
    ∃ a, c = a ++ LF :: keptPart c := by
  obtain ⟨x, y, hxy, hx⟩ := List.eq_append_cons_of_mem h
  have hkept : keptPart c = y := by
    have hall : ∀ b ∈ x, decide (b ≠ LF) = true := fun b hb => by
      simpa using fun e : b = LF => hx (e ▸ hb)
    rw [keptPart, hxy, List.dropWhile_append_of_pos hall, List.dropWhile_cons_of_neg (by simp)]
    rfl
  refine ⟨c.take (c.length / 2) ++ x, ?_⟩
  rw [hkept, List.append_assoc, ← hxy, List.take_append_drop]

theorem keptPart_eq_nil {c : Bytes} (h : LF ∉ c.drop (c.length / 2)) : keptPart c = [] := by
  have hall : ∀ b ∈ c.drop (c.length / 2), decide (b ≠ LF) = true := fun b hb => by
    simpa using fun e : b = LF => h (e ▸ hb)
  rw [keptPart, List.dropWhile_eq_nil_iff.mpr hall]
  rfl

theorem AtLine.keptPart {all c : Bytes} (h : AtLine all c) (hlf : LF ∈ c.drop (c.length / 2)) :
    AtLine all (FileLogger.keptPart c) := by
  obtain ⟨a, rfl, -⟩ := h
  obtain ⟨x, hx⟩ := exists_keptPart hlf
  refine ⟨a ++ x ++ [LF], ?_, .inr (by simp)⟩
  conv_lhs => rw [hx]
  simp

/-- If there is no line feed in the second half of the text, nothing of it is kept, and what is
written next does not begin a line. -/
theorem mem_of_atLine {all c line : Bytes} (hc : c ≠ []) (h : AtLine all c)
    (hline : AtLine (all ++ line) line) : LF ∈ c.drop (c.length / 2) := by
  obtain ⟨a, rfl, -⟩ := h
  obtain ⟨b, hb, hend⟩ := hline
  obtain rfl : a ++ c = b := List.append_cancel_right hb
  have hlast : c.getLast? = some LF := by
    rcases hend with h | h
    · exact absurd (List.append_eq_nil_iff.mp h).2 hc
    · rwa [List.getLast?_append_of_ne_nil _ hc] at h
  obtain ⟨t, ht⟩ := List.getLast?_eq_some_iff.mp hlast
  have hlen := congrArg List.length ht
  rw [List.length_append, List.length_singleton] at hlen
  rw [ht, List.drop_append_of_le_length (by rw [← ht]; omega)]
  simp

/-! ## The state between writes -/

/-- The file of the day is open and its size on record; every file holds a last part of what was
logged to it. -/
structure Kept (b : Book) : Prop where
  isOpen : IsOpen b.logger
  size : b.logger.currentSize = fileSize b.logger.files b.logger.currentPath
  suffix : ∀ p c, b.logger.files p = some c → AtLine (b.logged p) c
  fresh : ∀ p, b.logger.files p = none → b.logged p = []

variable {b : Book} {w : Write}

theorem touch_ne {path p : Bytes} (h : p ≠ path) (files : System Bytes Bytes) :
    touch path files p = files p := by
  unfold touch
  cases files path with
  | some c => rfl
  | none => simp [Files.write, h]

/-- An opened file holds what it held, or nothing. -/
theorem kept_openFile {l : FileLogger} {logged : Bytes → Bytes} (date : Bytes)
    (hsuffix : ∀ p c, l.files p = some c → AtLine (logged p) c)
    (hfresh : ∀ p, l.files p = none → logged p = []) :
    Kept ⟨(openFile l date true).1, logged⟩ := by
  refine ⟨isOpen_openFile l date, ?_, fun p c hc => ?_, fun p hp => ?_⟩
  · simp [openFile, fileSize, touch_same]
  · by_cases hpath : p = pathForDate l.logDir date
    · subst hpath
      simp only [openFile, if_true, touch_same, Option.some.injEq] at hc
      cases hfile : l.files (pathForDate l.logDir date) with
      | some d =>
        rw [hfile, Option.getD_some] at hc
        exact hc ▸ hsuffix _ d hfile
      | none =>
        rw [hfile, Option.getD_none] at hc
        subst hc
        exact hfresh _ hfile ▸ atLine_refl []
    · simp only [openFile, if_true, touch_ne hpath] at hc
      exact hsuffix p c hc
  · by_cases hpath : p = pathForDate l.logDir date
    · subst hpath
      simp [openFile, touch_same] at hp
    · simp only [openFile, if_true, touch_ne hpath] at hp
      exact hfresh p hp

theorem prune_files_eq (l : FileLogger) (cutoff p : Bytes) : (pruneOldFiles l cutoff).files p =
    if l.logDir ≠ [] ∧ prunes l.logDir cutoff p then none else l.files p := by
  unfold pruneOldFiles
  by_cases hdir : l.logDir = []
  · simp [hdir]
  · simp [hdir]

theorem kept_roll (h : Kept b) (hw : Works w) : Kept (b.roll w) := by
  unfold Book.roll rollover
  by_cases hdate : w.date = b.logger.currentDateStr
  · simp only [hdate, ne_eq, not_true_eq_false, false_and, if_false]
    exact h
  · rw [if_pos hdate, hw.1]
    have hfiles : ∀ p, (pruneOldFiles (closeFile b.logger) w.cutoff).files p =
        if b.logger.logDir ≠ [] ∧ prunes b.logger.logDir w.cutoff p then none
        else b.logger.files p := prune_files_eq _ _
    refine kept_openFile _ (fun p c hc => ?_) fun p hp => ?_
    · rw [hfiles] at hc
      split at hc
      · cases hc
      next hkeep =>
        rw [if_neg fun hpruned => hkeep hpruned.2]
        exact h.suffix p c hc
    · rw [hfiles] at hp
      split at hp
      next hgone => rw [if_pos ⟨hdate, hgone⟩]
      · split
        · rfl
        · exact h.fresh p hp

/-- The rotation keeps what follows the first line feed in the second half of the file. -/
theorem rotate_eq (h : Kept b) {c : Bytes}
    (hc : b.logger.files b.logger.currentPath = some c) :
    (rotateInPlace b.logger ⟨true, true, true⟩).files =
        Files.write b.logger.currentPath (keptPart c) b.logger.files ∧
      (rotateInPlace b.logger ⟨true, true, true⟩).currentPath = b.logger.currentPath ∧
      (rotateInPlace b.logger ⟨true, true, true⟩).currentSize = (keptPart c).length := by
  have hpath := h.isOpen.path
  have hopen : ¬ (b.logger.fp = none ∨ b.logger.currentPath = []) := by
    rw [h.isOpen.fp, hpath]
    simp [pathForDate_ne_nil]
  unfold rotateInPlace
  rw [if_neg hopen]
  simp only [if_true, hc]
  cases c with
  | nil =>
    have hempty : keptPart [] = [] := rfl
    rw [hpath] at hc ⊢
    rw [hempty]
    refine ⟨?_, rfl, ?_⟩
    · funext p
      by_cases hp : p = pathForDate b.logger.logDir b.logger.currentDateStr
      · subst hp
        simp [openFile, touch_same, hc]
      · simp [openFile, touch_ne hp, hp]
    · simp [openFile, fileSize, hc]
  | cons x c =>
    refine ⟨?_, rfl, by simp [fileSize]⟩
    funext p
    by_cases hp : p = b.logger.currentPath
    · subst hp
      simp [touch_same]
    · simp [touch_ne hp, hp]

theorem append_files {l : FileLogger} {path c : Bytes} (hfp : l.fp = some path)
    (hc : l.files path = some c) (line : Bytes) :
    (append l line).files = Files.write path (c ++ line) l.files ∧
      (append l line).currentPath = l.currentPath ∧
      (append l line).currentSize = l.currentSize + line.length := by
  rw [append, hfp]
  refine ⟨?_, rfl, rfl⟩
  dsimp only
  rw [Files.modify, hc]
  rfl

/-- What the write leaves of the file of the day before it appends. -/
def kept (l : FileLogger) (w : Write) : Bytes :=
  if (held l w).length + w.line.length > kMaxFileSizeBytes then keptPart (held l w) else held l w

theorem not_openFails (l : FileLogger) (hw : Works w) : ¬ OpenFails l w := by
  rintro (h | h)
  · exact absurd h.2 (by simp [hw.1])
  · exact absurd h.2 (by simp [hw.2])

/-- **A write** whose opens succeed puts its line behind what it leaves of the file of the day. -/
theorem write_spec (h : Kept b) (hw : Works w) (hacc : Accepted b.logger w) :
    (b.roll w).logger.files (pathForDate b.logger.logDir w.date) = some (held b.logger w) ∧
      (b.write w).logger.files = Files.write (pathForDate b.logger.logDir w.date)
        (kept b.logger w ++ w.line) (b.roll w).logger.files ∧
      (b.write w).logger.currentPath = pathForDate b.logger.logDir w.date ∧
      (b.write w).logger.currentSize = (kept b.logger w ++ w.line).length := by
  obtain ⟨hgo, hroll⟩ := rollover_continues h.isOpen fun hno => not_openFails b.logger hw (.inl hno)
  have hkept := kept_roll h hw
  obtain ⟨c, hc, -⟩ := hroll.content
  have hheld : held b.logger w = c := by rw [held, hc, Option.getD_some]
  have hcur : (b.roll w).logger.currentPath = pathForDate b.logger.logDir w.date := by
    rw [hkept.isOpen.path]
    change pathForDate (rollover b.logger w).1.logDir (rollover b.logger w).1.currentDateStr = _
    rw [hroll.logDir, hroll.date]
  have hfile : (b.roll w).logger.files (pathForDate b.logger.logDir w.date) = some c := hc
  have hsize : (rollover b.logger w).1.currentSize = c.length := by
    refine hkept.size.trans ?_
    rw [hcur, fileSize, hfile, Option.getD_some]
  have hwrite : (b.write w).logger = b.logger.write w := by rw [Book.write, if_pos hacc]
  rw [hwrite, write_eq_append (by simp [h.isOpen.fp]) hacc hgo, hsize, hw.2, hheld, kept, hheld]
  refine ⟨hc, ?_⟩
  split
  · obtain ⟨hfiles, hpath, hrsize⟩ := rotate_eq hkept (hcur.symm ▸ hfile)
    have hcont := @rotate_continues _ hkept.isOpen ⟨true, true, true⟩ rfl
    rw [hcur] at hfiles hpath
    have hfp : (rotateInPlace (b.roll w).logger ⟨true, true, true⟩).fp =
        some (pathForDate b.logger.logDir w.date) := by
      rw [hcont.isOpen.fp, ← hcont.isOpen.path, hpath]
    obtain ⟨ha, hb, hs⟩ := append_files hfp (by rw [hfiles, write_same]) w.line
    refine ⟨ha.trans ?_, hb.trans hpath, hs.trans ?_⟩
    · rw [hfiles, Files.write, Files.write, Function.update_idem]
      rfl
    · rw [hrsize, List.length_append]
  · have hfp : (b.roll w).logger.fp = some (pathForDate b.logger.logDir w.date) := by
      rw [hkept.isOpen.fp, ← hkept.isOpen.path, hcur]
    obtain ⟨ha, hb, hs⟩ := append_files hfp hc w.line
    refine ⟨ha, hb.trans hcur, hs.trans ?_⟩
    rw [List.length_append]
    exact congrArg (· + w.line.length) hsize

theorem logged_write (hacc : Accepted b.logger w) : (b.write w).logged =
    Function.update (b.roll w).logged (pathForDate b.logger.logDir w.date)
      ((b.roll w).logged (pathForDate b.logger.logDir w.date) ++ w.line) := by
  rw [Book.write, if_pos hacc]

/-- What a write that fits leaves of the file still begins a line. -/
theorem atLine_kept (h : Kept b) (hw : Works w) (hacc : Accepted b.logger w)
    (hfits : Fits b.logger w) : AtLine
      ((b.roll w).logged (pathForDate b.logger.logDir w.date)) (kept b.logger w) := by
  have hheld := (kept_roll h hw).suffix _ _ (write_spec h hw hacc).1
  rw [kept]
  split
  next hbig =>
    rcases hfits with hfits | ⟨hlf, -⟩
    · exact absurd hfits (by omega)
    · exact hheld.keptPart hlf
  · exact hheld

/-- **A write** that fits keeps the book in order. -/
theorem kept_write (h : Kept b) (hw : Works w) (hfits : Accepted b.logger w → Fits b.logger w) :
    Kept (b.write w) := by
  by_cases hacc : Accepted b.logger w
  · have hroll := kept_roll h hw
    obtain ⟨hheld, hfiles, hpath, hsize⟩ := write_spec h hw hacc
    have hline := atLine_kept h hw hacc (hfits hacc)
    refine ⟨?_, ?_, fun p c hc => ?_, fun p hp => ?_⟩
    · rw [Book.write, if_pos hacc]
      exact (write_continues h.isOpen hacc (not_openFails _ hw)).1
    · rw [hsize, hpath, hfiles, fileSize, write_same, Option.getD_some]
    · rw [hfiles] at hc
      rw [logged_write hacc]
      by_cases hp : p = pathForDate b.logger.logDir w.date
      · subst hp
        rw [write_same, Option.some.injEq] at hc
        rw [Function.update_self, ← hc]
        exact hline.append w.line
      · rw [write_ne hp] at hc
        rw [Function.update_of_ne hp]
        exact hroll.suffix p c hc
    · rw [hfiles] at hp
      rw [logged_write hacc]
      by_cases hpath : p = pathForDate b.logger.logDir w.date
      · subst hpath
        rw [write_same] at hp
        cases hp
      · rw [write_ne hpath] at hp
        rw [Function.update_of_ne hpath]
        exact hroll.fresh p hp
  · rw [Book.write, if_neg hacc]
    exact h

/-- **The cap.** After an accepted write the file is within the cap if and only if it fits. -/
theorem capped_iff (h : Kept b) (hw : Works w) (hacc : Accepted b.logger w) :
    Capped (b.write w) ↔ Fits b.logger w := by
  obtain ⟨hheld, hfiles, hpath, hsize⟩ := write_spec h hw hacc
  have hlogged := (kept_roll h hw).suffix _ _ hheld
  have hcapped : Capped (b.write w) ↔
      (kept b.logger w).length + w.line.length ≤ kMaxFileSizeBytes ∧
        AtLine ((b.roll w).logged (pathForDate b.logger.logDir w.date) ++ w.line)
          (kept b.logger w ++ w.line) := by
    rw [Capped, hpath, hfiles, hsize, logged_write hacc, Function.update_self]
    simp [write_same]
  rw [hcapped]
  constructor
  · rintro ⟨hlen, hline⟩
    by_cases hbig : (held b.logger w).length + w.line.length > kMaxFileSizeBytes
    · rw [kept, if_pos hbig] at hlen hline
      refine .inr ⟨?_, hlen⟩
      have hne : held b.logger w ≠ [] := fun he => by
        rw [he] at hbig hlen
        exact absurd hlen (by simpa [keptPart] using hbig)
      by_contra hno
      rw [keptPart_eq_nil hno, List.nil_append] at hline
      exact hno (mem_of_atLine hne hlogged hline)
    · exact .inl (by omega)
  · intro hfits
    refine ⟨?_, (atLine_kept h hw hacc hfits).append w.line⟩
    rw [kept]
    split
    next hbig =>
      rcases hfits with hfits | ⟨-, hlen⟩
      · exact absurd hfits (by omega)
      · exact hlen
    next hsmall => exact Nat.le_of_not_lt hsmall

/-! ## Runs -/

theorem kept_start (files : System Bytes Bytes) (logDir : Bytes) (level : LogLevel)
    (cutoff today : Bytes) : Kept (Book.start files logDir level cutoff today) := by
  refine ⟨?_, ?_, fun p c hc => ?_, fun p hp => ?_⟩
  · exact ready_init (fun _ => ⟨rfl, rfl⟩) logDir level cutoff today rfl
  · simp [Book.start, init, openFile, fileSize, touch_same]
  · change AtLine (((Book.start files logDir level cutoff today).logger.files p).getD []) c
    rw [hc]
    exact atLine_refl c
  · change ((Book.start files logDir level cutoff today).logger.files p).getD [] = []
    rw [hp]
    rfl

/-- The writes as the steps of a system. -/
def logStep (b : Book) (w : Write) : Option Book := some (b.write w)

/-- **The cap, over a run.** However the logger starts, and whatever files it finds: while all
writes have fit, the file is within the cap after the next one if and only if that one fits. -/
theorem capped_iff_of_run (files : System Bytes Bytes) (logDir : Bytes) (level : LogLevel)
    (cutoff today : Bytes) (writes : List Write) (b : Book)
    (hrun : Runs.run logStep (Book.start files logDir level cutoff today) writes = some b)
    (hworks : ∀ v ∈ writes, Works v)
    (hfits : Runs.Meets logStep (fun b v => Accepted b.logger v → Fits b.logger v)
      (Book.start files logDir level cutoff today) writes)
    (w : Write) (hw : Works w) (hacc : Accepted b.logger w) :
    Capped (b.write w) ↔ Fits b.logger w := by
  have hkept : Kept b := by
    refine Runs.invariant_of_meets ?_ (kept_start files logDir level cutoff today)
      (Runs.meets_and_of_forall hworks hfits) hrun
    intro b v b' h hv hstep
    obtain rfl := Option.some.inj hstep
    exact kept_write h hv.1 hv.2
  exact capped_iff hkept hw hacc

theorem capped_iff_of_run_hello : ∃ b, Runs.run logStep
    (Book.start noFiles (ascii "/var/log") .Info (ascii "2025-12-29") newYear)
    [hello newYear true] = some b ∧ Capped (b.write (hello newYear true)) := by
  have hworks : Works (hello newYear true) := ⟨rfl, rfl⟩
  refine ⟨_, rfl, (capped_iff_of_run noFiles (ascii "/var/log") .Info (ascii "2025-12-29") newYear
    [hello newYear true] _ rfl (by simpa using hworks) ⟨fun _ => .inl ?_, trivial⟩ _ hworks
    ⟨rfl, by decide⟩).mpr (.inl ?_)⟩
  all_goals decide +kernel

/-! ## A file above the cap -/

theorem keptPart_replicate (n : Nat) :
    keptPart (List.replicate n LF) = List.replicate (n - n / 2 - 1) LF := by
  rw [keptPart, List.length_replicate, List.drop_replicate, List.dropWhile_replicate,
    if_neg (by simp), List.drop_replicate]

/-- A file of 200 MiB, all of it line feeds, that the logger finds when it starts. -/
def hugeFiles : System Bytes Bytes := fun p =>
  if p = pathForDate (ascii "/var/log") newYear then
    some (List.replicate (4 * kMaxFileSizeBytes) LF)
  else none

/-- After one write to it the file is half as long, and still above the cap. -/
theorem oversized : ¬ Capped ((Book.start hugeFiles (ascii "/var/log") .Info
    (ascii "2025-12-29") newYear).write (hello newYear true)) := by
  have hkept := kept_start hugeFiles (ascii "/var/log") .Info (ascii "2025-12-29") newYear
  have hheld : held (Book.start hugeFiles (ascii "/var/log") .Info (ascii "2025-12-29")
      newYear).logger (hello newYear true) = List.replicate (4 * kMaxFileSizeBytes) LF := by
    have hfiles : (Book.start hugeFiles (ascii "/var/log") .Info (ascii "2025-12-29")
        newYear).logger.files = touch (pathForDate (ascii "/var/log") newYear)
          (pruneOldFiles { files := hugeFiles, logDir := ascii "/var/log" }
            (ascii "2025-12-29")).files := rfl
    have hday : (hello newYear true).date = (Book.start hugeFiles (ascii "/var/log") .Info
        (ascii "2025-12-29") newYear).logger.currentDateStr := rfl
    have hkeep : prunes (ascii "/var/log") (ascii "2025-12-29")
        (pathForDate (ascii "/var/log") newYear) = false := by decide +kernel
    rw [held, rollover, if_neg (not_not_intro hday), hfiles]
    change (touch _ _ (pathForDate (ascii "/var/log") newYear)).getD [] = _
    rw [touch_same, prune_files_eq, if_neg (by simp [hkeep])]
    change (hugeFiles (pathForDate (ascii "/var/log") newYear)).getD [] = _
    rw [hugeFiles, if_pos rfl, Option.getD_some]
  rw [capped_iff hkept ⟨rfl, rfl⟩ ⟨rfl, by decide⟩, Fits, hheld, keptPart_replicate,
    List.length_replicate, List.length_replicate]
  have hmax : kMaxFileSizeBytes = 52428800 := rfl
  rintro (h | ⟨-, h⟩) <;> omega

end TrafficMonitor.ClientLog.FileLogger
